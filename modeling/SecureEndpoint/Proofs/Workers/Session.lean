/-
One thread makes call after call on the pool.

A `Session` is a run in which a single thread starts, pauses, resumes and stops the pool, as often as it likes, while the
workers and all other threads go on as they will without commanding the pool or its dispatcher (`Machine.ruledBy`). Whenever
a thread has to be created the system may refuse. Each finished call is recorded as a `Turn`.
- `StepOf.core`: nobody else writes the core of the pool.
- `session_course`: the turns follow each other, each comes to what the table says, and a call that is under way yields it.
-/
import SecureEndpoint.Proofs.Workers.Command
import SecureEndpoint.Proofs.Workers.Wakeups

namespace SecureEndpoint.Workers

/-! ## Who commands -/

namespace Kind

/-- a call on the pool -/
def isControl : Kind → Bool
  | .start | .pause | .resume | .stop => true
  | _ => false

/-- what the calls on the pool call -/
def serves : Kind → Bool
  | .halt | .revive | .ask .stopped | .shutdown | .stop => true
  | _ => false

/-- commands the pool or its dispatcher -/
def commands : Kind → Bool
  | .start | .pause | .resume | .shutdown | .stop | .drop | .halt | .revive => true
  | _ => false

end Kind

/-- the activations of a call on the pool: it lies at the bottom, and above it is what it calls -/
def commanding : List Kind → Bool
  | [] => true
  | [k] => k.isControl
  | k :: below => k.serves && commanding below

theorem commanding_cons {k : Kind} {below : List Kind} (h : commanding (k :: below)) :
    (k.isControl ∨ k.serves) ∧ commanding below := by
  cases below with
  | nil => exact ⟨.inl h, rfl⟩
  | cons b rest =>
    obtain ⟨hk, hb⟩ := Bool.and_eq_true_iff.1 h
    exact ⟨.inr hk, hb⟩

theorem calls_serves {g : Frame} {k : Kind} (h : g.Calls k) (hg : g.kind.isControl ∨ g.kind.serves) : k.serves := by
  cases h <;> first | rfl | (rcases hg with hg | hg <;> cases hg)

/-- a command calls only what commands call -/
theorem commanding_step {own : Own} {k : Kind} {below : List Kind} (h : commanding (k :: below)) (hfit : own.Fits k) :
    commanding (own.kinds k below) := by
  obtain ⟨hk, hbelow⟩ := commanding_cons h
  cases own with
  | become g => exact h
  | call g callee =>
    obtain ⟨rfl, hcalls⟩ := hfit
    exact Bool.and_eq_true_iff.2 ⟨calls_serves hcalls hk, h⟩
  | ret v => exact hbelow
  | unwind => rfl

theorem commanding_mem {kinds : List Kind} (h : commanding kinds) : ∀ k ∈ kinds, k.isControl ∨ k.serves := by
  induction kinds with
  | nil => nofun
  | cons k below ih =>
    obtain ⟨hk, hbelow⟩ := commanding_cons h
    intro b hb
    rcases List.mem_cons.1 hb with rfl | hb
    · exact hk
    · exact ih hbelow b hb

/-- a call on the pool leaves the dispatcher to nobody else -/
theorem commanding_directed {kinds : List Kind} (h : commanding kinds) : directed kinds := by
  induction kinds with
  | nil => rfl
  | cons k below ih =>
    obtain ⟨-, hbelow⟩ := commanding_cons h
    cases below with
    | nil => cases k <;> first | rfl | cases h
    | cons b rest =>
      have hb : b ≠ .job := by
        rintro rfl
        rcases (commanding_cons hbelow).1 with hb | hb <;> cases hb
      have := ih hbelow
      unfold directed
      split <;> simp_all

/-- whoever commands neither the pool nor its dispatcher leaves it to others -/
theorem directed_idle {kinds : List Kind} (h : ∀ k ∈ kinds, k.commands = false) : directed kinds := by
  induction kinds with
  | nil => rfl
  | cons k below ih =>
    have hk := h k (.head _)
    have hbelow := ih fun b hb => h b (.tail _ hb)
    unfold directed
    split <;> simp_all [Kind.commands]

namespace Machine

/-- nobody but thread `t` commands the pool or its dispatcher -/
def ruledBy (t : ThreadId) (m : Machine) : Bool := (List.range m.threads.length).all fun i =>
  i == t || (m.threads[i]?).all fun th => th.stack.all fun f => !f.kind.commands

theorem ruledBy_iff {t : ThreadId} {m : Machine} :
    m.ruledBy t ↔ ∀ i, i ≠ t → ∀ f ∈ m.stackOf i, f.kind.commands = false := by
  have hstack : ∀ i, (∀ f ∈ m.stackOf i, f.kind.commands = false) ↔
      (m.threads[i]?).all fun th => th.stack.all fun f => !f.kind.commands := by
    intro i
    cases ht : m.threads[i]? <;> simp [stackOf, roster, ht, Thread.calm]
  simp only [hstack, ruledBy, List.all_eq_true, List.mem_range, Bool.or_eq_true, beq_iff_eq]
  constructor
  · intro h i hi
    by_cases hlen : i < m.threads.length
    · exact (h i hlen).resolve_left hi
    · rw [List.getElem?_eq_none (Nat.not_lt.1 hlen)]
      rfl
  · intro h i _
    by_cases hi : i = t
    · exact .inl hi
    · exact .inr (h i hi)

section Step

variable {m m' : Machine} {t : ThreadId} {th : Thread} {f : Frame} {below : List Frame} {e : Effect}

/-- a step that is no command leaves the core as it is -/
theorem StepOf.core (s : m.StepOf m' t th f below e) (hf : f.kind.commands = false) : m'.shared.core = m.shared.core := by
  have hw := s.writes
  have hstage : f.stageAfter m.shared = m.shared.stage := by
    cases f <;> first | rfl | cases hf
  have hspawned : f.spawnedAfter m.shared = m.shared.spawned := by
    cases f <;> first | rfl | cases hf
  have hhandles : f.handlesAfter m e.spawn.isSome = m.shared.handles := by
    cases f <;> first | rfl | cases hf
  have hcalls : f.callsAfter m.shared = m.shared.calls := by
    cases f <;> first | rfl | cases hf
  have hhalted : f.haltedAfter m.shared = m.shared.dispatcher.stopped := by
    cases f <;> first | rfl | cases hf
  rw [Shared.core, hw.stage, hw.spawned, hw.handles, hw.calls, hw.halted, hstage, hspawned, hhandles, hcalls, hhalted]
  rfl

end Step

end Machine

/-! ## The machine and a single thread -/

/-- the thread that makes a move -/
def Move.mover? : Move → Option ThreadId
  | .step t _ | .wake t | .expire t | .call t _ => some t
  | .enter | .openGate _ => none

namespace Machine

/-- why the system refuses to create the thread that thread `t` asks for in its next step -/
def refusal? (m : Machine) (t : ThreadId) (ch : Choice) : Option Host.OsError :=
  ((m.threads[t]?).bind (·.stack.head?)).bind (·.refusal? m.shared ch)

section

variable {m m' : Machine} {t : ThreadId}

/-- a step of a thread is one of its innermost activation -/
theorem Sound.stepped {ch : Choice} (hm : m.Sound) (h : m.move (.step t ch) = some m') :
    ∃ th f below e, m.StepOf m' t th f below e ∧ f.step m t ch = some e ∧ m' = m.apply t th below e ∧
      m.refusal? t ch = f.refusal? m.shared ch := by
  cases ht : m.threads[t]? with
  | none => simp [move, ht] at h
  | some th =>
    cases hs : th.stack with
    | nil => simp [move, ht, hs] at h
    | cons f below =>
      cases he : f.step m t ch with
      | none => simp [move, ht, hs, he] at h
      | some e =>
        simp only [move, ht, hs, he, bind, pure, Option.bind_some, Option.some.injEq] at h
        subst h
        have hsees := hm.sees_top ht hs
        exact ⟨th, f, below, e, ⟨ht, hs, hsees, step_transition he hsees, rfl, m.apply_roster t th below e⟩, he, rfl,
          by simp [refusal?, ht, hs]⟩

/-- what another thread does leaves the activations of thread `t` and the core as they are -/
theorem Sound.others {mv : Move} (hm : m.Sound) (hr : m.ruledBy t) (h : m.move mv = some m') (hmv : mv.mover? ≠ some t) :
    m'.stackOf t = m.stackOf t ∧ m'.shared.core = m.shared.core := by
  cases mv with
  | step i ch =>
    have hi : i ≠ t := fun hi => hmv (congrArg some hi)
    obtain ⟨th, f, below, e, s, -⟩ := hm.stepped h
    have hf : f.kind.commands = false := by
      rw [← kind_calm]
      exact ruledBy_iff.1 hr i hi f.calm s.mem
    refine ⟨?_, s.core hf⟩
    have hspawn : e.spawn = none := by
      cases hsp : e.spawn with
      | none => rfl
      | some k =>
        obtain ⟨rfl, -⟩ := s.go.spawned hsp
        cases hf
    rw [s.stackAt, if_neg (Ne.symm hi), hspawn]
    split
    · rename_i hlen
      rw [hlen, stackOf_length]
      rfl
    · rfl
  | call i c =>
    have hi : i ≠ t := fun hi => hmv (congrArg some hi)
    obtain ⟨th, -, -, -, rfl⟩ := called h
    exact ⟨by simp [stackOf, roster, hi], rfl⟩
  | wake i =>
    obtain ⟨hs, hr⟩ := changeTop_roster (fun _ _ => Frame.calm_wakeAnyway) h
    exact ⟨stackOf_still hr t, by rw [hs]⟩
  | expire i =>
    obtain ⟨hs, hr⟩ := changeTop_roster (fun _ _ => Frame.calm_expire) h
    exact ⟨stackOf_still hr t, by rw [hs]⟩
  | enter =>
    cases h
    exact ⟨stackOf_enter (by simp [roster, Thread.calm]) t, rfl⟩
  | openGate g =>
    cases h
    exact ⟨rfl, rfl⟩

/-- a step of thread `t` makes nobody else command -/
theorem StepOf.ruled {th : Thread} {f : Frame} {below : List Frame} {e : Effect} (s : m.StepOf m' t th f below e)
    (hr : m.ruledBy t) : m'.ruledBy t := by
  refine ruledBy_iff.2 fun i hi g hg => ?_
  rw [s.stackAt, if_neg hi] at hg
  split at hg
  · cases hsp : e.spawn with
    | none => simp [hsp] at hg
    | some k =>
      simp only [hsp, Option.map_some, Option.toList_some, List.mem_singleton] at hg
      subst hg
      rfl
  · exact ruledBy_iff.1 hr i hi g hg

theorem kept_of_stacks (h : ∀ i, ∀ f ∈ m.stackOf i, f.kind ≠ .drop) : m.kept := by
  refine List.all_eq_true.2 fun th hth => List.all_eq_true.2 fun f hf => ?_
  obtain ⟨i, hi⟩ := List.getElem?_of_mem hth
  have hmem : f.calm ∈ m.stackOf i := by
    simp only [stackOf, roster, List.getElem?_map, hi, Option.map_some, Option.getD_some]
    exact List.mem_map_of_mem hf
  simpa using h i f.calm hmem

/-- while thread `t` commands the pool, nobody gives it up and nobody else calls its dispatcher -/
theorem kept_of_ruled (hr : m.ruledBy t) (hc : commanding ((m.stackOf t).map Frame.kind)) : m.kept ∧ m.poolOnly := by
  constructor
  · refine kept_of_stacks fun i f hf => ?_
    by_cases hi : i = t
    · subst hi
      have hk := commanding_mem hc f.kind (List.mem_map_of_mem hf)
      rintro hdrop
      rw [hdrop] at hk
      rcases hk with hk | hk <;> cases hk
    · have hk := ruledBy_iff.1 hr i hi f hf
      rintro hdrop
      rw [hdrop] at hk
      cases hk
  · refine poolOnly_of_stacks fun i => ?_
    by_cases hi : i = t
    · subst hi
      exact commanding_directed hc
    · refine directed_idle fun k hk => ?_
      obtain ⟨f, hf, rfl⟩ := List.mem_map.1 hk
      exact ruledBy_iff.1 hr i hi f hf

/-- at the bottom of a worker's activations lies its own loop -/
theorem worker_mem {w : Option Nat} {stack : List Frame} (h : Nested w stack) (hne : stack ≠ []) {i : Nat} (hw : w = some i) :
    ∃ p, .worker i p ∈ stack := by
  induction h with
  | idle => exact absurd rfl hne
  | @worker j p =>
    cases hw
    exact ⟨p, .head _⟩
  | outside _ => cases hw
  | call _ _ ih =>
    obtain ⟨p, hp⟩ := ih (List.cons_ne_nil _ _) hw
    exact ⟨p, .tail _ hp⟩

/-- the thread of a call that commands the pool is no worker -/
theorem outside_of_commanding {w : Option Nat} {stack : List Frame} (hn : Nested w stack) (hne : stack ≠ [])
    (hc : commanding (stack.map Frame.kind)) : w = none := by
  cases hw : w with
  | none => rfl
  | some i =>
    obtain ⟨p, hp⟩ := worker_mem hn hne hw
    rcases commanding_mem hc _ (List.mem_map_of_mem hp) with hk | hk <;> cases hk

/-- wake-ups leave what was returned -/
theorem wakeThreads_outcome (w : Wake) (threads : List Thread) (i : ThreadId) :
    ((wakeThreads w threads)[i]?).map (·.outcome) = (threads[i]?).map (·.outcome) := by
  have hwake : ∀ th : Thread, (th.wake w).outcome = th.outcome := by
    intro th
    rw [Thread.wake]
    split <;> rfl
  cases w with
  | nobody => rfl
  | runner pick =>
    simp only [wakeThreads, List.getElem?_modify]
    cases threads[i]? with
    | none => rfl
    | some th => simp only [Option.map_some]; split <;> simp [hwake]
  | _ => simp [wakeThreads, Function.comp_def, hwake]

/-- what a call from outside returns can be seen afterwards -/
theorem StepOf.returned {th : Thread} {f : Frame} {e : Effect} {v : Value} (s : m.StepOf m' t th f [] e)
    (hm' : m' = m.apply t th [] e) (hw : th.worker = none) (hv : e.own = .ret v) : m'.outcome t = some v := by
  have hl : t < m.threads.length := (List.getElem?_eq_some_iff.1 s.thread).1
  have hth : th.after (.ret v) [] = { th with stack := [], outcome := some (some v) } := by simp [Thread.after, hw]
  have hout := wakeThreads_outcome e.wake (m.threads.set t (th.after e.own [])) t
  rw [List.getElem?_set_self hl, hv, hth] at hout
  obtain ⟨u, hu, huv⟩ := Option.map_eq_some_iff.1 hout
  have hlen : t < (wakeThreads e.wake (m.threads.set t { th with stack := [], outcome := some (some v) })).length :=
    (List.getElem?_eq_some_iff.1 hu).1
  rw [outcome, hm', apply, hv, hth, List.getElem?_append_left hlen, hu]
  simp [huv]

end

end Machine

/-! ## Sessions -/

/-- a call that is under way: what the machine was like when it began, and why the system has refused to create a thread
since, if it has -/
structure Pending where
  control : Control
  before : Machine
  refusal : Option Host.OsError := none

/-- a call that has returned, with what the machine was like then -/
structure Finished extends Pending where
  after : Machine

/-- the call after a step about which the system decided -/
def Pending.met (u : Pending) (r : Option Host.OsError) : Pending := { u with refusal := r.or u.refusal }

/-- thread `t` calls the pool again and again while nobody else commands it: the calls that have returned, and the one that
is under way -/
inductive Session (t : ThreadId) (m : Machine) : List Finished → Option Pending → Machine → Prop
  | rest : Session t m [] none m
  /-- another thread moves, or something happens from outside -/
  | others {done doing a b mv} : Session t m done doing a → a.move mv = some b → mv.mover? ≠ some t → b.ruledBy t →
      Session t m done doing b
  | call {done a b c} : Session t m done none a → a.move (.call t c.call) = some b → Session t m done (some ⟨c, a, none⟩) b
  | step {done u a b ch} : Session t m done (some u) a → a.move (.step t ch) = some b → b.isIdle t = false →
      Session t m done (some (u.met (a.refusal? t ch))) b
  | ret {done u a b ch} : Session t m done (some u) a → a.move (.step t ch) = some b → b.isIdle t →
      Session t m (done ++ [⟨u.met (a.refusal? t ch), b⟩]) none b

/-- each call begins with the core that the one before has left, and comes to what the table says -/
inductive Chain (n : Nat) (t : ThreadId) (k : Core) : List Finished → Core → Prop
  | nil : Chain n t k [] k
  | snoc {done u v} (before : Chain n t k done u.before.shared.core) (returned : u.after.outcome t = some v)
      (comes : u.control.Comes n u.before.shared.core u.refusal v u.after.shared.core) :
      Chain n t k (done ++ [u]) u.after.shared.core

theorem Chain.rested {n : Nat} {t : ThreadId} {k k' : Core} {done : List Finished} (h : Chain n t k done k')
    (hk : k.Rested n) : k'.Rested n := by
  cases h with
  | nil => exact hk
  | snoc _ _ comes => exact comes.rested

/-- the stage after all calls is where the table leads to -/
theorem Chain.stage {n : Nat} {t : ThreadId} {k k' : Core} {done : List Finished} (h : Chain n t k done k') :
    k'.stage = k.stage.follow (done.flatMap fun u => u.control.attempts u.refusal) := by
  induction h with
  | nil => rfl
  | snoc before returned comes ih =>
    rw [comes.stage, ih]
    simp [Stage.follow, List.flatMap_append]

/-- a call that returned is one of those, and came to what the table says -/
theorem Chain.comes {n : Nat} {t : ThreadId} {k k' : Core} {done : List Finished} (h : Chain n t k done k') :
    ∀ u ∈ done, ∃ v, u.after.outcome t = some v ∧
      u.control.Comes n u.before.shared.core u.refusal v u.after.shared.core := by
  induction h with
  | nil => exact fun u hu => absurd hu List.not_mem_nil
  | @snoc done u v before returned comes ih =>
    intro w hw
    rcases List.mem_append.1 hw with hw | hw
    · exact ih w hw
    · rw [List.mem_singleton.1 hw]
      exact ⟨v, returned, comes⟩

namespace Machine

/-- what holds of a machine that nobody but thread `t` commands -/
structure Conduct (size : Nat) (stem : String) (t : ThreadId) (m : Machine) : Prop where
  settings : m.shared.size = size ∧ m.shared.stem = stem
  orderly : m.Orderly
  ruled : m.ruledBy t
  commanding : commanding ((m.stackOf t).map Frame.kind)

/-- what holds of a machine on which thread `t` has made the calls `done`, the first of them with the core `k` -/
structure Course (size : Nat) (stem : String) (t : ThreadId) (k : Core) (done : List Finished) (doing : Option Pending)
    (m : Machine) : Prop extends m.Conduct size stem t where
  begun : k.Rested size
  chain : Chain size t k done (doing.elim m.shared.core (·.before.shared.core))
  busy : ∀ u, doing = some u →
    StackYields size u.refusal m.shared.core (u.control.Comes size u.before.shared.core) (m.stackOf t)

theorem conduct_fresh (size : Nat) (stem : String) (dispatches : Bool) (t : ThreadId) :
    (fresh size stem dispatches).Conduct size stem t where
  settings := ⟨rfl, rfl⟩
  orderly := orderly_fresh size stem dispatches
  ruled := ruledBy_iff.2 (by simp [fresh, stackOf, roster])
  commanding := rfl

/-- a machine on which nothing is under way -/
theorem Conduct.course {m : Machine} {size : Nat} {stem : String} {t : ThreadId} (h : m.Conduct size stem t)
    (rested : m.shared.core.Rested size) : m.Course size stem t m.shared.core [] none :=
  ⟨h, rested, .nil, fun u hu => absurd hu.symm (Option.some_ne_none u)⟩

theorem move_stem {m m' : Machine} {w : Option (Stage × Change)} (mv : m.Moved m' w) : m'.shared.stem = m.shared.stem := by
  cases mv with
  | step s => exact s.writes.stem
  | still gates hsh hr => rw [hsh]
  | call c ht hw hs hsh hr => rw [hsh]
  | enter hsh hr => rw [hsh]

section

variable {m m' : Machine} {t : ThreadId} {size : Nat} {stem : String} {k : Core} {done : List Finished}
  {doing : Option Pending}

theorem conduct_others {mv : Move} (h : m.Conduct size stem t) (hmove : m.move mv = some m') (hmv : mv.mover? ≠ some t)
    (hr : m'.ruledBy t) :
    m'.Conduct size stem t ∧ m'.stackOf t = m.stackOf t ∧ m'.shared.core = m.shared.core := by
  obtain ⟨hstack, hcore⟩ := h.orderly.sound.others h.ruled hmove hmv
  have hmoved := h.orderly.sound.moved hmove
  have hc : commanding ((m'.stackOf t).map Frame.kind) := by
    rw [hstack]
    exact h.commanding
  refine ⟨⟨?_, orderly_move h.orderly hmoved (kept_of_ruled hr hc).1, hr, hc⟩, hstack, hcore⟩
  exact ⟨(move_settings hmoved).1.trans h.settings.1, (move_stem hmoved).trans h.settings.2⟩

theorem conduct_call {c : Control} (h : m.Conduct size stem t) (hmove : m.move (.call t c.call) = some m') :
    m'.Conduct size stem t ∧ m'.stackOf t = [c.call.frame] ∧ m'.shared = m.shared := by
  obtain ⟨th, ht, hw, hs, hm'⟩ := called hmove
  have hmoved := h.orderly.sound.moved hmove
  have hl : t < m.threads.length := (List.getElem?_eq_some_iff.1 ht).1
  have hsh : m'.shared = m.shared := by rw [hm']
  have hstack : m'.stackOf t = [c.call.frame] := by
    subst hm'
    cases c <;> simp [stackOf, roster, Thread.calm, hl, Control.call, Call.frame, Frame.calm]
  have hr : m'.ruledBy t := by
    refine ruledBy_iff.2 fun i hi g hg => ruledBy_iff.1 h.ruled i hi g ?_
    subst hm'
    simpa [stackOf, roster, Ne.symm hi] using hg
  have hc : commanding ((m'.stackOf t).map Frame.kind) := by
    rw [hstack]
    cases c <;> rfl
  refine ⟨⟨?_, orderly_move h.orderly hmoved (kept_of_ruled hr hc).1, hr, hc⟩, hstack, hsh⟩
  rw [hsh]
  exact h.settings

theorem conduct_own {th : Thread} {f : Frame} {below : List Frame} {e : Effect} (h : m.Conduct size stem t)
    (s : m.StepOf m' t th f below e) : m'.Conduct size stem t := by
  have hmoved := Moved.step s
  have hr := s.ruled h.ruled
  have hc : commanding ((m'.stackOf t).map Frame.kind) := by
    have hbefore := h.commanding
    rw [s.before, List.map_cons, kind_calm, List.map_map, kind_comp_calm] at hbefore
    rw [s.after, kinds_stack s.go.fits]
    exact commanding_step hbefore s.go.fits
  refine ⟨?_, orderly_move h.orderly hmoved (kept_of_ruled hr hc).1, hr, hc⟩
  exact ⟨(move_settings hmoved).1.trans h.settings.1, (move_stem hmoved).trans h.settings.2⟩

/-- whoever commands the pool comes from outside -/
theorem Conduct.outside {th : Thread} {f : Frame} {below : List Frame} {e : Effect} (h : m.Conduct size stem t)
    (s : m.StepOf m' t th f below e) : th.worker = none := by
  have hn := h.orderly.sound.formed.nested s.entry
  exact outside_of_commanding hn (by rw [s.before]; exact List.cons_ne_nil _ _) h.commanding

theorem course_others {mv : Move} (h : m.Course size stem t k done doing) (hmove : m.move mv = some m')
    (hmv : mv.mover? ≠ some t) (hr : m'.ruledBy t) : m'.Course size stem t k done doing := by
  obtain ⟨hc, hstack, hcore⟩ := conduct_others h.toConduct hmove hmv hr
  refine ⟨hc, h.begun, ?_, ?_⟩
  · cases doing with
    | none =>
      rw [Option.elim_none, hcore]
      exact h.chain
    | some u => exact h.chain
  · intro u hu
    rw [hstack, hcore]
    exact h.busy u hu

theorem course_call {c : Control} (h : m.Course size stem t k done none) (hmove : m.move (.call t c.call) = some m') :
    m'.Course size stem t k done (some ⟨c, m, none⟩) := by
  obtain ⟨hc, hstack, hsh⟩ := conduct_call h.toConduct hmove
  have hrest : m.shared.core.Rested size := h.chain.rested h.begun
  refine ⟨hc, h.begun, h.chain, ?_⟩
  rintro u ⟨⟩
  rw [hstack, hsh]
  exact begins_yields c hrest

/-- what thread `t` relies on holds in every session -/
theorem Course.favours {th : Thread} {f : Frame} {below : List Frame} {e : Effect} (h : m.Course size stem t k done doing)
    (name : stem.contains '\x00' = false) (s : m.StepOf m' t th f below e) : m.Favours t size f := by
  refine ⟨h.settings.1, fun i => ?_, fun hin => ?_, ?_, fun hc => ?_⟩
  · have hstem : '\x00' ∉ stem.toList := by simpa using name
    have hdigits : '\x00' ∉ Nat.toDigits 10 i := fun hi =>
      absurd (Nat.isDigit_of_mem_toDigits (by decide) (by decide) hi) (by decide)
    simp [Shared.workerName, h.settings.2, hstem, hdigits]
  · obtain ⟨j, hj⟩ := List.getElem?_of_mem hin
    obtain ⟨u, hu, hworker⟩ := h.orderly.custody.named j t hj
    have hout := h.outside s
    obtain rfl : th.calm = u := Option.some.inj (s.entry.symm.trans hu)
    cases hout.symm.trans hworker
  · exact guarded_enrols.calm.1 (h.orderly.custody.enrols t _ s.mem)
  · exact h.orderly.closer.closing s.mem ((countable_closes.calm f).trans hc)

theorem isIdle_iff : m.isIdle t ↔ m.stackOf t = [] := by
  cases ht : m.threads[t]? <;> simp [isIdle, stackOf, roster, ht, Thread.calm]

/-- a step of a call that is under way keeps what the call yields -/
theorem Course.yields {u : Pending} {ch : Choice} {th : Thread} {f : Frame} {below : List Frame} {e : Effect}
    (h : m.Course size stem t k done (some u)) (name : stem.contains '\x00' = false) (s : m.StepOf m' t th f below e)
    (he : f.step m t ch = some e) (hr : m.refusal? t ch = f.refusal? m.shared ch) :
    e.own.Yields size ((m.refusal? t ch).or u.refusal) m'.shared.core
      (onReturn size (u.control.Comes size u.before.shared.core) below) := by
  have hbusy := h.busy u rfl
  rw [s.before, ← List.map_cons, stackYields_calm] at hbusy
  have hcore : m'.shared.core = e.shared.core := by
    rw [s.shared]
    cases e.own <;> rfl
  rw [hr, hcore]
  exact s.go.yields he s.sees (h.favours name s) hbusy

/-- a step of a call that is under way: it goes on to what it yields, or returns it -/
theorem course_own {u : Pending} {ch : Choice} (h : m.Course size stem t k done (some u))
    (name : stem.contains '\x00' = false) (hmove : m.move (.step t ch) = some m') :
    m'.Course size stem t k done (some (u.met (m.refusal? t ch))) ∨
      m'.isIdle t ∧ m'.Course size stem t k (done ++ [⟨u.met (m.refusal? t ch), m'⟩]) none := by
  obtain ⟨th, f, below, e, s, he, hm', hrefusal⟩ := h.orderly.sound.stepped hmove
  have hc := conduct_own h.toConduct s
  rcases stackYields_own (h.yields name s he hrefusal) with ⟨v, hv, rfl, hend⟩ | hgoes
  · have hstack : m'.stackOf t = [] := by
      rw [s.after, hv]
      rfl
    refine .inr ⟨isIdle_iff.2 hstack, hc, h.begun, ?_, fun u hu => absurd hu.symm (Option.some_ne_none u)⟩
    exact .snoc (u := ⟨u.met (m.refusal? t ch), m'⟩) h.chain (s.returned hm' (h.outside s) hv) hend
  · refine .inl ⟨hc, h.begun, h.chain, ?_⟩
    rintro w ⟨⟩
    rw [s.after, stackYields_calm]
    exact hgoes

/-- **The course of a session.** -/
theorem Course.session {a : Machine} (name : stem.contains '\x00' = false) (h : a.Course size stem t k [] none)
    (s : Session t a done doing m) : m.Course size stem t k done doing := by
  induction s with
  | rest => exact h
  | others _ hmove hmv hr ih => exact course_others ih hmove hmv hr
  | call _ hmove ih => exact course_call ih hmove
  | @step done u a b ch _ hmove hbusy ih =>
    rcases course_own ih name hmove with h | ⟨hidle, -⟩
    · exact h
    · rw [hidle] at hbusy
      cases hbusy
  | @ret done u a b ch _ hmove hidle ih =>
    rcases course_own ih name hmove with h | ⟨-, h⟩
    · -- a call that goes on has activations
      have hgoes := h.busy _ rfl
      rw [isIdle_iff.1 hidle] at hgoes
      exact hgoes.elim
    · exact h

/-- a session with a pool that was never started -/
theorem session_course {dispatches : Bool} (name : stem.contains '\x00' = false)
    (s : Session t (fresh size stem dispatches) done doing m) :
    m.Course size stem t (fresh size stem dispatches).shared.core done doing :=
  ((conduct_fresh size stem dispatches t).course (Core.rested_fresh size)).session name s

end

/-! ## Replaying a session -/

/-- what happens in a session of a thread: it begins a call, it makes a step, or something else moves -/
inductive Beat where
  | call (c : Control)
  | step (ch : Choice)
  | other (mv : Move)

/-- the calls that have returned, the call under way and the machine after a beat -/
def Beat.play (t : ThreadId) : List Finished × Option Pending × Machine → Beat →
    Option (List Finished × Option Pending × Machine)
  | (done, none, m), .call c => (m.move (.call t c.call)).map fun b => (done, some ⟨c, m, none⟩, b)
  | (done, some u, m), .step ch => (m.move (.step t ch)).map fun b =>
    if b.isIdle t then (done ++ [⟨u.met (m.refusal? t ch), b⟩], none, b)
    else (done, some (u.met (m.refusal? t ch)), b)
  | (done, doing, m), .other mv =>
    if mv.mover? = some t then none
    else (m.move mv).bind fun b => if b.ruledBy t then some (done, doing, b) else none
  | _, _ => none

theorem session_play {m : Machine} {t : ThreadId} {beats : List Beat} {a b : List Finished × Option Pending × Machine}
    (s : Session t m a.1 a.2.1 a.2.2) (h : beats.foldlM (Beat.play t) a = some b) : Session t m b.1 b.2.1 b.2.2 := by
  induction beats generalizing a with
  | nil =>
    cases h
    exact s
  | cons beat rest ih =>
    rw [List.foldlM_cons] at h
    obtain ⟨p, hp, h⟩ := Option.bind_eq_some_iff.1 h
    refine ih ?_ h
    obtain ⟨done, doing, a⟩ := a
    cases beat with
    | call c =>
      cases doing with
      | some u => cases hp
      | none =>
        obtain ⟨b, hb, rfl⟩ := Option.map_eq_some_iff.1 hp
        exact .call s hb
    | step ch =>
      cases doing with
      | none => cases hp
      | some u =>
        obtain ⟨b, hb, rfl⟩ := Option.map_eq_some_iff.1 hp
        cases hidle : b.isIdle t with
        | true => exact .ret s hb hidle
        | false => exact .step s hb hidle
    | other mv =>
      simp only [Beat.play] at hp
      split at hp
      · cases hp
      · rename_i hmover
        obtain ⟨b, hb, hp⟩ := Option.bind_eq_some_iff.1 hp
        split at hp
        · rename_i hruled
          cases hp
          exact .others s hb hmover hruled
        · cases hp

end Machine

end SecureEndpoint.Workers
