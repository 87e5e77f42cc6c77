/-
What a start that fails leaves behind.

A start makes the pool running, tells how many workers there will be and restarts the dispatcher before the first worker
exists. It can fail in two ways after that. The system refuses to create a thread, at whatever index: then the start stops
the pool again. Or the name of a worker is not one that a thread can have: then it panics at the first worker, with nobody to
stop the pool. `failed_start` says what each of the two leaves, for a start of a stopped pool that no other thread commands
meanwhile, whatever has happened to the pool before:
- after a refusal the pool is as if it had never been started (`Machine.Vacant`), and can be started again;
- after a panic it counts as running without a single worker (`Machine.Stranded`), and every further start is refused.
`start_unwound` is a run of the second kind.
-/
import SecureEndpoint.Workers.Settings
import SecureEndpoint.Proofs.Workers.Serial

namespace SecureEndpoint.Workers

/-! ## A stopped pool that nobody commands -/

/-- whoever makes a pool stopped is the closer, which has still to forget the number of the workers -/
theorem Transition.ending {m : Machine} {t : ThreadId} {f : Frame} {e : Effect} (h : Transition m t f e)
    (before : m.shared.stage ≠ .stopped) (after : e.shared.stage = .stopped) : e.own = .become (.stop .settled) := by
  cases h with
  | take h => cases h <;> exact absurd after before
  | @whim mode n p w => cases w <;> exact absurd after before
  | started | paused | resumed | shut => cases after
  | settle => rfl
  | _ => exact absurd after before

namespace Machine

/-- a stopped pool waits for no workers, once whoever settled it has said so -/
def Forgotten (m : Machine) : Prop :=
  m.shared.stage = .stopped → m.shared.spawned = 0 ∨ ∃ i, .stop .settled ∈ m.stackOf i

theorem forgotten_step {m m' : Machine} {t : ThreadId} {th : Thread} {f : Frame} {below : List Frame} {e : Effect}
    (hm : m.Sound) (h : m.Forgotten) (s : m.StepOf m' t th f below e) : m'.Forgotten := by
  intro hstop
  by_cases hsettled : f = .stop .settled
  · subst hsettled
    exact .inl s.writes.spawned
  by_cases hbefore : m.shared.stage = .stopped
  · have hmark : f ≠ .start .mark := by
      rintro rfl
      cases hbefore.symm.trans s.sees
    have hsame : m'.shared.spawned = m.shared.spawned := by
      rw [s.writes.spawned]
      unfold Frame.spawnedAfter
      split
      · exact absurd rfl hmark
      · exact absurd rfl hsettled
      · rfl
    rcases h hbefore with hzero | ⟨i, hi⟩
    · exact .inl (hsame.trans hzero)
    · exact .inr ⟨i, mem_keep s hm.formed rfl hi fun _ hf => hsettled hf.symm⟩
  · refine .inr ⟨t, ?_⟩
    rw [s.stage] at hstop
    rw [s.after, s.go.ending hbefore hstop]
    exact .head _

theorem forgotten_move {m m' : Machine} {w : Option (Stage × Change)} (hm : m.Sound) (h : m.Forgotten)
    (mv : m.Moved m' w) : m'.Forgotten := by
  cases mv with
  | step s => exact forgotten_step hm h s
  | still gates hsh hr =>
    rw [Forgotten, hsh, funext (stackOf_still hr)]
    exact h
  | @call t th c ht hwk hs hsh hr =>
    rw [Forgotten, hsh]
    intro hstop
    refine (h hstop).imp_right ?_
    rintro ⟨i, hi⟩
    refine ⟨i, ?_⟩
    rw [stackOf_call ht hr]
    split
    · rename_i hit
      simp [hit, stackOf, ht, hs] at hi
    · exact hi
  | enter hsh hr =>
    rw [Forgotten, hsh, funext (stackOf_enter hr)]
    exact h

section

variable {m : Machine} {t : ThreadId} {size : Nat} {stem : String} {dispatches : Bool} {hist : List (Stage × Change)}

/-- whatever has happened to a pool, from when nobody commands it one thread can -/
theorem conduct_run (r : Run (·.kept) (fresh size stem dispatches) hist m) (ruled : m.ruledBy t) (idle : m.isIdle t) :
    m.Conduct size stem t ∧ m.Forgotten := by
  obtain ⟨-, hm, hsettings, hforgotten⟩ := r.keeps (I := fun m => m.Orderly ∧
      (m.shared.size = size ∧ m.shared.stem = stem) ∧ m.Forgotten)
    (sound_fresh size stem dispatches) ⟨orderly_fresh size stem dispatches, ⟨rfl, rfl⟩, fun _ => .inl rfl⟩
    fun {a b w} hsound ⟨hm, ⟨hsize, hstem⟩, hforgotten⟩ mv hk =>
      ⟨orderly_move hm mv hk, ⟨(move_settings mv).1.trans hsize, (move_stem mv).trans hstem⟩,
        forgotten_move hsound hforgotten mv⟩
  refine ⟨⟨hsettings, hm, ruled, ?_⟩, hforgotten⟩
  rw [isIdle_iff.1 idle]
  rfl

/-- a stopped pool that nobody commands is at rest -/
theorem Conduct.rested (h : m.Conduct size stem t) (forgotten : m.Forgotten) (idle : m.isIdle t)
    (stopped : m.shared.stage = .stopped) : m.shared.core.Rested size := by
  have hspawned : m.shared.spawned = 0 := by
    refine (forgotten stopped).resolve_right ?_
    rintro ⟨i, hi⟩
    by_cases hit : i = t
    · rw [hit, isIdle_iff.1 idle] at hi
      cases hi
    · cases ruledBy_iff.1 h.ruled i hit _ hi
  have hhandles : m.shared.handles = [] := (h.orderly.stopped stopped).1
  refine ⟨?_, ?_, ?_⟩ <;> simp [Shared.core, stopped, hhandles, hspawned]

end

/-! ## One call after the other -/

/-- each call begins with the core that the one before has left -/
def Linked (k : Core) : List Finished → Core → Prop
  | [], k' => k' = k
  | u :: rest, k' => u.before.shared.core = k ∧ Linked u.after.shared.core rest k'

theorem linked_snoc {k : Core} {done : List Finished} {u : Finished} (h : Linked k done u.before.shared.core) :
    Linked k (done ++ [u]) u.after.shared.core := by
  induction done generalizing k with
  | nil => exact ⟨h, rfl⟩
  | cons v rest ih => exact ⟨h.1, ih h.2⟩

section

variable {a m : Machine} {t : ThreadId} {size : Nat} {stem : String} {done : List Finished} {doing : Option Pending}

/-- in a session nothing but its calls writes the core, whatever the workers are called -/
theorem Conduct.session (h : a.Conduct size stem t) (s : Session t a done doing m) :
    m.Conduct size stem t ∧ Linked a.shared.core done (doing.elim m.shared.core (·.before.shared.core)) ∧
      ∀ u ∈ done, u.after.Conduct size stem t := by
  induction s with
  | rest => exact ⟨h, rfl, fun u hu => absurd hu List.not_mem_nil⟩
  | @others done doing a b mv _ hmove hmv hr ih =>
    obtain ⟨hc, hlinked, hdone⟩ := ih
    obtain ⟨hc', -, hcore⟩ := conduct_others hc hmove hmv hr
    refine ⟨hc', ?_, hdone⟩
    cases doing with
    | none =>
      rw [Option.elim_none, hcore]
      exact hlinked
    | some u => exact hlinked
  | call _ hmove ih =>
    obtain ⟨hc, hlinked, hdone⟩ := ih
    exact ⟨(conduct_call hc hmove).1, hlinked, hdone⟩
  | step _ hmove _ ih =>
    obtain ⟨hc, hlinked, hdone⟩ := ih
    obtain ⟨th, f, below, e, s, -⟩ := hc.orderly.sound.stepped hmove
    exact ⟨conduct_own hc s, hlinked, hdone⟩
  | @ret done u a b ch _ hmove _ ih =>
    obtain ⟨hc, hlinked, hdone⟩ := ih
    obtain ⟨th, f, below, e, s, -⟩ := hc.orderly.sound.stepped hmove
    have hc' := conduct_own hc s
    refine ⟨hc', linked_snoc (u := ⟨u.met (a.refusal? t ch), b⟩) hlinked, fun v hv => ?_⟩
    rcases List.mem_append.1 hv with hv | hv
    · exact hdone v hv
    · rw [List.mem_singleton.1 hv]
      exact hc'

end

/-! ## A start with a name that no thread can have -/

/-- the last call of a thread from outside has panicked -/
def panicked (m : Machine) (t : ThreadId) : Prop := (m.threads[t]?).map (·.outcome) = some (some none)

/-- a panic of a call from outside can be seen afterwards -/
theorem StepOf.panicked {m m' : Machine} {t : ThreadId} {th : Thread} {f : Frame} {below : List Frame} {e : Effect}
    (s : m.StepOf m' t th f below e) (hm' : m' = m.apply t th below e) (hw : th.worker = none) (hu : e.own = .unwind) :
    m'.panicked t := by
  have hl : t < m.threads.length := (List.getElem?_eq_some_iff.1 s.thread).1
  have hth : th.after .unwind below = { th with stack := [], outcome := some none } := by simp [Thread.after, hw]
  have hout := wakeThreads_outcome e.wake (m.threads.set t (th.after e.own below)) t
  rw [List.getElem?_set_self hl, hu, hth] at hout
  obtain ⟨u, hget, -⟩ := Option.map_eq_some_iff.1 hout
  have hlen : t < (wakeThreads e.wake (m.threads.set t { th with stack := [], outcome := some none })).length :=
    (List.getElem?_eq_some_iff.1 hget).1
  rw [Machine.panicked, hm', apply, hu, hth, List.getElem?_append_left hlen]
  exact hout

theorem panicked_outcome {m : Machine} {t : ThreadId} (h : m.panicked t) : m.outcome t = none := by
  obtain ⟨th, ht, hout⟩ := Option.map_eq_some_iff.1 h
  simp [outcome, ht, hout]

end Machine

/-- has not yet made the pool running -/
def StartPlace.asks : StartPlace → Bool
  | .wantHandles | .wantParking | .read | .swap .. => true
  | _ => false

/-- the activations of a start of a pool of size `n` that never comes past its first worker, where the core was `k` when it
began, and what the core has become -/
inductive Doomed (n : Nat) (k : Core) : List Frame → Core → Prop
  | asks {p : StartPlace} (h : p.asks) : Doomed n k [.start p] k
  | marks (h : k.stage = .stopped) : Doomed n k [.start .mark] { k with stage := .running }
  | revives {p : AccessPlace} (h : k.stage = .stopped) :
      Doomed n k [.revive p, .start .release] { k with stage := .running, spawned := n }
  | releases (h : k.stage = .stopped) : Doomed n k [.start .release] (k.launch n)
  | spawns (h : k.stage = .stopped) : Doomed n k [.start (.spawn 0)] (k.launch n)

namespace Machine

section

variable {m m' : Machine} {t : ThreadId} {th : Thread} {f : Frame} {below : List Frame} {e : Effect} {size : Nat}
  {stem : String} {k : Core}

/-- the names of the workers begin with the stem -/
theorem unusable_name {s : Shared} (h : s.stem.contains '\x00') (i : Nat) : (s.workerName i).contains '\x00' := by
  have hstem : '\x00' ∈ s.stem.toList := by simpa using h
  simp [Shared.workerName, hstem]

/-- **A start with such a name** goes on, is refused because the pool is not stopped, or panics with the pool running. -/
theorem doomed_own {ch : Choice} (hc : m.Conduct size stem t) (name : stem.contains '\x00') (workers : 0 < size)
    (s : m.StepOf m' t th f below e) (he : f.step m t ch = some e) (h : Doomed size k (m.stackOf t) m.shared.core) :
    Doomed size k (m'.stackOf t) m'.shared.core ∨
      below = [] ∧ e.own = .ret (.started (.error (.notStopped k.stage))) ∧ k.stage ≠ .stopped ∧ m'.shared.core = k ∨
      e.own = .unwind ∧ k.stage = .stopped ∧ m'.shared.core = k.launch size := by
  obtain ⟨hsize, hstem⟩ := hc.settings
  have hcore : m'.shared.core = e.shared.core := by
    rw [s.shared]
    cases e.own <;> rfl
  rw [s.after, hcore]
  rw [s.before] at h
  have hgo := s.go
  generalize hk : m.shared.core = now at h
  generalize hs : f.calm :: below.map Frame.calm = stack at h
  -- the stack is that of the start, so its innermost activation is the one that makes the step
  cases h with
  | @asks p hp =>
    obtain ⟨hf, hbelow⟩ := List.cons.inj hs
    obtain rfl := steady_calm rfl hf
    obtain rfl := List.map_eq_nil_iff.1 hbelow
    subst hk
    cases hgo with
    | take h =>
      cases h with
      | start | startParking => exact .inl (.asks rfl)
    | startReady => exact .inl (.asks rfl)
    | startRefused h => exact .inr (.inl ⟨rfl, rfl, h, rfl⟩)
    | started h => exact .inl (.marks h)
    | _ => cases hp
  | marks h =>
    obtain ⟨hf, hbelow⟩ := List.cons.inj hs
    obtain rfl := steady_calm rfl hf
    obtain rfl := List.map_eq_nil_iff.1 hbelow
    cases hgo with
    | take h => cases h
    | mark =>
      have hmarked : ({ m.shared with spawned := m.shared.size } : Shared).core =
          { k with stage := .running, spawned := size } := by
        rw [← hsize]
        exact congrArg (fun k : Core => { k with spawned := m.shared.size }) hk
      exact .inl (hmarked ▸ .revives h)
  | revives h =>
    obtain ⟨hf, hbelow⟩ := List.cons.inj hs
    obtain rfl := eq_of_calm hf rfl
    obtain ⟨g, rest, rfl, hg, hrest⟩ := List.map_eq_cons_iff.1 hbelow
    obtain rfl := steady_calm rfl hg
    obtain rfl := List.map_eq_nil_iff.1 hrest
    cases hgo with
    | take hl =>
      cases hl
      exact .inl (hk ▸ .revives h)
    | revived =>
      have hrevived : m.shared.core.revive = k.launch size := by rw [hk, Core.launch]
      have hgoes : Doomed size k [.start .release] m.shared.core.revive := hrevived ▸ .releases h
      exact .inl hgoes
  | releases h =>
    obtain ⟨hf, hbelow⟩ := List.cons.inj hs
    obtain rfl := steady_calm rfl hf
    obtain rfl := List.map_eq_nil_iff.1 hbelow
    cases hgo with
    | take h => cases h
    | startRelease => exact .inl (hk ▸ .spawns h)
  | spawns h =>
    obtain ⟨hf, hbelow⟩ := List.cons.inj hs
    obtain rfl := steady_calm rfl hf
    have hbad := unusable_name (hstem ▸ name) 0
    have hroom : ¬ m.shared.size ≤ 0 := by omega
    simp only [Frame.step, stepStart, hroom, hbad, if_true, if_false] at he
    cases he
    exact .inr (.inr ⟨rfl, h, hk⟩)

/-- what such a start comes to -/
def Crashes (size : Nat) (t : ThreadId) (u : Finished) : Prop :=
  if u.before.shared.stage = .stopped then u.after.panicked t ∧ u.after.shared.core = u.before.shared.core.launch size
  else u.after.outcome t = some (.started (.error (.notStopped u.before.shared.stage))) ∧
    u.after.shared.core = u.before.shared.core

/-- every start of a session comes to that -/
theorem session_crashes {a : Machine} {done : List Finished} {doing : Option Pending} (h : a.Conduct size stem t)
    (name : stem.contains '\x00') (workers : 0 < size) (s : Session t a done doing m) :
    (∀ u ∈ done, u.control = .start → Crashes size t u) ∧
      ∀ u, doing = some u → u.control = .start → Doomed size u.before.shared.core (m.stackOf t) m.shared.core := by
  induction s with
  | rest => exact ⟨fun u hu => absurd hu List.not_mem_nil, fun u hu => by cases hu⟩
  | others s hmove hmv hr ih =>
    obtain ⟨-, hstack, hcore⟩ := conduct_others (h.session s).1 hmove hmv hr
    refine ⟨ih.1, fun u hu hstart => ?_⟩
    rw [hstack, hcore]
    exact ih.2 u hu hstart
  | call s hmove ih =>
    obtain ⟨-, hstack, hshared⟩ := conduct_call (h.session s).1 hmove
    refine ⟨ih.1, ?_⟩
    rintro u ⟨⟩ rfl
    rw [hstack, hshared]
    exact .asks rfl
  | @step done u a b ch s hmove hbusy ih =>
    have hc := (h.session s).1
    obtain ⟨th, f, below, e, hs, he, -⟩ := hc.orderly.sound.stepped hmove
    refine ⟨ih.1, ?_⟩
    rintro v ⟨⟩ hstart
    rcases doomed_own hc name workers hs he (ih.2 u rfl hstart) with hgoes | ⟨rfl, hown, -⟩ | ⟨hown, -⟩
    · exact hgoes
    all_goals
      have hidle : b.isIdle t := isIdle_iff.2 (by rw [hs.after, hown]; rfl)
      rw [hidle] at hbusy
      cases hbusy
  | @ret done u a b ch s hmove hidle ih =>
    have hc := (h.session s).1
    obtain ⟨th, f, below, e, hs, he, hb, -⟩ := hc.orderly.sound.stepped hmove
    refine ⟨fun v hv hstart => ?_, fun v hv => by cases hv⟩
    rcases List.mem_append.1 hv with hv | hv
    · exact ih.1 v hv hstart
    · rw [List.mem_singleton.1 hv] at hstart ⊢
      rcases doomed_own hc name workers hs he (ih.2 u rfl hstart) with hgoes | ⟨rfl, hown, hopen, hcore⟩ | ⟨hown, hstop, hcore⟩
      · -- a start that goes on has activations
        rw [isIdle_iff.1 hidle] at hgoes
        cases hgoes
      · exact (if_neg hopen).mpr ⟨hs.returned hb (hc.outside hs) hown, hcore⟩
      · exact (if_pos hstop).mpr ⟨hs.panicked hb (hc.outside hs) hown, hcore⟩

end

/-! ## The result -/

/-- a pool that is as if it had never been started -/
structure Vacant (m : Machine) : Prop where
  stage : m.shared.stage = .stopped
  handles : m.shared.handles = []
  spawned : m.shared.spawned = 0
  /-- the dispatcher was stopped again -/
  halted : m.shared.dispatcher.stopped = true
  workers : ∀ th ∈ m.threads, ¬ th.works

/-- a pool that counts as running, without a single worker -/
structure Stranded (m : Machine) : Prop where
  stage : m.shared.stage = .running
  handles : m.shared.handles = []
  /-- a pause will wait for workers that there are not -/
  spawned : m.shared.spawned = m.shared.size
  /-- the dispatcher was restarted -/
  going : m.shared.dispatcher.stopped = false
  workers : ∀ th ∈ m.threads, ¬ th.works

/-- where there are no handles and nobody closes the pool, no worker is active -/
theorem Orderly.workless {m : Machine} (h : m.Orderly) (handles : m.shared.handles = []) (open_ : m.shared.stage ≠ .closing) :
    ∀ th ∈ m.threads, ¬ th.works := by
  intro th hth hworks
  obtain ⟨i, hi⟩ := List.getElem?_of_mem hth
  rcases h.custody.enrolled i (h.sound.formed.works hi hworks) with hin | ⟨j, rest, hj, -⟩
  · rw [handles] at hin
    cases hin
  · exact open_ (h.closer.closing hj rfl)

/-- a start that the system refused leaves nothing behind -/
theorem vacant_of_refused {m m' : Machine} {size : Nat} {cause : Host.OsError} {v : Value} (hm : m'.Orderly)
    (h : Control.start.Comes size m.shared.core (some cause) v m'.shared.core) : m'.Vacant := by
  obtain ⟨hstage, hhalted⟩ := h.failed rfl
  have hspawned := h.rested.spawned
  rw [if_pos hstage] at hspawned
  obtain ⟨hhandles, -⟩ := hm.stopped hstage
  exact ⟨hstage, hhandles, hspawned, hhalted, hm.workless hhandles (by rw [show m'.shared.stage = _ from hstage]; nofun)⟩

/-- a start that panicked leaves a pool that runs without workers -/
theorem stranded_of_launched {m m' : Machine} {size : Nat} {stem : String} {t : ThreadId} (hm : m.Orderly)
    (hc : m'.Conduct size stem t) (stopped : m.shared.stage = .stopped)
    (h : m'.shared.core = m.shared.core.launch size) : m'.Stranded := by
  have hstage : m'.shared.stage = .running := congrArg Core.stage h
  have hhandles : m'.shared.handles = [] := (congrArg Core.handles h).trans (hm.stopped stopped).1
  have hspawned : m'.shared.spawned = size := congrArg Core.spawned h
  exact ⟨hstage, hhandles, hspawned.trans hc.settings.1.symm, congrArg Core.halted h,
    hc.orderly.workless hhandles (by rw [hstage]; nofun)⟩

/-- **What a start that fails leaves behind.** A thread starts a stopped pool, whatever has happened to it before, while
nobody else commands it. The start succeeds exactly if the names of the workers can be used and the system refuses none of
them. After a refusal, of whichever worker, the start says so, the pool is as if it had never been started, and the next
start succeeds if nothing is refused then. Where the names cannot be used the start panics and leaves the pool running
without a single worker, and the next start is refused. -/
theorem failed_start {a m : Machine} {t : ThreadId} {size : Nat} {stem : String} {dispatches : Bool}
    {hist : List (Stage × Change)} {u : Finished} {later : List Finished} {doing : Option Pending} (workers : 0 < size)
    (r : Run (·.kept) (fresh size stem dispatches) hist a) (ruled : a.ruledBy t) (idle : a.isIdle t)
    (stopped : a.shared.stage = .stopped) (s : Session t a (u :: later) doing m) (start : u.control = .start) :
    (u.after.outcome t = some (.started (.ok ())) ↔ stem.contains '\x00' = false ∧ u.refusal = none) ∧
      (stem.contains '\x00' = false → ∀ cause, u.refusal = some cause →
        u.after.outcome t = some (.started (.error (.spawn cause))) ∧ u.after.Vacant ∧
          ∀ v rest, later = v :: rest → v.control = .start → v.refusal = none →
            v.after.outcome t = some (.started (.ok ()))) ∧
      (stem.contains '\x00' = true → u.after.panicked t ∧ u.after.Stranded ∧
        ∀ v rest, later = v :: rest → v.control = .start →
          v.after.outcome t = some (.started (.error (.notStopped .running))) ∧ v.after.Stranded) := by
  obtain ⟨hc, hforgotten⟩ := conduct_run r ruled idle
  have hrested := hc.rested hforgotten idle stopped
  obtain ⟨-, ⟨hfirst, hnext⟩, hconduct⟩ := hc.session s
  have hu : u ∈ u :: later := .head _
  have hstage : u.before.shared.stage = .stopped := (congrArg Core.stage hfirst).trans stopped
  cases hname : stem.contains '\x00' with
  | false =>
    have hcomes := ((hc.course hrested).session hname s).chain.comes
    obtain ⟨v, hv, hcome⟩ := hcomes u hu
    rw [start] at hcome
    have houtcome := start_outcome hcome
    refine ⟨?_, fun _ cause hcause => ?_, fun hbad => absurd hbad Bool.false_ne_true⟩
    · simpa [hv, Shared.core, hstage] using houtcome.1
    · rw [hcause] at hcome
      refine ⟨?_, vacant_of_refused (hconduct u hu).orderly hcome, ?_⟩
      · rw [hv, hcome.answer]
        simp [Control.answer, Shared.core, hstage]
      · rintro w rest rfl hstart hrefusal
        obtain ⟨v', hv', hcome'⟩ := hcomes w (.tail _ (.head _))
        rw [hstart, hrefusal] at hcome'
        have hagain : w.before.shared.core.stage = .stopped := by
          rw [hnext.1]
          exact (hcome.failed rfl).1
        rw [hv', hcome'.answer]
        simp [Control.answer, hagain]
  | true =>
    obtain ⟨hcrashes, -⟩ := session_crashes hc hname workers s
    have hcrash := hcrashes u hu start
    rw [Crashes, if_pos hstage] at hcrash
    obtain ⟨hpanicked, hlaunched⟩ := hcrash
    have hbefore : a.shared.core = u.before.shared.core := hfirst.symm
    have hstranded := stranded_of_launched hc.orderly (hconduct u hu) stopped (by rw [hlaunched, hbefore])
    refine ⟨by simp [panicked_outcome hpanicked], fun hgood => absurd hgood.symm Bool.false_ne_true,
      fun _ => ⟨hpanicked, hstranded, ?_⟩⟩
    rintro w rest rfl hstart
    have hw : w ∈ u :: w :: rest := .tail _ (.head _)
    have hrefused := hcrashes w hw hstart
    have hrunning : w.before.shared.stage = .running := (congrArg Core.stage hnext.1).trans hstranded.stage
    rw [Crashes, hrunning, if_neg (by decide)] at hrefused
    refine ⟨hrefused.1, stranded_of_launched hc.orderly (hconduct w hw) stopped ?_⟩
    rw [hrefused.2, hnext.1, hlaunched, hbefore]

/-- a pool is started and stopped by one thread -/
def stoppedBefore : List Move :=
  [Move.enter, .enter, .call 1 .start] ++ steps 1 10 ++ steps 2 3 ++ [Move.call 1 .stop] ++ steps 1 17 ++ steps 2 6 ++
    steps 1 6

/-- another thread starts it, which the system refuses, and starts it again -/
def startedTwice : List Beat :=
  let own (n : Nat) : List Beat := List.replicate n (.step {})
  [.call .start] ++ own 8 ++ [.step { refuse := some .again }] ++ own 24 ++ [.call .start] ++ own 10

theorem failed_start_twice : ∃ hist a u v m, Run (·.kept) (fresh 1 "w" true) hist a ∧
    hist = [(.stopped, .start), (.running, .shutdown), (.closing, .settle)] ∧ Session 0 a [u, v] none m ∧
    u.after.outcome 0 = some (.started (.error (.spawn .again))) ∧ u.after.Vacant ∧
    v.after.outcome 0 = some (.started (.ok ())) := by
  have hf : ((fresh 1 "w" true).follow kept [] stoppedBefore).bind (fun p =>
      (startedTwice.foldlM (Beat.play 0) (([] : List Finished), (none : Option Pending), p.2)).map fun q =>
        (p.1, p.2.ruledBy 0, p.2.isIdle 0, p.2.shared.stage, q.1.map fun u => (u.control, u.refusal), q.2.1.isNone)) =
      some ([(.stopped, .start), (.running, .shutdown), (.closing, .settle)], true, true, .stopped,
        [(.start, some .again), (.start, none)], true) := by cbv
  obtain ⟨⟨hist, a⟩, hf, hp⟩ := Option.bind_eq_some_iff.1 hf
  obtain ⟨⟨done, doing, m⟩, hplay, hq⟩ := Option.map_eq_some_iff.1 hp
  simp only [Prod.mk.injEq] at hq
  obtain ⟨hhist, hruled, hidle, hstage, hdone, hdoing⟩ := hq
  obtain rfl : doing = none := Option.isNone_iff_eq_none.1 hdoing
  obtain ⟨u, rest, rfl, hu, hrest⟩ := List.map_eq_cons_iff.1 hdone
  obtain ⟨v, rest, rfl, hv, hnil⟩ := List.map_eq_cons_iff.1 hrest
  obtain rfl := List.map_eq_nil_iff.1 hnil
  obtain ⟨hustart, hurefusal⟩ := Prod.mk.inj hu
  obtain ⟨hvstart, hvrefusal⟩ := Prod.mk.inj hv
  have r := run_follow .rest hf
  have s : Session 0 a [u, v] none m := session_play .rest hplay
  obtain ⟨-, hrefused, -⟩ := failed_start Nat.one_pos r hruled hidle hstage s hustart
  obtain ⟨hout, hvacant, hagain⟩ := hrefused (by simp) .again hurefusal
  exact ⟨hist, a, u, v, m, r, hhist, s, hout, hvacant, hagain v [] rfl hvstart hvrefusal⟩

/-- settings with a name that no thread can have -/
def unusable : String := "\x7b\"thread-pool-size\": 2, \"defer-start\": true, \"thread-name\": \"a\\u0000b\"\x7d"

/-- a pool with these settings is started, and started again -/
def unwound : List Beat :=
  let own (n : Nat) : List Beat := List.replicate n (.step {})
  [.other .enter, .call .start] ++ own 9 ++ [.call .start] ++ own 3

/-- the first start panics; the pool counts as running, and the second start is refused -/
theorem start_unwound : ∃ settings u v m, PoolSettings.ofJson unusable = .ok settings ∧
    Session 0 (fresh settings.size settings.stem true) [u, v] none m ∧
    u.control = .start ∧ u.before.shared.stage = .stopped ∧ u.after.outcome 0 ≠ some (.started (.ok ())) ∧
    u.after.shared.stage ≠ .stopped ∧ v.control = .start ∧ v.refusal = none ∧
    v.after.outcome 0 ≠ some (.started (.ok ())) := by
  have hsettings : PoolSettings.ofJson unusable = .ok ⟨2, true, some "a\x00b"⟩ := by decide +kernel
  have hf : (unwound.foldlM (Beat.play 0) (([] : List Finished), (none : Option Pending), fresh 2 "a\x00b" true)).map
      (fun p => (p.2.1.isNone, p.1.map fun u =>
        (u.control, u.refusal, u.before.shared.stage, u.after.shared.stage, u.after.outcome 0))) =
      some (true, [(.start, none, .stopped, .running, none),
        (.start, none, .running, .running, some (.started (.error (.notStopped .running))))]) := by cbv
  obtain ⟨⟨done, doing, m⟩, hplay, hq⟩ := Option.map_eq_some_iff.1 hf
  obtain ⟨hdoing, hdone⟩ := Prod.mk.inj hq
  obtain rfl : doing = none := Option.isNone_iff_eq_none.1 hdoing
  obtain ⟨u, rest, rfl, hu, hrest⟩ := List.map_eq_cons_iff.1 hdone
  obtain ⟨v, rest, rfl, hv, hnil⟩ := List.map_eq_cons_iff.1 hrest
  obtain rfl := List.map_eq_nil_iff.1 hnil
  simp only [Prod.mk.injEq] at hu hv
  obtain ⟨hustart, -, hubefore, huafter, huout⟩ := hu
  obtain ⟨hvstart, hvrefusal, -, -, hvout⟩ := hv
  refine ⟨_, u, v, m, hsettings, session_play .rest hplay, hustart, hubefore, ?_, ?_, hvstart, hvrefusal, ?_⟩
  · rw [huout]
    simp
  · rw [huafter]
    simp
  · rw [hvout]
    simp

end Machine

end SecureEndpoint.Workers
