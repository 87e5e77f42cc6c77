/-
A pool that nobody uses any more.

Once the last handle of a pool is gone nobody can call it: whatever its workers and the other threads go on with, they only
drive the dispatcher, run jobs that know nothing of the pool, and end (`Machine.abandoned`). If nobody restarts the dispatcher
either, nothing about the pool changes any more.
- `abandoned_move`: the stage and the handles stay as they are, a stopped dispatcher stays stopped, and no worker is created.
- `errands_move`: where the pool is in its last stage and its dispatcher is stopped, every step of a worker brings it nearer to
  its end, whether it is parked, looks for a job or is inside of one, and nothing that others do brings it away from there.
- `Over`, `Fading`: what a pool is like for good after its workers were joined, and after they were let go.
-/
import SecureEndpoint.Proofs.Workers.Returning

namespace SecureEndpoint.Workers

open Work (Action)

namespace Kind

/-- a call on the pool, or something that only such a call does: it needs a handle of the pool -/
def needsPool : Kind → Bool
  | .start | .pause | .resume | .shutdown | .stop | .waitPaused | .drop => true
  | _ => false

/-- neither uses the pool nor restarts its dispatcher -/
def stands (k : Kind) : Bool := !k.needsPool && k ≠ .revive

end Kind

/-- a later part of what the threads share: the stage and the handles are the same, and the dispatcher is not restarted -/
structure Shared.Keeps (s s' : Shared) : Prop where
  stage : s'.stage = s.stage
  handles : s'.handles = s.handles
  halted : s.dispatcher.stopped = true → s'.dispatcher.stopped = true

theorem Shared.Keeps.refl (s : Shared) : s.Keeps s := ⟨rfl, rfl, id⟩

theorem Shared.Keeps.trans {s s' s'' : Shared} (h : s.Keeps s') (h' : s'.Keeps s'') : s.Keeps s'' :=
  ⟨h'.stage.trans h.stage, h'.handles.trans h.handles, h'.halted ∘ h.halted⟩

namespace Machine

/-! ## Who may do what -/

/-- every activation is of a kind that its thread may be in -/
def everyone (may : ThreadId → Kind → Bool) (m : Machine) : Bool :=
  (List.range m.threads.length).all fun i => (m.stackOf i).all fun f => may i f.kind

theorem everyone_iff {may : ThreadId → Kind → Bool} {m : Machine} :
    m.everyone may ↔ ∀ i, ∀ f ∈ m.stackOf i, may i f.kind := by
  simp only [everyone, List.all_eq_true, List.mem_range]
  constructor
  · intro h i f hf
    refine h i ?_ f hf
    by_contra hlen
    rw [stackOf, List.getElem?_eq_none (by rw [roster_length]; exact Nat.not_lt.1 hlen)] at hf
    cases hf
  · exact fun h i _ => h i

/-- nobody uses the pool, and nobody restarts its dispatcher -/
def abandoned (m : Machine) : Bool := m.everyone fun _ k => k.stands

/-- thread `t` is giving up the pool; nobody else uses it, and nobody restarts its dispatcher -/
def leftBy (t : ThreadId) (m : Machine) : Bool :=
  m.everyone (fun i k => k ≠ .revive && (i == t || !k.needsPool)) && (m.stackOf t).any fun f => f.kind = .drop

theorem abandoned_iff {m : Machine} : m.abandoned ↔ ∀ i, ∀ f ∈ m.stackOf i, f.kind.stands := everyone_iff

theorem leftBy_iff {t : ThreadId} {m : Machine} : m.leftBy t ↔ (∀ i, ∀ f ∈ m.stackOf i, f.kind ≠ .revive) ∧
    (∀ i, i ≠ t → ∀ f ∈ m.stackOf i, f.kind.stands) ∧ ∃ f ∈ m.stackOf t, f.kind = .drop := by
  rw [leftBy, Bool.and_eq_true, everyone_iff]
  constructor
  · rintro ⟨hall, hdrop⟩
    refine ⟨fun i f hf => ?_, fun i hi f hf => ?_, by simpa using hdrop⟩
    · simpa using (Bool.and_eq_true_iff.1 (hall i f hf)).1
    · have := hall i f hf
      simp [hi] at this
      simp [Kind.stands, this]
  · rintro ⟨hrevive, helse, hdrop⟩
    refine ⟨fun i f hf => ?_, by simpa using hdrop⟩
    by_cases hi : i = t
    · simp [hi, hrevive i f hf]
    · have := helse i hi f hf
      simp only [Kind.stands, Bool.and_eq_true] at this
      simp [hrevive i f hf, this.1]

section

variable {m m' : Machine} {t i : ThreadId} {th : Thread} {f : Frame} {below : List Frame} {e : Effect}

/-- whoever neither uses the pool nor restarts its dispatcher keeps both as they are, and creates nobody -/
theorem StepOf.keeps (s : m.StepOf m' t th f below e) (hf : f.kind.stands) : m.shared.Keeps m'.shared ∧ e.spawn = none := by
  have hw := s.writes
  have hstage : f.stageAfter m.shared = m.shared.stage := by
    cases f <;> first | rfl | cases hf
  have hhandles : f.handlesAfter m e.spawn.isSome = m.shared.handles := by
    cases f <;> first | rfl | cases hf
  refine ⟨⟨hw.stage.trans hstage, hw.handles.trans hhandles, fun h => ?_⟩, ?_⟩
  · rw [hw.halted]
    unfold Frame.haltedAfter
    split
    · rfl
    · cases hf
    · exact h
  · cases hsp : e.spawn with
    | none => rfl
    | some k =>
      obtain ⟨rfl, -⟩ := s.go.spawned hsp
      cases hf

/-- a worker that is active after a move was active before, or was created by a start -/
theorem active_move {w : Option (Stage × Change)} (mv : m.Moved m' w) (h : m'.ActiveWorker i) :
    m.ActiveWorker i ∨ ∃ t k, .start (.spawn k) ∈ m.stackOf t := by
  cases mv with
  | @step t th f below e s =>
    rcases active_step s h with ⟨k, hsp, -⟩ | hold
    · obtain ⟨rfl, -⟩ := s.go.spawned hsp
      exact .inr ⟨t, k, s.mem⟩
    · exact .inl hold
  | still gates hsh hr =>
    rw [ActiveWorker, hr] at h
    exact .inl h
  | @call t th c ht hw hs hsh hr =>
    obtain ⟨u, hu, hworker, hne⟩ := h
    rw [hr, List.getElem?_set] at hu
    split at hu
    · split at hu <;> cases hu
      cases hworker
    · exact .inl ⟨u, hu, hworker, hne⟩
  | enter hsh hr =>
    obtain ⟨u, hu, hworker, hne⟩ := h
    rw [hr] at hu
    rcases Nat.lt_or_ge i m.roster.length with hlt | hge
    · rw [List.getElem?_append_left hlt] at hu
      exact .inl ⟨u, hu, hworker, hne⟩
    · rw [List.getElem?_append_right hge, List.getElem?_singleton] at hu
      split at hu <;> cases hu
      cases hworker

/-- **Nothing about an abandoned pool changes.** -/
theorem abandoned_move {w : Option (Stage × Change)} (h : m.abandoned) (mv : m.Moved m' w) :
    m.shared.Keeps m'.shared ∧ ∀ i, m'.ActiveWorker i → m.ActiveWorker i := by
  refine ⟨?_, fun i hi => (active_move mv hi).resolve_right ?_⟩
  · cases mv with
    | @step t th f below e s =>
      have hf := abandoned_iff.1 h t f.calm s.mem
      rw [kind_calm] at hf
      exact (s.keeps hf).1
    | still gates hsh hr => rw [hsh]; exact ⟨rfl, rfl, id⟩
    | call c ht hw hs hsh hr => rw [hsh]; exact .refl _
    | enter hsh hr => rw [hsh]; exact .refl _
  · rintro ⟨j, k, hk⟩
    cases abandoned_iff.1 h j _ hk

end

end Machine

/-! ## How far a worker has to go -/

/-- the steps that an activation has ahead, at most, where nobody uses the pool, which is in its last stage, and the
dispatcher is stopped -/
def Frame.errand : Frame → Nat
  | .worker _ p => match p with
    | .parkCount => 9
    | .parkTell => 8
    | .parkSleep => 7
    | .enter | .asleep _ | .parkWant => 6
    | .entered | .unpark | .parkCheck => 5
    | .observe => 4
    | .leaveWant => 3
    | .leaving => 2
    | .leaveTell => 1
  | .drive _ _ p => match p with
    | .inJob => 3
    | .want | .asleep _ => 2
    | .look => 1
  | .job _ due rest => 6 * rest.length + if due.isSome then 2 else 1
  | .post _ p => match p with
    | .want => 3
    | .push => 2
    | .tell => 1
  | .ask _ p => match p with
    | .want => 2
    | .locked => 1
  | .halt p => match p with
    | .want => 3
    | .locked => 2
    | .tell => 1
  | .meet _ p => match p with
    | .arriving => 3
    | .waiting => 2
    | .released => 1
  | .hold _ => 1
  | _ => 0

/-- the same for the stack of a thread -/
def errands (stack : List Frame) : Nat := (stack.map Frame.errand).sum

theorem errand_receive (f : Frame) (v : Value) : (f.receive v).errand = f.errand := by
  unfold Frame.receive
  split <;> rfl

theorem errand_wake (w : Wake) (f : Frame) : (f.wake w).errand ≤ f.errand := by
  unfold Frame.wake
  split <;> try exact Nat.le_refl _
  split
  · exact Nat.le_succ _
  · exact Nat.le_refl _

theorem errand_stirs {f g : Frame} (h : f.Stirs g) : g.errand = f.errand := by
  rcases h with h | h
  · unfold Frame.wakeAnyway? at h
    split at h <;> cases h <;> rfl
  · unfold Frame.expire? at h
    split at h <;> cases h <;> rfl

/-- whatever a job calls is short -/
theorem Frame.Begins.errand {f : Frame} (h : f.Begins) : f.errand ≤ 3 := by
  cases h with
  | call c => cases c <;> simp [Call.frame, Frame.errand]
  | meet => simp [Frame.errand]
  | hold => simp [Frame.errand]

theorem errand_job (id : String) (due : Option (String × Option Value)) (rest : List (Action PoolAction)) :
    (Frame.job id due rest).errand ≤ 6 * rest.length + 2 := by
  cases due
  · exact Nat.le_succ _
  · exact Nat.le_refl _

/-- **Each step brings a thread nearer to its end** where the pool is in its last stage and the dispatcher is stopped. -/
theorem Transition.errand {m : Machine} {t : ThreadId} {f : Frame} {e : Effect} (h : Transition m t f e)
    (hf : f.kind.stands) (closing : m.shared.stage = .closing) (halted : m.shared.dispatcher.stopped = true)
    (dispatches : m.shared.dispatches = true) : match e.own with
      | .become g => g.errand < f.errand
      | .call g callee => callee.errand + g.errand < f.errand
      | .ret _ | .unwind => 0 < f.errand := by
  cases h with
  | take h => cases h <;> first | (cases hf; done) | exact Nat.lt_succ_self _
  | whim waits other => cases dispatches.symm.trans other
  | run h | seePaused h | seeStopped h | parkCheck h => cases closing.symm.trans h
  | lookTake h | lookSleep h | lookEmpty h => cases halted.symm.trans h
  | ranMore => exact Nat.lt_succ_self _
  | @jobCall id a rest due callee hc =>
    have hcallee := hc.errand
    have hjob := errand_job id due rest
    change callee.errand + (Frame.job id due rest).errand < 6 * (rest.length + 1) + 1
    omega
  | @jobKnown id a rest due =>
    have hjob := errand_job id due rest
    change (Frame.job id due rest).errand < 6 * (rest.length + 1) + 1
    omega
  | _ => first
    | (cases hf; done)
    | simp [Shared.goto, Shared.ret, Frame.errand]

theorem errands_own {m : Machine} {t : ThreadId} {f : Frame} {e : Effect} (h : Transition m t f e) (hf : f.kind.stands)
    (closing : m.shared.stage = .closing) (halted : m.shared.dispatcher.stopped = true)
    (dispatches : m.shared.dispatches = true) (below : List Frame) :
    errands (e.own.stack below) < errands (f :: below) := by
  have hless := h.errand hf closing halted dispatches
  cases how : e.own with
  | become g =>
    rw [how] at hless
    exact Nat.add_lt_add_right hless _
  | call g callee =>
    rw [how] at hless
    change callee.errand + g.errand < f.errand at hless
    simp only [Own.stack, errands, List.map_cons, List.sum_cons]
    omega
  | ret v =>
    rw [how] at hless
    change 0 < f.errand at hless
    cases below with
    | nil => exact Nat.lt_of_lt_of_le hless (Nat.le_add_right _ _)
    | cons g rest =>
      simp only [Own.stack, errands, List.map_cons, List.sum_cons, errand_receive]
      omega
  | unwind =>
    rw [how] at hless
    exact Nat.lt_of_lt_of_le hless (Nat.le_add_right _ _)

theorem errands_wake (w : Wake) (th : Thread) : errands (th.wake w).stack ≤ errands th.stack := by
  rw [Thread.wake]
  split
  · rename_i f rest hs
    rw [hs]
    exact Nat.add_le_add_right (errand_wake w f) _
  · exact Nat.le_refl _

namespace Machine

section

variable {m m' : Machine} {i : ThreadId} {th : Thread}

/-- the activations of a thread of an abandoned pool -/
theorem abandoned_stack (h : m.abandoned) (ht : m.threads[i]? = some th) : ∀ f ∈ th.stack, f.kind.stands := by
  intro f hf
  rw [← kind_calm]
  refine abandoned_iff.1 h i f.calm ?_
  simp only [stackOf, roster, List.getElem?_map, ht, Option.map_some, Option.getD_some]
  exact List.mem_map_of_mem hf

/-- after a move thread `i` is as near to its end as `th` was, and nearer if the move was its own -/
def Onward (m' : Machine) (mv : Move) (i : ThreadId) (th : Thread) : Prop :=
  ∃ th', m'.threads[i]? = some th' ∧ errands th'.stack ≤ errands th.stack ∧
    ∀ ch, mv = .step i ch → errands th'.stack < errands th.stack

theorem onward_same {mv : Move} (h : m'.threads[i]? = some th) (hmv : ∀ ch, mv ≠ .step i ch) : m'.Onward mv i th :=
  ⟨th, h, Nat.le_refl _, fun ch hs => absurd hs (hmv ch)⟩

/-- somebody who stirs without cause goes the same way from there -/
theorem onward_stir {mv : Move} {j : ThreadId} {change : Frame → Option Frame} (ht : m.threads[i]? = some th)
    (stirs : ∀ f g, change f = some g → f.Stirs g) (h : m.changeTop? j change = some m') (hmv : ∀ ch, mv ≠ .step i ch) :
    m'.Onward mv i th := by
  obtain ⟨u, f, g, below, hu, hs, hg, rfl⟩ := changeTop_eq h
  by_cases hji : j = i
  · subst hji
    obtain rfl : u = th := Option.some.inj (hu.symm.trans ht)
    have hlen : j < m.threads.length := (List.getElem?_eq_some_iff.1 ht).1
    refine ⟨{ u with stack := g :: below }, by simp [hlen], ?_, fun ch hs => absurd hs (hmv ch)⟩
    rw [hs, errands, errands, List.map_cons, List.map_cons, errand_stirs (stirs f g hg)]
  · exact onward_same (by simp [hji, ht]) hmv

/-- a step brings its own thread nearer, and the wake-up that it gives brings nobody away -/
theorem onward_step {j : ThreadId} {ch : Choice} (hm : m.Sound) (left : m.abandoned) (closing : m.shared.stage = .closing)
    (halted : m.shared.dispatcher.stopped = true) (dispatches : m.shared.dispatches = true)
    (h : m.move (.step j ch) = some m') (ht : m.threads[i]? = some th) : m'.Onward (.step j ch) i th := by
  have hlen : i < m.threads.length := (List.getElem?_eq_some_iff.1 ht).1
  obtain ⟨u, f, below, e, s, -, rfl, -⟩ := hm.stepped h
  -- what becomes of the thread before the wake-up
  obtain ⟨v, hv, hle, hlt⟩ : ∃ v, (m.threads.set j (u.after e.own below))[i]? = some v ∧
      errands v.stack ≤ errands th.stack ∧ (j = i → errands v.stack < errands th.stack) := by
    by_cases hji : j = i
    · subst hji
      obtain rfl : u = th := Option.some.inj (s.thread.symm.trans ht)
      have hf := abandoned_stack left ht f (by rw [s.top]; exact .head _)
      have hless := errands_own s.go hf closing halted dispatches below
      rw [← after_stack u, ← s.top] at hless
      exact ⟨u.after e.own below, by simp [hlen], Nat.le_of_lt hless, fun _ => hless⟩
    · exact ⟨th, by simp [hji, ht], Nat.le_refl _, fun h => absurd h hji⟩
  have hcalm := congrArg List.length (wakeThreads_calm e.wake (m.threads.set j (u.after e.own below)))
  simp only [List.length_map, List.length_set] at hcalm
  rw [Onward, apply, List.getElem?_append_left (hcalm ▸ hlen)]
  have hmine : ∀ c, Move.step j ch = .step i c → j = i := fun c hs => (Move.step.inj hs).1
  rcases wakeThreads_getElem? e.wake (m.threads.set j (u.after e.own below)) i with hw | hw
  · exact ⟨v, by rw [hw, hv], hle, fun c hs => hlt (hmine c hs)⟩
  · refine ⟨v.wake e.wake, by rw [hw, hv]; rfl, Nat.le_trans (errands_wake _ v) hle, fun c hs => ?_⟩
    exact Nat.lt_of_le_of_lt (errands_wake _ v) (hlt (hmine c hs))

/-- **Nobody is brought away from the end.** -/
theorem errands_move {mv : Move} (hm : m.Sound) (left : m.abandoned) (closing : m.shared.stage = .closing)
    (halted : m.shared.dispatcher.stopped = true) (dispatches : m.shared.dispatches = true) (h : m.move mv = some m')
    (ht : m.threads[i]? = some th) (hw : th.worker.isSome) : m'.Onward mv i th := by
  have hlen : i < m.threads.length := (List.getElem?_eq_some_iff.1 ht).1
  cases mv with
  | step j ch => exact onward_step hm left closing halted dispatches h ht
  | wake j => exact onward_stir ht (fun _ _ => .inl) h nofun
  | expire j => exact onward_stir ht (fun _ _ => .inr) h nofun
  | call j c =>
    obtain ⟨u, hu, hnone, -, rfl⟩ := called h
    have hji : j ≠ i := by
      rintro rfl
      obtain rfl : u = th := Option.some.inj (hu.symm.trans ht)
      rw [hnone] at hw
      cases hw
    exact onward_same (by simp [hji, ht]) nofun
  | enter =>
    cases h
    exact onward_same (by rw [List.getElem?_append_left hlen, ht]) nofun
  | openGate g =>
    cases h
    exact onward_same ht nofun

end

/-! ## What a pool comes to -/

/-- the pool is stopped: nobody is to be joined, and all workers have ended -/
structure Over (m : Machine) : Prop where
  stage : m.shared.stage = .stopped
  handles : m.shared.handles = []
  workers : ∀ th ∈ m.threads, ¬ th.works

/-- the pool is in its last stage, nobody will join the workers, and they have nothing left to do but to end -/
structure Fading (m : Machine) : Prop where
  stage : m.shared.stage = .closing
  handles : m.shared.handles = []
  halted : m.shared.dispatcher.stopped = true
  /-- nobody has been left asleep in a pause -/
  awake : ∀ th ∈ m.threads, ¬ th.topIs Frame.dozes
  /-- whoever sleeps for a job is about to be told of the stop -/
  told : (∃ th ∈ m.threads, th.topIs Frame.isIdleRunner) → ∃ th ∈ m.threads, th.topIs Frame.summons
  /-- once the stop was told, each worker is inside a job, has ended, or can go on as soon as a lock is free -/
  ready : m.tops Frame.summons = 0 → m.Poised
  /-- each step of a worker brings it nearer to its end, and nothing brings it away from there -/
  onward : ∀ mv m', m.move mv = some m' → ∀ (i : ThreadId) (th : Thread), m.threads[i]? = some th → th.worker.isSome →
    m'.Onward mv i th

section

variable {m a : Machine} {hist : List (Stage × Change)}

/-- an abandoned pool after any run -/
structure Remains (m a : Machine) : Prop where
  sound : a.Sound
  abandoned : a.abandoned
  keeps : m.shared.Keeps a.shared
  active : ∀ i, a.ActiveWorker i → m.ActiveWorker i
  dispatches : a.shared.dispatches = true
  held : m.shared.dispatcher.stopped = true → m.Held a

theorem abandoned_run (hm : m.Sound) (left : m.abandoned) (dispatches : m.shared.dispatches = true)
    (r : m.Run (·.abandoned) hist a) : m.Remains a := by
  obtain ⟨hsound, habandoned, hkeeps, hactive, hd, hheld⟩ := r.keeps
    (I := fun a => a.abandoned ∧ m.shared.Keeps a.shared ∧ (∀ i, a.ActiveWorker i → m.ActiveWorker i) ∧
      a.shared.dispatches = true ∧ (m.shared.dispatcher.stopped = true → m.Held a)) hm
    ⟨left, .refl _, fun _ => id, dispatches, fun _ => held_rest m⟩
    fun {b c w} _ ⟨hleft, hkeeps, hactive, hd, hheld⟩ mv hc => by
      obtain ⟨hkeeps', hactive'⟩ := abandoned_move hleft mv
      exact ⟨hc, hkeeps.trans hkeeps', fun i hi => hactive i (hactive' i hi), (move_settings mv).2.trans hd, fun hs =>
        held_move hd (hkeeps.halted hs) (hheld hs) mv⟩
  exact ⟨hsound, habandoned, hkeeps, hactive, hd, hheld⟩

namespace Remains

variable (h : m.Remains a)

include h

theorem ended (stage : m.shared.stage = .stopped) (handles : m.shared.handles = []) (none : ∀ i, ¬ m.ActiveWorker i) :
    a.Over := by
  refine ⟨h.keeps.stage.trans stage, h.keeps.handles.trans handles, fun th hth hworks => ?_⟩
  obtain ⟨i, hi⟩ := List.getElem?_of_mem hth
  exact none i (h.active i (h.sound.formed.works hi hworks))

theorem fading (alert : a.Alert) (stage : m.shared.stage = .closing) (handles : m.shared.handles = [])
    (halted : m.shared.dispatcher.stopped = true) : a.Fading := by
  have hstage := h.keeps.stage.trans stage
  have hhalted := h.keeps.halted halted
  have hquiet : a.tally Frame.announces = 0 := by
    rw [tally, List.countP_eq_zero]
    intro f hf hannounces
    obtain ⟨i, hi⟩ := exists_mem_stackOf hf
    have hstands := abandoned_iff.1 h.abandoned i f hi
    cases f <;> first | (cases hstands; done) | cases hannounces
  have hawake : a.tops Frame.dozes = 0 := by
    by_contra hne
    rcases alert.parked (Nat.pos_of_ne_zero hne) with hpaused | hannounced
    · cases hstage.symm.trans hpaused
    · rw [hquiet] at hannounced
      cases hannounced
  have htold : 0 < a.tops Frame.isIdleRunner → 0 < a.tops Frame.summons := fun hidle =>
    (alert.idle hidle).resolve_left (by simp [hhalted])
  refine ⟨hstage, h.keeps.handles.trans handles, hhalted, tops_zero.1 hawake, ?_, fun hnone => ?_, ?_⟩
  · rw [← tops_pos, ← tops_pos]
    exact htold
  · refine h.sound.poised (by simp [hawake]) fun th hth _ hidle => ?_
    have hpos := htold (tops_pos.2 ⟨th, hth, hidle⟩)
    rw [hnone] at hpos
    cases hpos
  · exact fun mv m' hmove i th ht hw => errands_move h.sound h.abandoned hstage hhalted h.dispatches hmove ht hw

end Remains

end

end Machine

end SecureEndpoint.Workers
