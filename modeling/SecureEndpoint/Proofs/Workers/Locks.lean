/-
Who holds which lock.

`Frame.locks` lists the locks that an activation holds at its place. After every run a lock is owned by a thread exactly
when one activation of that thread holds it (`owned_move`), so no two activations hold the same lock (`Owned.alone`): what
is only touched under a lock does not change between two steps of its holder.
-/
import SecureEndpoint.Proofs.Workers.Nesting

namespace SecureEndpoint.Workers

/-- the locks that an activation holds at its place -/
def Frame.locks : Frame → List Lock
  | .worker _ p => match p with
    | .entered | .parkCheck | .parkCount | .parkTell | .parkSleep | .unpark | .leaving => [.parking]
    | .enter | .observe | .parkWant | .asleep _ | .leaveWant | .leaveTell => []
  | .drive _ _ .look | .post _ .push | .ask _ .locked | .halt .locked | .revive .locked => [.queue]
  | .start p => match p with
    | .wantParking | .spawn _ => [.handles]
    | .read | .swap .. | .mark | .release => [.handles, .parking]
    | .wantHandles | .undo _ | .failed _ => []
  | .pause .want | .resume .want | .shutdown .want => []
  | .pause _ | .resume _ | .shutdown _ => [.parking]
  | .stop p => match p with
    | .own | .collect => [.handles]
    | .settleRead | .settleSwap .. | .settled => [.parking]
    | .want | .shut | .shutDone _ | .join _ | .settleWant => []
  | .waitPaused _ _ .check | .waitPaused _ _ .compare => [.parking]
  | .drop .own | .drop .collect => [.handles]
  | _ => []

/-- the locks that are held after a step by what the activation became -/
def Own.locks (own : Own) : List Lock := own.frames.flatMap Frame.locks

@[simp] theorem locks_calm (f : Frame) : f.calm.locks = f.locks := by
  unfold Frame.calm
  split <;> first | rfl | (rename_i p _; cases p <;> rfl)

@[simp] theorem locks_receive (f : Frame) (v : Value) : (f.receive v).locks = f.locks := by
  unfold Frame.receive
  split <;> rfl

@[simp] theorem owner_setOwner (s : Shared) (l k : Lock) (o : Option ThreadId) :
    (s.setOwner k o).owner l = if l = k then o else s.owner l := by
  cases l <;> cases k <;> rfl

/-- a step takes a lock that is free and gives a lock back that it held; it leaves the others with their owners -/
structure LockStep (t : ThreadId) (s : Shared) (f : Frame) (e : Effect) : Prop where
  owner : ∀ l, e.shared.owner l = if l ∈ e.own.locks then if l ∈ f.locks then s.owner l else some t
    else if l ∈ f.locks then none else s.owner l
  free : ∀ l ∈ e.own.locks, l ∉ f.locks → s.owner l = none
  once : e.own.locks.Nodup

theorem locks_nodup (f : Frame) : f.locks.Nodup := by
  unfold Frame.locks
  split <;> (try split) <;> decide

namespace LockStep

variable {t : ThreadId} {s : Shared} {f : Frame} {e : Effect}

theorem take {l : Lock} {g : Frame} (hfree : s.owner l = none) (hl : g.locks = f.locks ++ [l]) :
    LockStep t s f ((s.setOwner l (some t)).goto g) := by
  have hnew : Own.locks (.become g) = g.locks := by simp [Own.locks, Own.frames]
  have hout : l ∉ f.locks := by
    have hn := hl ▸ locks_nodup g
    simpa using List.disjoint_of_nodup_append hn
  refine ⟨fun k => ?_, fun k hk hold => ?_, by simpa [Shared.goto, hnew] using locks_nodup g⟩
  · simp only [Shared.goto, hnew, hl, owner_setOwner, List.mem_append, List.mem_singleton]
    by_cases hk : k = l
    · simp [hk, hout]
    · simp only [hk, or_false, ite_false]
      split_ifs <;> rfl
  · simp only [Shared.goto, hnew, hl, List.mem_append, List.mem_singleton] at hk
    rcases hk with hk | rfl
    · exact absurd hk hold
    · exact hfree

/-- a step that takes no lock: it gives back exactly those that it does not hold any more -/
theorem give (hs : ∀ l, e.shared.owner l = if l ∈ f.locks ∧ l ∉ e.own.locks then none else s.owner l)
    (hl : ∃ gone, f.locks = e.own.locks ++ gone) : LockStep t s f e := by
  obtain ⟨gone, hl⟩ := hl
  have hn := hl ▸ locks_nodup f
  refine ⟨fun l => ?_, fun l hnew hold => absurd (by simp [hl, hnew]) hold, hn.of_append_left⟩
  rw [hs]
  have hsub : l ∈ e.own.locks → l ∈ f.locks := fun h => by simp [hl, h]
  by_cases h1 : l ∈ e.own.locks
  · simp [h1, hsub h1]
  · simp [h1]

end LockStep

theorem Frame.Begins.locks {f : Frame} (h : f.Begins) : f.locks = [] := by
  cases h with
  | call c => cases c <;> rfl
  | meet => rfl
  | hold => rfl

theorem waits_locks {mode : DriveMode} {n : Nat} {p : DrivePlace} (h : p.waits) : (Frame.drive mode n p).locks = [] := by
  cases p <;> first | rfl | cases h

namespace Transition

variable {m : Machine} {t : ThreadId} {f : Frame} {e : Effect}

theorem locks (h : Transition m t f e) (hu : e.own ≠ .unwind) : LockStep t m.shared f e := by
  cases h with
  | take h free => exact .take free (by cases h <;> rfl)
  | @whim mode n p w waits =>
    have hp : (Frame.drive mode n p).locks = [] := waits_locks waits
    cases w with
    | leave => exact .give (fun l => by simp [stepWhim, Shared.ret, hp]) ⟨[], hp⟩
    | handOut j => exact .give (fun l => by simp [stepWhim, Shared.call, hp]) ⟨[], hp⟩
    | panic => exact absurd rfl hu
  | lookTake => exact .give (fun l => by cases l <;> rfl) ⟨[.queue], rfl⟩
  | @jobCall id a rest due callee h =>
    have hnone : (Own.call (.job id due rest) callee).locks = [] := by
      simp only [Own.locks, Own.frames, List.flatMap_cons, h.locks]
      rfl
    exact .give (fun l => by simp [Shared.call, Frame.locks]) ⟨[], by rw [Shared.call, hnone]; rfl⟩
  | badName | jobPanic => exact absurd rfl hu
  | _ => exact .give (fun l => by cases l <;> rfl) ⟨_, rfl⟩

/-- a panic writes nothing and creates nobody, and does not begin under the parking lock -/
theorem unwind (h : Transition m t f e) (hu : e.own = .unwind) :
    e.shared = m.shared ∧ e.spawn = none ∧ .parking ∉ f.locks := by
  cases h with
  | @whim mode n p w waits =>
    cases w with
    | panic => exact ⟨rfl, rfl, by rw [waits_locks waits]; nofun⟩
    | _ => cases hu
  | badName | jobPanic => exact ⟨rfl, rfl, by simp [Frame.locks]⟩
  | _ => cases hu

end Transition

/-! ## Every lock has at most one holder -/

/-- a lock is owned by the thread one of whose activations holds it -/
def Machine.Owned (m : Machine) : Prop :=
  ∀ t l, (m.stackOf t).countP (fun f => l ∈ f.locks) = if m.shared.owner l = some t then 1 else 0

theorem countP_frames {l : Lock} {frames : List Frame} (h : (frames.flatMap Frame.locks).Nodup) :
    frames.countP (fun f => l ∈ f.locks) = if l ∈ frames.flatMap Frame.locks then 1 else 0 := by
  induction frames with
  | nil => simp
  | cons f rest ih =>
    rw [List.flatMap_cons] at h ⊢
    have hd := List.disjoint_of_nodup_append h
    rw [List.countP_cons, ih h.of_append_right]
    by_cases h1 : l ∈ f.locks
    · have h2 : l ∉ rest.flatMap Frame.locks := hd h1
      simp only [List.mem_append, h1, h2, ite_false, ite_true, or_false, decide_true]
    · simp [h1]

theorem countP_calm (l : Lock) (stack : List Frame) :
    (stack.map Frame.calm).countP (fun f => l ∈ f.locks) = stack.countP fun f => l ∈ f.locks := by
  rw [List.countP_map]
  exact List.countP_congr fun f _ => by simp

theorem owner_releaseAll (s : Shared) (t : ThreadId) (l : Lock) :
    (s.releaseAll t).owner l = if s.owner l = some t then none else s.owner l := by
  cases l <;> rfl

theorem unlocks_of_ne {own : Own} (hu : own ≠ .unwind) (s : Shared) (t : ThreadId) : own.unlocks s t = s := by
  cases own <;> first | rfl | exact absurd rfl hu

/-- a step of thread `t` leaves the locks of another thread alone -/
theorem LockStep.others {t i : ThreadId} {s : Shared} {f : Frame} {e : Effect} {l : Lock} (h : LockStep t s f e)
    (mine : l ∈ f.locks → s.owner l = some t) (hi : i ≠ t) : e.shared.owner l = some i ↔ s.owner l = some i := by
  rw [h.owner l]
  have hti : (some t : Option ThreadId) ≠ some i := fun he => hi (Option.some.inj he).symm
  by_cases h1 : l ∈ e.own.locks <;> by_cases h2 : l ∈ f.locks
  · simp [h1, h2]
  · simp [h1, h2, h.free l h1 h2, hti]
  · simp [h1, h2, mine h2, hti]
  · simp [h1, h2]

/-- the holder's own count after its step -/
theorem LockStep.holder {t : ThreadId} {s : Shared} {f : Frame} {e : Effect} {l : Lock} {n : Nat} (h : LockStep t s f e)
    (before : n + (if l ∈ f.locks then 1 else 0) = if s.owner l = some t then 1 else 0) :
    e.own.frames.countP (fun f => l ∈ f.locks) + n = if e.shared.owner l = some t then 1 else 0 := by
  rw [countP_frames h.once, h.owner l]
  change (if l ∈ e.own.locks then 1 else 0) + n = _
  by_cases h1 : l ∈ e.own.locks <;> by_cases h2 : l ∈ f.locks
  · simp only [h1, h2, ite_true] at before ⊢
    omega
  · simp only [h1, h2, h.free l h1 h2, ite_true, ite_false] at before ⊢
    simp at before
    simp [before]
  · simp only [h1, h2, ite_true, ite_false] at before ⊢
    by_cases ho : s.owner l = some t
    · simp only [ho, ite_true] at before
      simp; omega
    · simp [ho] at before
  · simp only [h1, h2, ite_false] at before ⊢
    omega

namespace Machine

theorem owned_fresh (size : Nat) (stem : String) (dispatches : Bool) : (fresh size stem dispatches).Owned := by
  intro t l
  cases l <;> simp [fresh, stackOf, roster, Shared.owner]

theorem Owned.mine {m : Machine} (h : m.Owned) {t : ThreadId} {f : Frame} {l : Lock} (hf : f ∈ m.stackOf t)
    (hl : l ∈ f.locks) : m.shared.owner l = some t := by
  by_contra ho
  have hc := h t l
  rw [if_neg ho, List.countP_eq_zero] at hc
  exact hc f hf (by simpa using hl)

theorem stackOf_length (m : Machine) : m.stackOf m.roster.length = [] := by simp [stackOf]

/-- a step of thread `t` leaves the locks of the other threads alone, also when it is a panic -/
theorem Owned.others {m m' : Machine} {t i : ThreadId} {th : Thread} {f : Frame} {below : List Frame} {e : Effect}
    (h : m.Owned) (s : m.StepOf m' t th f below e) (hi : i ≠ t) (l : Lock) :
    m'.shared.owner l = some i ↔ m.shared.owner l = some i := by
  rw [s.shared]
  by_cases hu : e.own = .unwind
  · rw [hu, Own.unlocks, owner_releaseAll, (s.go.unwind hu).1]
    by_cases ho : m.shared.owner l = some t <;> simp [ho, Ne.symm hi]
  · rw [unlocks_of_ne hu]
    exact (s.go.locks hu).others (fun hl => h.mine s.mem (by simpa using hl)) hi

theorem owned_move {m m' : Machine} {w : Option (Stage × Change)} (h : m.Owned) (mv : m.Moved m' w) : m'.Owned := by
  intro i l
  cases mv with
  | @step t th f below e s =>
    by_cases hi : i = t
    · subst hi
      rw [s.after, s.shared]
      by_cases hu : e.own = .unwind
      · rw [hu, Own.unlocks, owner_releaseAll, (s.go.unwind hu).1]
        by_cases ho : m.shared.owner l = some i <;> simp [Own.stack, ho]
      · have hcount := h i l
        rw [s.before, ← List.map_cons, countP_calm, List.countP_cons] at hcount
        simp only [decide_eq_true_eq] at hcount
        rw [unlocks_of_ne hu, countP_calm, countP_own (by simp) below hu]
        exact (s.go.locks hu).holder hcount
    · -- neither a new worker nor another thread changes its locks
      rw [s.stackAt, if_neg hi]
      simp only [h.others s hi l]
      by_cases hlen : i = m.roster.length
      · rw [if_pos hlen, ← h i l, hlen, stackOf_length]
        cases e.spawn <;> simp [Frame.locks]
      · rw [if_neg hlen]
        exact h i l
  | still gates hsh hr =>
    rw [stackOf_still hr, hsh]
    exact h i l
  | @call t th c ht hw hs hsh hr =>
    have hidle : m.stackOf t = [] := by simp [stackOf, ht, hs]
    rw [stackOf_call ht hr, hsh]
    rw [← h i l]
    split_ifs with hi
    · rw [hi, hidle]
      cases c <;> simp [Call.frame, Frame.locks]
    · rfl
  | enter hsh hr =>
    rw [stackOf_enter hr, hsh]
    exact h i l

/-- the innermost activation that holds a lock is the only one that does -/
theorem Owned.alone {m : Machine} (h : m.Owned) {t : ThreadId} {f : Frame} {below : List Frame} {l : Lock}
    (hs : m.stackOf t = f :: below) (hl : l ∈ f.locks) :
    (∀ g ∈ below, l ∉ g.locks) ∧ ∀ i, i ≠ t → ∀ g ∈ m.stackOf i, l ∉ g.locks := by
  have ho := h.mine (t := t) (f := f) (by simp [hs]) hl
  refine ⟨fun g hg hgl => ?_, fun i hi g hg hgl => hi ?_⟩
  · have hc := h t l
    rw [hs, List.countP_cons, if_pos ho] at hc
    have hpos : 0 < below.countP (fun f => l ∈ f.locks) := List.countP_pos_iff.2 ⟨g, hg, by simpa using hgl⟩
    simp [hl] at hc
    exact hc g hg hgl
  · exact (Option.some.inj (ho.symm.trans (h.mine hg hgl))).symm

end Machine

/-! ## Where the holder of a lock stands -/

/-- an activation that holds a lock can only have called the dispatcher -/
theorem holder_calls {l : Lock} {g : Frame} {k : Kind} (h : g.Calls k) (hl : l ∈ g.locks) :
    k = .halt ∨ k = .revive ∨ k = .ask .stopped := by
  cases h <;> first | (simp; done) | simp [Frame.locks] at hl

/-- a call on the dispatcher calls nobody -/
theorem dispatcher_calls {g : Frame} {k : Kind} (h : g.Calls k) :
    ¬ (g.kind = .halt ∨ g.kind = .revive ∨ g.kind = .ask .stopped) := by
  cases h <;> simp [Frame.kind]

/-- the innermost activation of the holder of a lock has it itself, or was called by the one that has it -/
theorem Nested.holder {l : Lock} {w : Option Nat} {stack : List Frame} (h : Nested w stack)
    (hl : ∃ f ∈ stack, l ∈ f.locks) : ∃ f below, stack = f :: below ∧
      (l ∈ f.locks ∨ ∃ g rest, below = g :: rest ∧ l ∈ g.locks ∧ g.Calls f.kind) := by
  induction h with
  | idle => simp at hl
  | @worker i p => exact ⟨_, _, rfl, .inl (by simpa using hl)⟩
  | @outside f hc => exact ⟨_, _, rfl, .inl (by simpa using hl)⟩
  | @call w f g rest lower hc ih =>
    refine ⟨f, g :: rest, rfl, ?_⟩
    by_cases hf : l ∈ f.locks
    · exact .inl hf
    · obtain ⟨g', below, heq, hg | ⟨k, rest', -, hk, hkc⟩⟩ := ih (by simpa [hf] using hl)
      · cases heq
        exact .inr ⟨g, rest, rfl, hg, hc⟩
      · -- the caller was itself called with the lock held, and such a callee calls nobody
        cases heq
        exact absurd (holder_calls hkc hk) (dispatcher_calls hc)

namespace Machine

theorem Formed.nested {m : Machine} (h : m.Formed) {t : ThreadId} {th : Thread} (ht : m.roster[t]? = some th) :
    Nested th.worker (m.stackOf t) := by
  have := (h th (List.mem_of_getElem? ht)).nested
  simpa [stackOf, ht] using this

theorem Owned.holder {m : Machine} {l : Lock} (ho : m.Owned) (hf : m.Formed) {t : ThreadId}
    (h : m.shared.owner l = some t) : ∃ f below, m.stackOf t = f :: below ∧
      (l ∈ f.locks ∨ ∃ g rest, below = g :: rest ∧ l ∈ g.locks ∧ g.Calls f.kind) := by
  have hc := ho t l
  have hpos : 0 < (m.stackOf t).countP (fun f => l ∈ f.locks) := by
    rw [hc, if_pos h]
    exact Nat.one_pos
  obtain ⟨f, hfm, hfl⟩ := List.countP_pos_iff.1 hpos
  cases ht : m.roster[t]? with
  | none => simp [stackOf, ht] at hfm
  | some th => exact (hf.nested ht).holder ⟨f, hfm, by simpa using hfl⟩

end Machine

/-! ## Conditions under the parking lock -/

/-- a condition that activations satisfy only while they hold the parking lock, and none below a job -/
structure UnderLock (p : Frame → Bool) : Prop extends Countable p where
  receive : ∀ f v, p (Frame.receive v f) = p f
  hosts : ∀ {f : Frame}, f.hosts → p f = false
  locks : ∀ {f : Frame}, p f → .parking ∈ f.locks

namespace UnderLock

variable {p : Frame → Bool} {m m' : Machine} {t : ThreadId} {th : Thread} {f : Frame} {below : List Frame} {e : Effect}

/-- nobody satisfies it while the parking lock is free -/
theorem free (up : UnderLock p) (h : m.Owned) (hfree : m.shared.parkingOwner = none) : m.tally p = 0 := by
  rw [Machine.tally, List.countP_eq_zero]
  intro f hf hp
  obtain ⟨t, hmem⟩ := Machine.exists_mem_stackOf hf
  cases hfree.symm.trans (h.mine hmem (up.locks hp) : m.shared.parkingOwner = some t)

/-- nobody satisfies it while somebody else makes a step under the parking lock -/
theorem alone (up : UnderLock p) (h : m.Owned) (s : m.StepOf m' t th f below e) (hl : .parking ∈ f.locks)
    (hf : p f = false) : m.tally p = 0 := by
  obtain ⟨hlow, helse⟩ := h.alone s.before (by simpa using hl)
  rw [Machine.tally, List.countP_eq_zero]
  intro g hg hp
  obtain ⟨i, hstack⟩ := Machine.exists_mem_stackOf hg
  by_cases hit : i = t
  · rw [hit, s.before] at hstack
    rcases List.mem_cons.1 hstack with rfl | hstack
    · rw [up.calm, hf] at hp
      cases hp
    · exact hlow g hstack (up.locks hp)
  · exact helse i hit g hstack (up.locks hp)

/-- a step changes the number of those who do by what becomes of its own activation -/
theorem own (up : UnderLock p) (h : m.Formed) (s : m.StepOf m' t th f below e) :
    m'.tally p + [f].countP p = m.tally p + e.own.frames.countP p :=
  Machine.tally_own up.toCountable up.receive (fun _ => up.hosts) h s

end UnderLock

end SecureEndpoint.Workers
