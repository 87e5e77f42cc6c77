/-
Runs of the pool, and what a single move does to the threads.

`Machine.Run` is a sequence of moves together with the changes of stage that were made on the way, in order. Everything
that is claimed of the pool under every interleaving is claimed of every `Run` from a fresh machine.

Most facts do not depend on who is awake. `Machine.roster` is the list of the threads with every wake-up, limit and
outcome forgotten: a move is then a change of one thread's stack, perhaps with one more thread (`Machine.Moved`).
- `Machine.stackOf` is the stack of one thread, `Machine.tally` counts activations over all threads; what a move does to
  them is said once, here.
-/
import Mathlib.Data.List.Nodup
import SecureEndpoint.Proofs.Workers.Transition

namespace SecureEndpoint.Workers

/-! ## Runs -/

/-- the change that an activation is about to swap in, with the stage it saw and the stage it leads to -/
def Frame.attempt? : Frame → Option (Change × Stage × Stage)
  | .start (.swap seen next) => some (.start, seen, next)
  | .pause (.swap seen next) => some (.pause, seen, next)
  | .resume (.swap seen next) => some (.resume, seen, next)
  | .shutdown (.swap seen next) => some (.shutdown, seen, next)
  | .stop (.settleSwap seen next) => some (.settle, seen, next)
  | _ => none

/-- the change that the next step of an activation makes, with the stage it comes from -/
def Frame.wins? (s : Shared) (f : Frame) : Option (Stage × Change) :=
  match f.attempt? with
  | some (c, seen, _) => if s.stage = seen then some (seen, c) else none
  | none => none

namespace Machine

/-- the change of stage that a move makes -/
def wins? (m : Machine) : Move → Option (Stage × Change)
  | .step t _ => ((m.threads[t]?).bind (·.stack.head?)).bind (·.wins? m.shared)
  | _ => none

/-- a run through machines that satisfy `ok`, with the changes of stage made on the way -/
inductive Run (ok : Machine → Prop) (m : Machine) : List (Stage × Change) → Machine → Prop
  | rest : Run ok m [] m
  | move {h a b mv} : Run ok m h a → a.move mv = some b → ok b → Run ok m (h ++ (a.wins? mv).toList) b

namespace Run

variable {ok ok' : Machine → Prop} {m a b : Machine} {h h' : List (Stage × Change)}

theorem weaken (hok : ∀ c, ok c → ok' c) (r : m.Run ok h a) : m.Run ok' h a := by
  induction r with
  | rest => exact .rest
  | move _ hmove hb ih => exact ih.move hmove (hok _ hb)

/-- one run after the other -/
theorem trans (r : m.Run ok h a) (r' : a.Run ok h' b) : m.Run ok (h ++ h') b := by
  induction r' with
  | rest => rwa [List.append_nil]
  | move _ hmove hb ih =>
    rw [← List.append_assoc]
    exact ih.move hmove hb

end Run

end Machine

/-! ## Threads without their wake-ups -/

/-- an activation with its wake-ups and its limit forgotten -/
def Frame.calm : Frame → Frame
  | .worker i (.asleep _) => .worker i (.asleep false)
  | .drive mode n (.asleep _) => .drive mode n (.asleep false)
  | .waitPaused l _ (.asleep _) => .waitPaused l false (.asleep false)
  | .waitPaused l _ p => .waitPaused l false p
  | .meet n _ => .meet n .arriving
  | f => f

theorem Frame.calm_wake (w : Wake) (f : Frame) : (f.wake w).calm = f.calm := by
  unfold Frame.wake
  split <;> try rfl
  split <;> rfl

theorem Frame.calm_wakeAnyway {f g : Frame} (h : f.wakeAnyway? = some g) : g.calm = f.calm := by
  unfold Frame.wakeAnyway? at h
  split at h <;> cases h <;> rfl

theorem Frame.calm_expire {f g : Frame} (h : f.expire? = some g) : g.calm = f.calm := by
  unfold Frame.expire? at h
  split at h
  · cases h; rfl
  · cases h; rename_i p _; cases p <;> rfl
  · cases h

/-- a thread with the wake-ups of its activations and its outcome forgotten -/
def Thread.calm (th : Thread) : Thread :=
  { worker := th.worker, life := th.life, stack := th.stack.map Frame.calm }

theorem Thread.calm_wake (w : Wake) (th : Thread) : (th.wake w).calm = th.calm := by
  unfold Thread.wake
  split
  · rename_i f rest h
    simp [Thread.calm, h, Frame.calm_wake]
  · rfl

/-- the threads with their wake-ups forgotten -/
def Machine.roster (m : Machine) : List Thread := m.threads.map Thread.calm

theorem roster_length (m : Machine) : m.roster.length = m.threads.length := by simp [Machine.roster]

theorem wakeThreads_calm (w : Wake) (threads : List Thread) :
    (wakeThreads w threads).map Thread.calm = threads.map Thread.calm := by
  have hmap : ∀ w : Wake, (threads.map (Thread.wake w)).map Thread.calm = threads.map Thread.calm := fun w => by
    simp [Function.comp_def, Thread.calm_wake]
  cases w with
  | nobody => rfl
  | runner pick =>
    refine List.ext_getElem? fun i => ?_
    simp only [wakeThreads, List.getElem?_map, List.getElem?_modify]
    cases threads[i]? with
    | none => rfl
    | some th => simp only [Option.map_some]; split <;> simp [Thread.calm_wake]
  | _ => exact hmap _

/-! ## What a move does to the roster -/

/-- the stack of a thread after its own part of a step -/
def Own.stack (own : Own) (below : List Frame) : List Frame :=
  match own, below with
  | .become f, below => f :: below
  | .call f callee, below => callee :: f :: below
  | .ret v, f :: rest => f.receive v :: rest
  | .ret _, [] => []
  | .unwind, _ => []

/-- the activations that take the place of the one that made a step -/
def Own.frames : Own → List Frame
  | .become f => [f]
  | .call f callee => [callee, f]
  | .ret _ | .unwind => []

/-- what becomes of a thread -/
def Own.life (own : Own) (th : Thread) (below : List Frame) : Life :=
  match own with
  | .become _ | .call .. => th.life
  | .ret _ => if below = [] ∧ th.worker.isSome then .finished else th.life
  | .unwind => if th.worker.isSome then .died else th.life

/-- a thread of the roster -/
def Own.entry (own : Own) (th : Thread) (below : List Frame) : Thread :=
  { worker := th.worker, life := own.life th below, stack := (own.stack below).map Frame.calm }

theorem Thread.calm_after (th : Thread) (own : Own) (below : List Frame) :
    (th.after own below).calm = own.entry th below := by
  cases own with
  | ret v =>
    cases below with
    | nil => by_cases h : th.worker.isSome <;> simp [Thread.after, Own.entry, Own.life, Own.stack, Thread.calm, h]
    | cons f rest => rfl
  | unwind => by_cases h : th.worker.isSome <;> simp [Thread.after, Own.entry, Own.life, Own.stack, Thread.calm, h]
  | _ => rfl

namespace Machine

/-- thread `t` makes the step `e` of its innermost activation `f`, which lies on `below` -/
structure StepOf (m m' : Machine) (t : ThreadId) (th : Thread) (f : Frame) (below : List Frame) (e : Effect) : Prop where
  thread : m.threads[t]? = some th
  top : th.stack = f :: below
  sees : f.Sees m.shared
  go : Transition m t f e
  shared : m'.shared = e.own.unlocks e.shared t
  roster : m'.roster = m.roster.set t (e.own.entry th below) ++ (e.spawn.map newWorker).toList

/-- what a move does to the shared part and to the roster, with the change of stage that it makes -/
inductive Moved (m m' : Machine) : Option (Stage × Change) → Prop
  | step {t th f below e} (s : m.StepOf m' t th f below e) : Moved m m' (f.wins? m.shared)
  /-- somebody wakes up, a limit passes or a gate opens -/
  | still (gates : List String) (shared : m'.shared = { m.shared with gates := gates }) (roster : m'.roster = m.roster) :
      Moved m m' none
  /-- a thread from outside begins a call -/
  | call {t : ThreadId} {th : Thread} (c : Call) (ht : m.roster[t]? = some th) (hw : th.worker = none)
      (hs : th.stack = []) (shared : m'.shared = m.shared)
      (roster : m'.roster = m.roster.set t { worker := none, life := th.life, stack := [c.frame] }) : Moved m m' none
  /-- another thread from outside comes -/
  | enter (shared : m'.shared = m.shared) (roster : m'.roster = m.roster ++ [{ worker := none, stack := [] }]) :
      Moved m m' none

theorem roster_set (m : Machine) (t : ThreadId) (th : Thread) :
    ({ m with threads := m.threads.set t th } : Machine).roster = m.roster.set t th.calm := by
  simp [roster, List.map_set]

/-- only the innermost activation of one thread is another one -/
theorem changeTop_eq {m m' : Machine} {t : ThreadId} {change : Frame → Option Frame} (h : m.changeTop? t change = some m') :
    ∃ th f g below, m.threads[t]? = some th ∧ th.stack = f :: below ∧ change f = some g ∧
      m' = { m with threads := m.threads.set t { th with stack := g :: below } } := by
  unfold changeTop? at h
  cases ht : m.threads[t]? with
  | none => simp [ht] at h
  | some th =>
    cases hs : th.stack with
    | nil => simp [ht, hs] at h
    | cons f below =>
      cases hg : change f with
      | none => simp [ht, hs, hg] at h
      | some g =>
        simp only [ht, hs, hg, bind, pure, Option.bind_some, Option.some.injEq] at h
        exact ⟨th, f, g, below, rfl, hs, hg, h.symm⟩

/-- a call is begun by a thread from outside that is in none -/
theorem called {m m' : Machine} {t : ThreadId} {c : Call} (h : m.move (.call t c) = some m') :
    ∃ th, m.threads[t]? = some th ∧ th.worker = none ∧ th.stack = [] ∧
      m' = { m with threads := m.threads.set t { th with stack := [c.frame], outcome := none } } := by
  cases ht : m.threads[t]? with
  | none => simp [move, ht] at h
  | some th =>
    simp only [move, ht, bind, pure, Option.bind_some] at h
    split at h
    · rename_i hidle
      cases h
      exact ⟨th, rfl, Option.isNone_iff_eq_none.1 hidle.1, List.isEmpty_iff.1 hidle.2, rfl⟩
    · cases h

/-- a thread whose innermost activation only wakes up or loses patience -/
theorem changeTop_roster {m m' : Machine} {t : ThreadId} {change : Frame → Option Frame}
    (calm : ∀ f g, change f = some g → g.calm = f.calm) (h : m.changeTop? t change = some m') :
    m'.shared = m.shared ∧ m'.roster = m.roster := by
  obtain ⟨th, f, g, below, ht, hs, hg, rfl⟩ := changeTop_eq h
  refine ⟨rfl, ?_⟩
  have hr : m.roster[t]? = some (Thread.calm { th with stack := g :: below }) := by
    simp [roster, ht, Thread.calm, hs, calm f g hg]
  obtain ⟨hl, hr⟩ := List.getElem?_eq_some_iff.1 hr
  rw [roster_set, ← hr, List.set_getElem_self]

theorem apply_roster (m : Machine) (t : ThreadId) (th : Thread) (below : List Frame) (e : Effect) :
    (m.apply t th below e).roster = m.roster.set t (e.own.entry th below) ++ (e.spawn.map newWorker).toList := by
  simp only [apply, roster, List.map_append, wakeThreads_calm, List.map_set, Thread.calm_after]
  cases e.spawn <;> rfl

/-- every move is one of these where the activations on top see what their places say -/
theorem move_moved {m m' : Machine} {mv : Move} (h : m.move mv = some m')
    (sees : ∀ (t : ThreadId) (th : Thread) (f : Frame) (below : List Frame), m.threads[t]? = some th →
      th.stack = f :: below → f.Sees m.shared) : Moved m m' (m.wins? mv) := by
  cases mv with
  | step t ch =>
    cases ht : m.threads[t]? with
    | none => simp [move, ht] at h
    | some th =>
      cases hs : th.stack with
      | nil => simp [move, ht, hs] at h
      | cons f below =>
        cases he : f.step m t ch with
        | none => simp [move, ht, hs, he] at h
        | some e =>
          simp only [move, ht, hs, he, bind, pure, Option.bind_some, Option.some.injEq] at h
          subst h
          have hw : m.wins? (.step t ch) = f.wins? m.shared := by simp [wins?, ht, hs]
          rw [hw]
          have hsees := sees t th f below ht hs
          exact .step ⟨ht, hs, hsees, step_transition he hsees, rfl, m.apply_roster t th below e⟩
  | wake t =>
    obtain ⟨hs, hr⟩ := changeTop_roster (fun _ _ => Frame.calm_wakeAnyway) h
    exact .still m.shared.gates (by rw [hs]) hr
  | expire t =>
    obtain ⟨hs, hr⟩ := changeTop_roster (fun _ _ => Frame.calm_expire) h
    exact .still m.shared.gates (by rw [hs]) hr
  | call t c =>
    obtain ⟨th, ht, hw, hs, rfl⟩ := called h
    have hc : m.roster[t]? = some th.calm := by simp [roster, ht]
    refine .call c hc hw (by simp [Thread.calm, hs]) rfl ?_
    rw [roster_set]
    cases c <;> simp [Thread.calm, hw, Call.frame, Frame.calm]
  | enter =>
    cases h
    exact .enter rfl (by simp [roster, Thread.calm])
  | openGate g =>
    cases h
    exact .still _ rfl rfl

end Machine

namespace Machine

/-- the stack of a thread of the roster, empty where there is no such thread -/
def stackOf (m : Machine) (t : ThreadId) : List Frame := ((m.roster[t]?).map (·.stack)).getD []

theorem roster_thread {m : Machine} {t : ThreadId} {u : Thread} (h : m.roster[t]? = some u) :
    ∃ th, m.threads[t]? = some th ∧ th.calm = u := by
  simpa [roster] using h

theorem stackOf_top {m : Machine} {t : ThreadId} {th : Thread} {f : Frame} {below : List Frame}
    (ht : m.threads[t]? = some th) (hs : th.stack = f :: below) : m.stackOf t = f.calm :: below.map Frame.calm := by
  simp [stackOf, roster, ht, Thread.calm, hs]

namespace StepOf

variable {m m' : Machine} {t : ThreadId} {th : Thread} {f : Frame} {below : List Frame} {e : Effect}

theorem entry (s : m.StepOf m' t th f below e) : m.roster[t]? = some th.calm := by simp [Machine.roster, s.thread]

theorem before (s : m.StepOf m' t th f below e) : m.stackOf t = f.calm :: below.map Frame.calm :=
  stackOf_top s.thread s.top

theorem mem (s : m.StepOf m' t th f below e) : f.calm ∈ m.stackOf t := by
  rw [s.before]
  exact .head _

theorem stage (s : m.StepOf m' t th f below e) : m'.shared.stage = e.shared.stage := by
  rw [s.shared]
  cases e.own <;> rfl

theorem dispatcher (s : m.StepOf m' t th f below e) : m'.shared.dispatcher = e.shared.dispatcher := by
  rw [s.shared]
  cases e.own <;> rfl

/-- the stacks after a step of thread `t`; a new worker comes last -/
theorem stackAt (s : m.StepOf m' t th f below e) (i : ThreadId) :
    m'.stackOf i = if i = t then (e.own.stack below).map Frame.calm
      else if i = m.roster.length then (e.spawn.map fun k => Frame.worker k .enter).toList else m.stackOf i := by
  have hl : t < m.roster.length := (List.getElem?_eq_some_iff.1 s.entry).1
  simp only [stackOf, s.roster, List.getElem?_append, List.getElem?_set, List.length_set]
  by_cases hi : i = t
  · subst hi
    simp [hl, Own.entry]
  · rcases Nat.lt_trichotomy i m.roster.length with hlt | heq | hgt
    · simp [hlt, hi, Ne.symm hi, Nat.ne_of_lt hlt]
    · cases e.spawn <;> simp [heq, newWorker, Nat.ne_of_gt hl]
    · have hne : i - m.roster.length ≠ 0 := Nat.sub_ne_zero_of_lt hgt
      cases e.spawn <;> simp [hi, Nat.ne_of_gt hgt, Nat.not_lt_of_gt hgt, hne]

/-- the stack of the thread itself -/
theorem after (s : m.StepOf m' t th f below e) : m'.stackOf t = (e.own.stack below).map Frame.calm := by
  rw [s.stackAt, if_pos rfl]

end StepOf

theorem stackOf_still {m m' : Machine} (hr : m'.roster = m.roster) (i : ThreadId) : m'.stackOf i = m.stackOf i := by
  simp [stackOf, hr]

theorem stackOf_call {m m' : Machine} {t : ThreadId} {th : Thread} {c : Call} (ht : m.roster[t]? = some th)
    (hr : m'.roster = m.roster.set t { worker := none, life := th.life, stack := [c.frame] }) (i : ThreadId) :
    m'.stackOf i = if i = t then [c.frame] else m.stackOf i := by
  have hl : t < m.roster.length := (List.getElem?_eq_some_iff.1 ht).1
  simp only [stackOf, hr, List.getElem?_set]
  by_cases hi : i = t
  · subst hi
    simp [hl]
  · simp [hi, Ne.symm hi]

theorem stackOf_enter {m m' : Machine} (hr : m'.roster = m.roster ++ [{ worker := none, stack := [] }]) (i : ThreadId) :
    m'.stackOf i = m.stackOf i := by
  simp only [stackOf, hr, List.getElem?_append]
  split
  · rfl
  · rename_i h
    have hn : m.roster[i]? = none := List.getElem?_eq_none (Nat.not_lt.1 h)
    rw [hn, List.getElem?_cons]
    split <;> simp

end Machine

/-! ## Counting -/

/-- replacing one entry changes a count by what the entry contributed -/
theorem countP_flatMap_set {α β : Type} (p : β → Bool) (g : α → List β) {l : List α} {t : Nat} {a : α}
    (h : l[t]? = some a) (b : α) :
    ((l.set t b).flatMap g).countP p + (g a).countP p = (l.flatMap g).countP p + (g b).countP p := by
  induction l generalizing t with
  | nil => simp at h
  | cons x l ih =>
    cases t with
    | zero =>
      cases h
      simp only [List.set_cons_zero, List.flatMap_cons, List.countP_append]
      omega
    | succ t =>
      have := ih (t := t) (by simpa using h)
      simp only [List.set_cons_succ, List.flatMap_cons, List.countP_append]
      omega

namespace Machine

/-- the activations of all threads -/
def frames (m : Machine) : List Frame := m.roster.flatMap (·.stack)

/-- how many activations satisfy a condition -/
def tally (m : Machine) (p : Frame → Bool) : Nat := m.frames.countP p

theorem mem_frames {m : Machine} {t : ThreadId} {f : Frame} (hf : f ∈ m.stackOf t) : f ∈ m.frames := by
  cases ht : m.roster[t]? with
  | none => simp [stackOf, ht] at hf
  | some th => exact List.mem_flatMap.2 ⟨th, List.mem_of_getElem? ht, by simpa [stackOf, ht] using hf⟩

end Machine

theorem Machine.exists_mem_stackOf {m : Machine} {f : Frame} (hf : f ∈ m.frames) : ∃ t, f ∈ m.stackOf t := by
  obtain ⟨th, hth, hmem⟩ := List.mem_flatMap.1 hf
  obtain ⟨t, ht⟩ := List.getElem?_of_mem hth
  exact ⟨t, by simpa [stackOf, ht] using hmem⟩

/-- a condition on activations that does not depend on who is awake, and that none satisfies at its beginning -/
structure Countable (p : Frame → Bool) : Prop where
  calm : ∀ f, p f.calm = p f
  born : ∀ k, p (.worker k .enter) = false
  called : ∀ c : Call, p c.frame = false

namespace Machine

variable {m m' : Machine} {p : Frame → Bool}

/-- a step changes the count by what it does to the stack of its thread -/
theorem tally_step {t : ThreadId} {th : Thread} {f : Frame} {below : List Frame} {e : Effect} (cp : Countable p)
    (s : m.StepOf m' t th f below e) :
    m'.tally p + (f :: below).countP p = m.tally p + (e.own.stack below).countP p := by
  have hcalm : ∀ l : List Frame, (l.map Frame.calm).countP p = l.countP p := fun l => by
    rw [List.countP_map]
    exact List.countP_congr fun f _ => by simp [cp.calm]
  have hset := countP_flatMap_set p (fun th : Thread => th.stack) s.entry (e.own.entry th below)
  have hspawn : ((e.spawn.map newWorker).toList.flatMap (·.stack)).countP p = 0 := by
    cases e.spawn <;> simp [newWorker, cp.born]
  simp only [Thread.calm, s.top, Own.entry, hcalm] at hset
  rw [tally, tally, frames, frames, s.roster, List.flatMap_append, List.countP_append, hspawn]
  exact hset

/-- the other moves do not change it -/
theorem tally_call {t : ThreadId} {th : Thread} {c : Call} (cp : Countable p) (ht : m.roster[t]? = some th)
    (hs : th.stack = []) (hr : m'.roster = m.roster.set t { worker := none, life := th.life, stack := [c.frame] }) :
    m'.tally p = m.tally p := by
  rw [tally, tally, frames, frames, hr]
  have hset := countP_flatMap_set p (fun th : Thread => th.stack) ht
    { worker := none, life := th.life, stack := [c.frame] }
  simpa [hs, cp.called] using hset

theorem tally_enter (hr : m'.roster = m.roster ++ [{ worker := none, stack := [] }]) : m'.tally p = m.tally p := by
  simp [tally, frames, hr]

theorem tally_still (hr : m'.roster = m.roster) : m'.tally p = m.tally p := by rw [tally, frames, hr]; rfl

/-- the activations below are as they were, up to what they receive -/
theorem countP_own {own : Own} (receive : ∀ f v, p (Frame.receive v f) = p f) (below : List Frame) (hu : own ≠ .unwind) :
    (own.stack below).countP p = own.frames.countP p + below.countP p := by
  cases own with
  | become f => simp only [Own.stack, Own.frames, List.countP_cons, List.countP_nil]; omega
  | call f callee => simp only [Own.stack, Own.frames, List.countP_cons, List.countP_nil]; omega
  | ret v => cases below <;> simp [Own.stack, Own.frames, List.countP_cons, receive]
  | unwind => exact absurd rfl hu

/-- an activation that satisfies the condition is counted -/
theorem tally_pos {t : ThreadId} {f : Frame} (hf : f ∈ m.stackOf t) (hp : p f) : 0 < m.tally p :=
  List.countP_pos_iff.2 ⟨f, mem_frames hf, hp⟩

end Machine

theorem eq_of_countP_le_one {α : Type} {p : α → Bool} {l : List α} {a b : α} (h : l.countP p ≤ 1) (ha : a ∈ l)
    (hb : b ∈ l) (hpa : p a) (hpb : p b) : a = b := by
  induction l with
  | nil => cases ha
  | cons x l ih =>
    rw [List.countP_cons] at h
    rcases List.mem_cons.1 ha with rfl | ha' <;> rcases List.mem_cons.1 hb with rfl | hb'
    · rfl
    · have := List.countP_pos_iff.2 ⟨b, hb', hpb⟩
      rw [if_pos hpa] at h
      omega
    · have := List.countP_pos_iff.2 ⟨a, ha', hpa⟩
      rw [if_pos hpb] at h
      omega
    · exact ih (by omega) ha' hb'

/-- where at most one activation satisfies the condition, two that do are the same -/
theorem Machine.tally_unique {m : Machine} {p : Frame → Bool} {i j : ThreadId} {f g : Frame} (h : m.tally p ≤ 1)
    (hf : f ∈ m.stackOf i) (hg : g ∈ m.stackOf j) (hpf : p f) (hpg : p g) : f = g :=
  eq_of_countP_le_one h (mem_frames hf) (mem_frames hg) hpf hpg

/-! ## Replaying a run -/

namespace Machine

/-- follows moves through machines that satisfy `ok`, with the changes of stage made on the way -/
def follow (ok : Machine → Bool) (h : List (Stage × Change)) (m : Machine) :
    List Move → Option (List (Stage × Change) × Machine)
  | [] => some (h, m)
  | mv :: rest => (m.move mv).bind fun a => if ok a then follow ok (h ++ (m.wins? mv).toList) a rest else none

/-- so many steps of a thread -/
def steps (t : ThreadId) (n : Nat) : List Move := List.replicate n (.step t {})

theorem run_follow {ok : Machine → Bool} {m a b : Machine} {h h' : List (Stage × Change)} {moves : List Move}
    (r : Run (fun a => ok a) m h a) (hf : a.follow ok h moves = some (h', b)) : Run (fun a => ok a) m h' b := by
  induction moves generalizing h a with
  | nil =>
    cases hf
    exact r
  | cons mv rest ih =>
    obtain ⟨c, hc, hf⟩ := Option.bind_eq_some_iff.1 hf
    split at hf
    · rename_i hok
      exact ih (r.move hc hok) hf
    · cases hf

end Machine

end SecureEndpoint.Workers
