/-
A dispatcher driven by a single thread, one step after the other.

The thread has a stack: the loops and jobs that are under way, the innermost first. `Situation.step` is what happens next: a
loop looks for a job, a job performs an action, and something that has nothing left to do is removed from the stack. When a job
panics, the panic removes one entry of the stack after the other, and nothing else happens any more. `Goes` is a run of such
steps with its events; it is over when the stack is empty.

Results, all by what one step does and what a run keeps of it:
- `Goes.in_order`: what waited and what was posted is what was taken and what waits, in this order;
- `Goes.balanced`: without a panic, the counts that loops returned and those of the loops under way are the jobs taken;
- `Goes.unwound`: after a panic nothing is taken, posted or counted, and everything under way is left, one after the other.
-/
import SecureEndpoint.Work.Job
import Mathlib.Algebra.GroupWithZero.Nat

namespace SecureEndpoint.Work

/-- a loop or a job that is under way -/
inductive Entry where
  /-- a loop that has run `n` jobs -/
  | loop (n : Nat)
  /-- a loop for at most one job, which has not looked for it yet -/
  | single
  /-- a loop for at most one job, which has run it -/
  | only
  /-- a job with these actions left -/
  | job (actions : List (Action Empty))

/-- something that happens -/
inductive Event where
  /-- a job is put into the queue -/
  | posted (j : Job Empty)
  /-- a job is taken out of the queue, and begins -/
  | taken (j : Job Empty)
  /-- a loop returns a count -/
  | counted (n : Nat)
  | panicked
  /-- a panic removes an entry of the stack -/
  | left (e : Entry)

namespace Event

/-- the jobs that were posted, in order -/
def posts (events : List Event) : List (Job Empty) := events.filterMap fun | posted j => some j | _ => none

/-- the jobs that were taken, in order -/
def takes (events : List Event) : List (Job Empty) := events.filterMap fun | taken j => some j | _ => none

/-- the counts that loops returned, in order -/
def returns (events : List Event) : List Nat := events.filterMap fun | counted n => some n | _ => none

@[simp]
theorem posts_append (es fs : List Event) : posts (es ++ fs) = posts es ++ posts fs := List.filterMap_append

@[simp]
theorem takes_append (es fs : List Event) : takes (es ++ fs) = takes es ++ takes fs := List.filterMap_append

@[simp]
theorem returns_append (es fs : List Event) : returns (es ++ fs) = returns es ++ returns fs := List.filterMap_append

end Event

open Event

/-- a dispatcher and the stack of the thread that drives it -/
structure Situation where
  dispatcher : Dispatcher (Job Empty)
  stack : List Entry
  /-- a panic is on its way through the stack -/
  unwinding : Bool := false

namespace Situation

variable {s t u : Situation} {es fs events : List Event}

/-- the innermost entry goes on, above those `below` it -/
def advance (d : Dispatcher (Job Empty)) (below : List Entry) : Entry → List Event × Situation
  | .loop n =>
    match d.take? with
    | none => ([.counted n], ⟨d, below, false⟩)
    | some (j, d) => ([.taken j], ⟨d, .job j.actions :: .loop (n + 1) :: below, false⟩)
  | .single =>
    match d.take? with
    | none => ([.counted 0], ⟨d, below, false⟩)
    | some (j, d) => ([.taken j], ⟨d, .job j.actions :: .only :: below, false⟩)
  | .only => ([.counted 1], ⟨d, below, false⟩)
  | .job [] => ([], ⟨d, below, false⟩)
  | .job (.post id actions :: rest) =>
    ([.posted ⟨id, actions, false⟩], ⟨d.post ⟨id, actions, false⟩, .job rest :: below, false⟩)
  | .job (.poll :: rest) => ([], ⟨d, .loop 0 :: .job rest :: below, false⟩)
  | .job (.pollOne :: rest) => ([], ⟨d, .single :: .job rest :: below, false⟩)
  | .job (.pending :: rest) => ([], ⟨d, .job rest :: below, false⟩)
  | .job (.stopped :: rest) => ([], ⟨d, .job rest :: below, false⟩)
  | .job (.stop :: rest) => ([], ⟨d.stop, .job rest :: below, false⟩)
  | .job (.restart :: rest) => ([], ⟨d.restart, .job rest :: below, false⟩)
  | .job (.panic :: rest) => ([.panicked], ⟨d, .job (.panic :: rest) :: below, true⟩)
  | .job (.other k :: _) => k.elim

/-- what happens next, with its events; nothing if the stack is empty -/
def step (s : Situation) : Option (List Event × Situation) :=
  match s.stack with
  | [] => none
  | e :: below =>
    if s.unwinding then some ([.left e], ⟨s.dispatcher, below, true⟩) else some (advance s.dispatcher below e)

/-- a run of steps -/
inductive Goes : Situation → List Event → Situation → Prop where
  | refl (s : Situation) : Goes s [] s
  | next {s t u : Situation} {es fs : List Event} (first : s.step = some (es, t)) (others : Goes t fs u) : Goes s (es ++ fs) u

theorem Goes.trans (h : Goes s es t) (k : Goes t fs u) : Goes s (es ++ fs) u := by
  induction h with
  | refl => exact k
  | next first _ ih =>
    rw [List.append_assoc]
    exact .next first (ih k)

theorem Goes.one (h : s.step = some (es, t)) : Goes s es t := by
  rw [← List.append_nil es]
  exact .next h (.refl t)

/-! ## In order -/

theorem take?_queue {d d' : Dispatcher (Job Empty)} {j : Job Empty} (h : d.take? = some (j, d')) :
    d.queue = j :: d'.queue := by
  unfold Dispatcher.take? at h
  split at h
  · cases h
  · split at h
    · cases h
    · rename_i queue
      cases h
      exact queue

theorem take?_eq_none {d : Dispatcher (Job Empty)} (h : d.take? = none) : d.queue = [] ∨ d.stopped = true := by
  unfold Dispatcher.take? at h
  split at h
  · exact .inr (by assumption)
  · split at h
    · exact .inl (by assumption)
    · cases h

/-- one step takes from the front and puts at the end -/
theorem advance_in_order (d : Dispatcher (Job Empty)) (below : List Entry) (e : Entry) :
    d.queue ++ posts (advance d below e).1 = takes (advance d below e).1 ++ (advance d below e).2.dispatcher.queue := by
  cases e with
  | loop n =>
    rw [advance]
    split
    · simp [posts, takes]
    · simp [posts, takes, take?_queue (by assumption)]
  | single =>
    rw [advance]
    split
    · simp [posts, takes]
    · simp [posts, takes, take?_queue (by assumption)]
  | only => simp [advance, posts, takes]
  | job actions =>
    match actions with
    | [] => simp [advance, posts, takes]
    | a :: rest =>
      cases a with
      | other k => exact k.elim
      | post id actions => simp [advance, posts, takes, Dispatcher.post]
      | _ => simp [advance, posts, takes, Dispatcher.stop, Dispatcher.restart]

theorem step_in_order (h : s.step = some (es, t)) : s.dispatcher.queue ++ posts es = takes es ++ t.dispatcher.queue := by
  obtain ⟨d, stack, unwinding⟩ := s
  cases stack with
  | nil => cases h
  | cons e below =>
    cases unwinding with
    | true =>
      cases h
      simp [posts, takes]
    | false =>
      have := advance_in_order d below e
      rwa [Option.some.inj h] at this

/-- **Nothing is lost or moved.** What waited, and behind it what was posted, is what was taken, and behind it what waits. -/
theorem Goes.in_order (h : Goes s events t) :
    s.dispatcher.queue ++ posts events = takes events ++ t.dispatcher.queue := by
  induction h with
  | refl => simp [posts, takes]
  | next first _ ih =>
    rw [posts_append, takes_append, ← List.append_assoc, step_in_order first, List.append_assoc, ih, List.append_assoc]

/-! ## Without a panic -/

/-- the jobs that the loops under way have run, or are running -/
def running (stack : List Entry) : Nat :=
  (stack.map fun
    | .loop n => n
    | .only => 1
    | _ => 0).sum

theorem step_unwinding (h : s.step = some (es, t)) (calm : t.unwinding = false) : s.unwinding = false := by
  obtain ⟨d, stack, unwinding⟩ := s
  cases stack with
  | nil => cases h
  | cons e below =>
    cases unwinding with
    | false => rfl
    | true =>
      cases h
      cases calm

/-- where no panic is on its way, none was on its way before -/
theorem Goes.calm (h : Goes s events t) (calm : t.unwinding = false) : s.unwinding = false := by
  induction h with
  | refl => exact calm
  | next first _ ih => exact step_unwinding first (ih calm)

/-- a job that is taken is run by one loop, which counts it once -/
theorem advance_balanced (d : Dispatcher (Job Empty)) (below : List Entry) (e : Entry) :
    running (e :: below) + (takes (advance d below e).1).length =
      (returns (advance d below e).1).sum + running (advance d below e).2.stack := by
  cases e with
  | loop n =>
    rw [advance]
    split
    · simp [takes, returns, running]
    · simp [takes, returns, running]
      omega
  | single =>
    rw [advance]
    split
    · simp [takes, returns, running]
    · simp [takes, returns, running]
      omega
  | only => simp [advance, takes, returns, running]
  | job actions =>
    match actions with
    | [] => simp [advance, takes, returns, running]
    | a :: rest =>
      cases a with
      | other k => exact k.elim
      | _ => simp [advance, takes, returns, running]

/-- **Every job is counted once.** As long as nothing panics, the counts that loops returned, with what the loops under way
have run, go up by one with every job that is taken. -/
theorem Goes.balanced (h : Goes s events t) (calm : t.unwinding = false) :
    running s.stack + (takes events).length = (returns events).sum + running t.stack := by
  induction h with
  | refl => simp [takes, returns]
  | @next s t u es fs first others ih =>
    obtain ⟨d, stack, unwinding⟩ := s
    obtain rfl : unwinding = false := step_unwinding first (others.calm calm)
    cases stack with
    | nil => cases first
    | cons e below =>
      have now : advance d below e = (es, t) := Option.some.inj first
      have one := advance_balanced d below e
      have later := ih calm
      simp only [now] at one
      rw [takes_append, returns_append, List.length_append, List.sum_append]
      change running (e :: below) + _ = _
      omega

/-! ## With a panic -/

/-- only a job that panics starts a panic -/
theorem advance_calm_or_panics (d : Dispatcher (Job Empty)) (below : List Entry) (e : Entry) :
    (advance d below e).2.unwinding = false ∧ .panicked ∉ (advance d below e).1 ∨
      ∃ rest, e = .job (.panic :: rest) ∧ advance d below e = ([.panicked], ⟨d, e :: below, true⟩) := by
  cases e with
  | loop n =>
    left
    rw [advance]
    split <;> simp
  | single =>
    left
    rw [advance]
    split <;> simp
  | only => simp [advance]
  | job actions =>
    match actions with
    | [] => simp [advance]
    | a :: rest =>
      cases a with
      | panic => exact .inr ⟨rest, rfl, rfl⟩
      | other k => exact k.elim
      | _ => simp [advance]

/-- where no panic is on its way, nothing has panicked -/
theorem Goes.panicked_not_mem (h : Goes s events t) (calm : t.unwinding = false) : .panicked ∉ events := by
  induction h with
  | refl => exact List.not_mem_nil
  | @next s t u es fs first others ih =>
    obtain ⟨d, stack, unwinding⟩ := s
    obtain rfl : unwinding = false := step_unwinding first (others.calm calm)
    cases stack with
    | nil => cases first
    | cons e below =>
      have now : advance d below e = (es, t) := Option.some.inj first
      obtain ⟨-, quiet⟩ | ⟨rest, rfl, panics⟩ := advance_calm_or_panics d below e
      · rw [now] at quiet
        exact List.not_mem_append quiet (ih calm)
      · obtain ⟨rfl, rfl⟩ := Prod.mk.inj (now.symm.trans panics)
        cases others.calm calm

/-- a panic on its way removes one entry after the other, and nothing else happens -/
theorem Goes.leaves (h : Goes s events t) (panic : s.unwinding = true) :
    ∃ gone, s.stack = gone ++ t.stack ∧ events = gone.map .left ∧ t.dispatcher = s.dispatcher := by
  induction h with
  | refl => exact ⟨[], rfl, rfl, rfl⟩
  | @next s t u es fs first _ ih =>
    obtain ⟨d, stack, unwinding⟩ := s
    obtain rfl : unwinding = true := panic
    cases stack with
    | nil => cases first
    | cons e below =>
      cases first
      obtain ⟨gone, stack, rfl, dispatcher⟩ := ih rfl
      exact ⟨e :: gone, congrArg (e :: ·) stack, rfl, dispatcher⟩

/-- **A panic passes through everything.** A run that ends with a panic goes as any other up to the action that panics; then
everything that is under way is left, the innermost first, and the dispatcher stays as it is. -/
theorem Goes.unwound (h : Goes s events t) (before : s.unwinding = false) (panic : t.unwinding = true) :
    ∃ front rest below gone, Goes s front ⟨t.dispatcher, .job (.panic :: rest) :: below, false⟩ ∧
      .job (.panic :: rest) :: below = gone ++ t.stack ∧ events = front ++ .panicked :: gone.map .left := by
  induction h with
  | refl =>
    rw [before] at panic
    cases panic
  | @next s t u es fs first others ih =>
    obtain ⟨d, stack, unwinding⟩ := s
    obtain rfl : unwinding = false := before
    cases stack with
    | nil => cases first
    | cons e below =>
      have now : advance d below e = (es, t) := Option.some.inj first
      obtain ⟨calm, -⟩ | ⟨rest, rfl, panics⟩ := advance_calm_or_panics d below e
      · rw [now] at calm
        obtain ⟨front, rest, below, gone, go, stack, rfl⟩ := ih calm panic
        exact ⟨es ++ front, rest, below, gone, .next first go, stack, (List.append_assoc ..).symm⟩
      · obtain ⟨rfl, rfl⟩ := Prod.mk.inj (panics.symm.trans now)
        obtain ⟨gone, stack, rfl, dispatcher⟩ := others.leaves rfl
        exact ⟨[], rest, below, gone, dispatcher ▸ .refl _, stack, rfl⟩

/-! ## One way to go -/

/-- a run that is over goes on from every point of any other run from where it began: there is no other, and no longer one -/
theorem Goes.only (h : Goes s events t) (ended : t.stack = []) (k : Goes s fs u) : ∃ gs, Goes u gs t ∧ events = fs ++ gs := by
  induction k generalizing events with
  | refl => exact ⟨events, h, rfl⟩
  | next first _ ih =>
    cases h with
    | refl =>
      rw [Situation.step, ended] at first
      cases first
    | next first' others =>
      cases first.symm.trans first'
      obtain ⟨gs, go, rfl⟩ := ih others
      exact ⟨gs, go, (List.append_assoc ..).symm⟩

end Situation

end SecureEndpoint.Work
