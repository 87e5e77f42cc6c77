/-
A dispatcher driven by a single thread.

`Solo.poll` takes and runs jobs until none is left or the dispatcher is stopped; `Solo.pollOne` takes at most one. Jobs
may drive the dispatcher again from inside, to any depth. A job that panics is gone, and the panic passes through every
loop that was running; the jobs that were not taken stay in the queue.

All of it ends because the weight of the jobs that wait and of the actions that remain goes down with every step: each
function below returns, with its result, that the queue has not become heavier than what it was given.
-/
import SecureEndpoint.Work.Job

namespace SecureEndpoint.Work

/-- a dispatcher with the log of what ran and how many jobs were taken from it -/
structure Solo where
  dispatcher : Dispatcher (Job Empty) := {}
  log : List Note := []
  /-- the jobs posted so far, and those taken -/
  posted : Nat := 0
  taken : Nat := 0
  /-- what the loops returned so far, in the order in which they returned -/
  counts : List Nat := []

/-- how a loop or a job ended -/
inductive End (α : Type) where
  | returned (value : α)
  | panicked
  deriving DecidableEq, Repr

namespace Solo

/-- the weight of the waiting jobs -/
def weight (s : Solo) : Nat := s.dispatcher.weight

/-- adds a line to the log -/
def note (s : Solo) (n : Note) : Solo := { s with log := s.log ++ [n] }

/-- puts a job into the queue -/
def post (s : Solo) (j : Job Empty) : Solo := { s with dispatcher := s.dispatcher.post j, posted := s.posted + 1 }

/-- a loop returns a count -/
def count (s : Solo) (n : Nat) : Solo := { s with counts := s.counts ++ [n] }

/-- takes the next job out of the queue and notes that it begins -/
def take? (s : Solo) : Option (Job Empty × Solo) :=
  match s.dispatcher.take? with
  | none => none
  | some (j, d) =>
    some (j, { s with dispatcher := d, log := s.log ++ (if j.quiet then [] else [.ran j.id]), taken := s.taken + 1 })

theorem weight_take {s t : Solo} {j : Job Empty} (h : s.take? = some (j, t)) : t.weight + j.weight = s.weight := by
  unfold take? at h
  split at h
  · cases h
  · rename_i e
    cases h
    exact Dispatcher.weight_take e

mutual

/-- takes and runs jobs until none is ready; the number of jobs that this loop ran comes on top of `n` -/
def loop (s : Solo) (n : Nat) : { r : Solo × End Nat // r.1.weight ≤ s.weight } :=
  match h : s.take? with
  | none => ⟨(s.count n, .returned n), Nat.le_refl _⟩
  | some (j, t) =>
    have hw := weight_take h
    match perform j.id j.actions t with
    | ⟨(u, .panicked), hu⟩ => ⟨(u, .panicked), by simp only [Job.weight] at hw hu ⊢; omega⟩
    | ⟨(u, .returned ()), hu⟩ =>
      have hu' : u.weight < s.weight := by simp only [Job.weight] at hw hu; omega
      match loop u (n + 1) with
      | ⟨r, hr⟩ => ⟨r, by omega⟩
termination_by s.weight
decreasing_by
  · simp only [Job.weight] at hw; omega
  · exact hu'

/-- takes and runs at most one job -/
def once (s : Solo) : { r : Solo × End Nat // r.1.weight ≤ s.weight } :=
  match h : s.take? with
  | none => ⟨(s.count 0, .returned 0), Nat.le_refl _⟩
  | some (j, t) =>
    have hw := weight_take h
    match perform j.id j.actions t with
    | ⟨(u, .panicked), hu⟩ => ⟨(u, .panicked), by simp only [Job.weight] at hw hu ⊢; omega⟩
    | ⟨(u, .returned ()), hu⟩ => ⟨(u.count 1, .returned 1), by simp only [Job.weight, count, weight] at hw hu ⊢; omega⟩
termination_by s.weight
decreasing_by simp only [Job.weight] at hw; omega

/-- performs the actions of the job `id` -/
def perform (id : String) (actions : List (Action Empty)) (s : Solo) :
    { r : Solo × End Unit // r.1.weight ≤ weights actions + s.weight } :=
  match actions with
  | [] => ⟨(s, .returned ()), Nat.le_add_left ..⟩
  | .post name inner :: rest =>
    have hp : (s.post ⟨name, inner, false⟩).weight = s.weight + (1 + weights inner) := Dispatcher.weight_post ..
    match perform id rest (s.post ⟨name, inner, false⟩) with
    | ⟨r, hr⟩ => ⟨r, by simp only [weights, Action.weight]; omega⟩
  | .poll :: rest =>
    match loop s 0 with
    | ⟨(t, .panicked), ht⟩ => ⟨(t, .panicked), by dsimp only at ht ⊢; omega⟩
    | ⟨(t, .returned n), ht⟩ =>
      match perform id rest (t.note (.result id "poll" (toString n))) with
      | ⟨r, hr⟩ => ⟨r, by simp only [weights]; simp only [note, weight] at *; omega⟩
  | .pollOne :: rest =>
    match once s with
    | ⟨(t, .panicked), ht⟩ => ⟨(t, .panicked), by dsimp only at ht ⊢; omega⟩
    | ⟨(t, .returned n), ht⟩ =>
      match perform id rest (t.note (.result id "poll_one" (toString n))) with
      | ⟨r, hr⟩ => ⟨r, by simp only [weights]; simp only [note, weight] at *; omega⟩
  | .pending :: rest =>
    match perform id rest (s.note (.result id "pending" (toString s.dispatcher.queue.length))) with
    | ⟨r, hr⟩ => ⟨r, by simp only [weights]; simp only [note, weight] at *; omega⟩
  | .stopped :: rest =>
    match perform id rest (s.note (.result id "stopped" (toString s.dispatcher.stopped))) with
    | ⟨r, hr⟩ => ⟨r, by simp only [weights]; simp only [note, weight] at *; omega⟩
  | .stop :: rest =>
    match perform id rest { s with dispatcher := s.dispatcher.stop } with
    | ⟨r, hr⟩ => ⟨r, by simp only [weights]; simp only [weight, Dispatcher.weight, Dispatcher.stop] at *; omega⟩
  | .restart :: rest =>
    match perform id rest { s with dispatcher := s.dispatcher.restart } with
    | ⟨r, hr⟩ => ⟨r, by simp only [weights]; simp only [weight, Dispatcher.weight, Dispatcher.restart] at *; omega⟩
  | .panic :: _ => ⟨(s, .panicked), Nat.le_add_left ..⟩
  | .other k :: _ => k.elim
termination_by weights actions + s.weight
decreasing_by
  · simp only [weights, Action.weight]; omega
  · simp only [weights, Action.weight]; omega
  · simp only [weights, Action.weight]; simp only [note, weight] at *; omega
  · simp only [weights, Action.weight]; omega
  · simp only [weights, Action.weight]; simp only [note, weight] at *; omega
  · simp only [weights, Action.weight]; simp only [note, weight] at *; omega
  · simp only [weights, Action.weight]; simp only [note, weight] at *; omega
  · simp only [weights, Action.weight]; simp only [weight, Dispatcher.weight, Dispatcher.stop] at *; omega
  · simp only [weights, Action.weight]; simp only [weight, Dispatcher.weight, Dispatcher.restart] at *; omega

end

/-- takes and runs jobs until none is ready -/
def poll (s : Solo) : Solo × End Nat := (s.loop 0).1

/-- takes and runs at most one job -/
def pollOne (s : Solo) : Solo × End Nat := s.once.1

/-- a run that would wait for work forever, and is stopped once it does -/
structure RunCount where
  count : Nat
  /-- the run was idle and had to be stopped -/
  blocked : Bool
  deriving DecidableEq, Repr

/-- runs jobs until the dispatcher is stopped; when nothing is left to run, it is stopped from outside -/
def runUntilIdle (s : Solo) : Solo × End RunCount :=
  match s.poll with
  | (t, .panicked) => (t, .panicked)
  | (t, .returned n) =>
    if t.dispatcher.stopped then (t, .returned ⟨n, false⟩)
    else ({ t with dispatcher := t.dispatcher.stop }, .returned ⟨n, true⟩)

end Solo

end SecureEndpoint.Work
