/-
Jobs as finite programs.

A job has a name and a finite list of actions. An action can post another job, drive the dispatcher from inside, ask it
something, stop or restart it, or panic; what a job can do beside that is left open (`κ`).

`Job.weight` counts the actions of a job and of everything it will post: taking a job always makes the total smaller.
-/
import SecureEndpoint.Work.Dispatcher

namespace SecureEndpoint.Work

/-- what a job does -/
inductive Action (κ : Type) where
  /-- post a job of this name with these actions -/
  | post (id : String) (actions : List (Action κ))
  /-- take and run jobs until none is ready -/
  | poll
  /-- take and run at most one job -/
  | pollOne
  /-- how many jobs wait -/
  | pending
  /-- is the dispatcher stopped -/
  | stopped
  | stop
  | restart
  | panic
  /-- something outside the dispatcher -/
  | other (k : κ)

/-- a posted job -/
structure Job (κ : Type) where
  id : String
  actions : List (Action κ)
  /-- the job leaves no line of its own in the log -/
  quiet : Bool := false

/-- a line of the log that jobs keep -/
inductive Note where
  /-- a job began -/
  | ran (id : String)
  /-- an action of a job had this result; the text is its printed form -/
  | result (id : String) (action : String) (text : String)
  deriving DecidableEq, Repr

/-- the printed form of a line of the log -/
def Note.text : Note → String
  | .ran id => id
  | .result id action text => id ++ ":" ++ action ++ "=" ++ text

mutual

/-- the actions of an action: one for itself, and those of the job that it posts -/
def Action.weight {κ : Type} : Action κ → Nat
  | .post _ actions => 2 + weights actions
  | _ => 1

/-- the actions of a list of actions -/
def weights {κ : Type} : List (Action κ) → Nat
  | [] => 0
  | a :: rest => a.weight + weights rest

end

/-- a job counts one for being taken, and its actions -/
def Job.weight {κ : Type} (j : Job κ) : Nat := 1 + weights j.actions

/-- the weight of the jobs of a queue -/
def queueWeight {κ : Type} : List (Job κ) → Nat
  | [] => 0
  | j :: q => j.weight + queueWeight q

theorem queueWeight_append {κ : Type} (q r : List (Job κ)) : queueWeight (q ++ r) = queueWeight q + queueWeight r := by
  induction q with
  | nil => simp [queueWeight]
  | cons j q ih => simp [queueWeight, ih, Nat.add_assoc]

namespace Dispatcher

variable {κ : Type}

/-- the weight of the waiting jobs -/
def weight (d : Dispatcher (Job κ)) : Nat := queueWeight d.queue

theorem weight_post (d : Dispatcher (Job κ)) (j : Job κ) : (d.post j).weight = d.weight + j.weight := by
  simp [weight, post, queueWeight_append, queueWeight]

theorem weight_take {d e : Dispatcher (Job κ)} {j : Job κ} (h : d.take? = some (j, e)) :
    e.weight + j.weight = d.weight := by
  unfold take? at h
  split at h
  · cases h
  · split at h
    · cases h
    · rename_i e
      cases h
      simp [weight, e, queueWeight]
      omega

end Dispatcher

end SecureEndpoint.Work
