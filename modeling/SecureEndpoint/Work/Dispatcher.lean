/-
The dispatcher that keeps jobs in a queue.

It holds the jobs that were posted and not yet taken, in order, and a flag that keeps everybody from taking one.
-/

namespace SecureEndpoint.Work

/-- the jobs that wait, and whether they are held back -/
structure Dispatcher (J : Type) where
  queue : List J := []
  stopped : Bool := false

namespace Dispatcher

variable {J : Type}

/-- puts a job behind the others -/
def post (d : Dispatcher J) (j : J) : Dispatcher J := { d with queue := d.queue ++ [j] }

/-- holds the jobs back -/
def stop (d : Dispatcher J) : Dispatcher J := { d with stopped := true }

/-- lets the jobs be taken again -/
def restart (d : Dispatcher J) : Dispatcher J := { d with stopped := false }

/-- the job that is next, with the dispatcher without it; none while stopped -/
def take? (d : Dispatcher J) : Option (J × Dispatcher J) :=
  if d.stopped then none
  else match d.queue with
    | [] => none
    | j :: rest => some (j, { d with queue := rest })

/-- the dispatcher in words -/
def describe (d : Dispatcher J) : String :=
  "IoService \x7b pending: " ++ toString d.queue.length ++ ", stopped: " ++ toString d.stopped ++ " \x7d"

end Dispatcher

end SecureEndpoint.Work
