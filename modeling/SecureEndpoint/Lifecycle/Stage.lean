/-
The life of a worker pool: four stages and the changes that lead from one to another.

    stopped --start--> running <--resume-- / --pause--> paused
    running, paused --shutdown--> closing --settle--> stopped

`Stage.after?` is the whole table. A change that the table does not list is refused and leaves the stage as it was.
-/

namespace SecureEndpoint

/-- where a worker pool is in its life -/
inductive Stage where
  /-- there are no workers -/
  | stopped
  /-- the workers drive the reactor -/
  | running
  /-- the workers are parked and the reactor is stopped -/
  | paused
  /-- the workers are leaving and are being joined -/
  | closing
  deriving DecidableEq, Repr

/-- a requested change of stage -/
inductive Change where
  | start
  | pause
  | resume
  | shutdown
  | settle
  deriving DecidableEq, Repr

namespace Stage

/-- the stage that a change leads to, none where the change is not legal -/
def after? : Stage → Change → Option Stage
  | .stopped, .start => some .running
  | .running, .pause => some .paused
  | .paused, .resume => some .running
  | .running, .shutdown => some .closing
  | .paused, .shutdown => some .closing
  | .closing, .settle => some .stopped
  | _, _ => none

/-- worker threads may exist in every stage but the first -/
def hasThreads : Stage → Bool
  | .stopped => false
  | _ => true

/-- the number that a shared cell holds for a stage -/
def code : Stage → Nat
  | .stopped => 0
  | .running => 1
  | .paused => 2
  | .closing => 3

/-- the printed name of a stage -/
def name : Stage → String
  | .stopped => "STOPPED"
  | .running => "RUN"
  | .paused => "PAUSED"
  | .closing => "SHUTDOWN"

/-- every stage, in the order of the codes -/
def all : List Stage := [.stopped, .running, .paused, .closing]

/-- reads a printed name back -/
def ofName? (s : String) : Option Stage := all.find? fun g => g.name == s

theorem ofName?_name (g : Stage) : ofName? g.name = some g := by cases g <;> rfl

theorem code_injective {g h : Stage} (e : g.code = h.code) : g = h := by
  cases g <;> cases h <;> first | rfl | cases e

end Stage

/-- the printed name of a change -/
def Change.name : Change → String
  | .start => "Start"
  | .pause => "Pause"
  | .resume => "Resume"
  | .shutdown => "Shutdown"
  | .settle => "Settle"

/-- reads a change by its printed name -/
def Change.ofName? (s : String) : Option Change :=
  [Change.start, .pause, .resume, .shutdown, .settle].find? fun c => c.name == s

end SecureEndpoint
