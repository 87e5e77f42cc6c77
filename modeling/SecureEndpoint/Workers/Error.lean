/-
What can go wrong with a worker pool: a setting that cannot be used, a start from the wrong stage, a thread that cannot
be created. `PoolError.message` words the causes and `PoolError.category` sorts them into three.
-/
import SecureEndpoint.Lifecycle.Stage
import SecureEndpoint.Host.OsError

namespace SecureEndpoint

/-- why a worker pool refuses a request -/
inductive PoolError where
  /-- the settings cannot be read; what is wrong with them -/
  | badSettings (detail : String)
  /-- a pool needs at least one worker -/
  | noWorkers
  /-- only a stopped pool can be started -/
  | notStopped (stage : Stage)
  /-- the operating system does not create a thread -/
  | spawn (cause : Host.OsError)
  deriving DecidableEq, Repr

namespace PoolError

/-- the printed name of the category -/
def category : PoolError → String
  | .badSettings _ | .noWorkers => "InvalidArgument"
  | .notStopped _ => "InvalidOperation"
  | .spawn _ => "Spawn"

/-- the wording of an error -/
def message : PoolError → String
  | .badSettings t => "invalid argument: bad thread pool settings: " ++ t
  | .noWorkers => "invalid argument: thread pool size must be greater than zero"
  | .notStopped g => "invalid operation: thread pool cannot be started from state " ++ g.name
  | .spawn e => "unable to spawn worker thread: " ++ e.message

end PoolError

end SecureEndpoint
