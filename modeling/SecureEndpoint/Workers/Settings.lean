/-
The settings of a worker pool and how they are read from a JSON document.

Only the number of workers has to be given. A pool starts at once unless told otherwise, and its workers are named after
a common stem, `pool-worker` if none is given.
-/
import SecureEndpoint.Json.Record
import SecureEndpoint.Workers.Error

namespace SecureEndpoint

/-- the settings of a worker pool -/
structure PoolSettings where
  size : Nat
  deferStart : Bool := false
  threadName : Option String := none
  deriving DecidableEq, Repr

namespace PoolSettings

/-- the fields of a settings document -/
def shape : Json.Shape where
  title := "PoolSettings"
  fields := [
    ⟨"thread-pool-size", .count, none⟩,
    ⟨"defer-start", .flag, some (.flag false)⟩,
    ⟨"thread-name", .text "a string", some .null⟩]

/-- the settings that the values of the fields stand for -/
def ofScalars? : List Json.Scalar → Option PoolSettings
  | [.count n, .flag d, .text t] => some ⟨n, d, some t⟩
  | [.count n, .flag d, .null] => some ⟨n, d, none⟩
  | _ => none

/-- reads settings from a JSON document -/
def ofJson (text : String) : Except PoolError PoolSettings :=
  match shape.parse text with
  | .error t => .error (.badSettings t)
  | .ok vs => (ofScalars? vs).elim (.error (.badSettings "")) .ok

/-- the stem of the workers' names -/
def stem (s : PoolSettings) : String := s.threadName.getD "pool-worker"

end PoolSettings

end SecureEndpoint
