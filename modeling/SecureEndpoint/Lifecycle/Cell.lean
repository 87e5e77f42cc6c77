/-
A stage shared by many threads and changed by compare-and-swap.

An attempt reads the cell, looks the change up in the table, and swaps the new stage in only if the cell still holds
what was read. A swap that finds another stage goes on with that stage, so an attempt ends either with the change made
or with a stage from which the table refuses it.

`Stage.attempt` is one attempt that nobody disturbs. `Crowd` is any number of callers, each with a list of changes to
make, at the granularity of single reads and swaps; `Crowd.step` moves one caller on, and `Crowd.run` follows a
schedule. `Crowd.race` lets `n` callers attempt one change after all of them have read the cell.
-/
import SecureEndpoint.Lifecycle.Stage

namespace SecureEndpoint

/-- what an attempt at a change came to -/
inductive Outcome where
  /-- the change was made -/
  | made (source target : Stage)
  /-- the change was not legal from this stage, which is left as it was -/
  | refused (at_ : Stage)
  deriving DecidableEq, Repr

/-- an attempt that nobody disturbs: what it came to, and the stage afterwards -/
def Stage.attempt (g : Stage) (c : Change) : Outcome × Stage :=
  match g.after? c with
  | some next => (.made g next, next)
  | none => (.refused g, g)

/-- a caller of the shared cell: what it has still to attempt, the attempt it is in, what its attempts came to -/
structure Caller where
  todo : List Change
  /-- the change under way, with the stage last seen and the stage to swap in -/
  swapping : Option (Change × Stage × Stage) := none
  results : List (Change × Outcome) := []
  deriving DecidableEq, Repr

/-- the cell and everybody who uses it -/
structure Crowd where
  value : Stage
  callers : List Caller
  deriving DecidableEq, Repr

namespace Caller

/-- goes on with the stage just seen: refuse the change, or get ready to swap -/
def decide (k : Caller) (c : Change) (seen : Stage) : Caller :=
  match seen.after? c with
  | some next => { k with swapping := some (c, seen, next) }
  | none => { k with swapping := none, results := k.results ++ [(c, .refused seen)] }

/-- one atomic access to the cell: a read that begins the next attempt, or the swap of the attempt under way -/
def step (value : Stage) (k : Caller) : Stage × Caller :=
  match k.swapping with
  | some (c, seen, next) =>
    if value = seen then (next, { k with swapping := none, results := k.results ++ [(c, .made seen next)] })
    else (value, k.decide c value)
  | none =>
    match k.todo with
    | [] => (value, k)
    | c :: rest => (value, { k with todo := rest }.decide c value)

/-- how many attempts were successful -/
def wins (k : Caller) : Nat :=
  k.results.countP fun r => match r.2 with
    | .made _ _ => true
    | .refused _ => false

end Caller

namespace Crowd

/-- one atomic access by caller `i` -/
def step (w : Crowd) (i : Nat) : Crowd :=
  match w.callers[i]? with
  | none => w
  | some k =>
    let (value, k') := k.step w.value
    { value, callers := w.callers.set i k' }

/-- follows a schedule, which names the caller of each access -/
def run (w : Crowd) (schedule : List Nat) : Crowd := schedule.foldl step w

/-- `n` callers that each attempt the same change once -/
def racing (g : Stage) (c : Change) (n : Nat) : Crowd := ⟨g, List.replicate n { todo := [c] }⟩

/-- all callers read before the first of them swaps -/
def race (g : Stage) (c : Change) (n : Nat) : Crowd :=
  (racing g c n).run (List.range n ++ List.range n)

/-- how many attempts were successful, over all callers -/
def wins (w : Crowd) : Nat := w.callers.foldr (fun k n => k.wins + n) 0

end Crowd

end SecureEndpoint
