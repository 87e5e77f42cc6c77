/-
A channel driven step by step by one thread.

The thread opens and closes the intake and takes jobs from the dispatcher itself; each of these runs to its end before
the next. A pool, if there is one, drives the dispatcher in the background: of it only the stage is kept.
-/
import SecureEndpoint.Channel.Intake
import SecureEndpoint.Channel.Ends
import SecureEndpoint.Lifecycle.Stage

namespace SecureEndpoint.Channel

open Host Tls

/-- a channel with the thread that drives it -/
structure Desk where
  machine : Machine := { threads := [.idle] }
  network : Network
  address : Address
  /-- the intake was not given up -/
  held : Bool := true
  /-- the stage of the pool -/
  pool : Option Stage := none

/-- what the thread does -/
inductive Request where
  | open
  | close
  /-- give up the intake -/
  | drop
  | pollOne
  | pending
  | dropDispatcher
  /-- listen at the same address again -/
  | listenAgain
  | dial
  /-- pause the pool and wait until it is paused -/
  | pause
  | resume
  | stop
  /-- start the pool again -/
  | restart
  deriving DecidableEq, Repr

/-- what the thread gets -/
inductive Reply where
  | ok
  | count (n : Nat)
  | flag (b : Bool)
  | failed (e : TransportError)
  /-- somebody was reached -/
  | reached
  deriving DecidableEq, Repr

namespace Desk

/-- the number of the thread -/
def self : ThreadId := 0

/-- the thread goes on for at most `n` steps -/
def proceed (m : Machine) : Nat → Machine
  | 0 => m
  | n + 1 =>
    match m.move (.step self {}) with
    | some next => proceed next n
    | none => m

/-- more steps than any operation has -/
def patience (m : Machine) : Nat := 8 + 2 * m.intake.waiting.length

/-- an operation from its beginning to its end -/
def perform (d : Desk) (x : Move) : Desk :=
  match d.machine.move x with
  | some m => { d with machine := proceed m (patience m) }
  | none => d

/-- takes and runs at most one job -/
def pollOne (d : Desk) : Desk × Nat :=
  match d.machine.move (.take self) with
  | some m => ({ d with machine := proceed m (patience m) }, 1)
  | none => (d, 0)

/-- a change of the stage of the pool, where it is allowed -/
def change (d : Desk) (c : Change) : Desk := { d with pool := d.pool.map fun g => (g.after? c).getD g }

/-- the pool is in a stage -/
def poolIs (d : Desk) (g : Stage) : Bool := d.pool == some g

/-- does what is asked -/
def answer (d : Desk) : Request → Desk × Reply
  | .open => (d.perform (.callOpen self), .ok)
  | .close => (d.perform (.callClose self), .ok)
  | .drop => ({ d.perform (.callClose self) with held := false }, .ok)
  | .pollOne => let (d, n) := d.pollOne; (d, .count n)
  | .pending => (d, .count d.machine.intake.dispatcher.queue.length)
  | .dropDispatcher => (d.perform .dropDispatcher, .ok)
  | .listenAgain => (d, .flag (!d.machine.intake.listening && (d.network.listen d.address).toOption.isSome))
  | .dial =>
    match reach d.network d.address with
    | .error e => (d, .failed e)
    | .ok () => (d, .reached)
  | .pause => let d := d.change .pause; (d, .flag (d.poolIs .paused))
  | .resume => (d.change .resume, .ok)
  | .stop => ((d.change .shutdown).change .settle, .ok)
  | .restart => (d.change .start, .flag (d.poolIs .stopped))

/-- the intake is open, as long as it is held -/
def isOpen? (d : Desk) : Option Bool := if d.held then some d.machine.intake.isOpen else none

end Desk

end SecureEndpoint.Channel
