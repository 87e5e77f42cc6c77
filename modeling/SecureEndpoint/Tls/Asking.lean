/-
Many callers that ask a live context for its handle.

A caller looks whether there is a handle. If there is none it makes one of its own, and then settles: the first to settle
has its handle kept, everybody who settles later drops his own and gets the one that is kept. Between these steps other
callers may move and calls may change the context. `Inquiry.step` makes one step, `Inquiry.run` a list of them.
-/
import SecureEndpoint.Tls.Live

namespace SecureEndpoint.Tls

open Host (Files)

/-- a caller that asks for the handle -/
inductive Asking where
  /-- has not looked yet -/
  | starting
  /-- found no handle and made this one -/
  | settling (own : LiveHandle)
  /-- got this handle -/
  | answered (h : LiveHandle)
  deriving DecidableEq, Repr

/-- a live context with everybody who asks for its handle -/
structure Inquiry where
  context : LiveContext
  callers : List Asking := []
  /-- the serial number of the next handle to be made -/
  nextSerial : Nat := 0
  deriving DecidableEq, Repr

/-- what can happen next -/
inductive InquiryMove where
  /-- a call on the context; it may fail -/
  | call (files : Files) (x : Call)
  /-- one more caller asks for the handle -/
  | ask
  /-- a caller takes its next step -/
  | advance (caller : Nat)

namespace Inquiry

/-- a context that nobody has asked yet -/
def start (role : Role) : Inquiry := { context := { role } }

/-- the next step of a caller -/
def advance (q : Inquiry) (i : Nat) : Inquiry :=
  match q.callers[i]? with
  | some .starting =>
    match q.context.made with
    | some h => { q with callers := q.callers.set i (.answered h) }
    | none =>
      { q with
        callers := q.callers.set i (.settling (q.context.build q.nextSerial))
        nextSerial := q.nextSerial + 1 }
  | some (.settling own) =>
    let (h, c) := q.context.settle own
    { q with context := c, callers := q.callers.set i (.answered h) }
  | _ => q

/-- one step -/
def step (q : Inquiry) : InquiryMove → Inquiry
  | .call files x => { q with context := (attempt files q.context x).1 }
  | .ask => { q with callers := q.callers ++ [.starting] }
  | .advance i => q.advance i

/-- a list of steps -/
def run (q : Inquiry) (moves : List InquiryMove) : Inquiry := moves.foldl step q

/-- the handles that callers got -/
def answers (q : Inquiry) : List LiveHandle :=
  q.callers.filterMap fun
    | .answered h => some h
    | _ => none

end Inquiry

end SecureEndpoint.Tls
