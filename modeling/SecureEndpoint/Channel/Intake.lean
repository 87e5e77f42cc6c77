/-
How connections are taken in and served, at the granularity of single steps.

An intake has a flag that says whether it is open, a listening socket behind a lock, and a dispatcher whose threads do
its work. Opening sets the flag and posts a round. A round looks at the flag, takes the lock, waits a moment for
connections, accepts all that wait and posts a job for each of them, gives the lock back and posts the next round.
Closing clears the flag and then takes the listening socket away, for which it needs the lock. The job for a connection
prepares it, shakes hands and gives it to the handler; if something fails before, the connection is dropped.

`Place.step` is the next step of an operation, `Machine.move` a step of one thread or something that happens from outside:
a call, a thread that takes a job, a connection that comes in. Every interleaving is a list of moves. What the system
leaves open is in the `Choice` of a step. The journal is only written.

The dispatcher is shared with others, whose jobs wait among those of the intake. A thread inside of such a job, or inside of
the handler of a connection, counts as idle: there it may open and close the intake and take further jobs like any other.
-/
import SecureEndpoint.Work.Dispatcher

namespace SecureEndpoint.Channel

/-- connections are numbered in the order in which they come in -/
abbrev Connection := Nat

/-- threads are numbered in the order of their creation -/
abbrev ThreadId := Nat

/-- what the dispatcher is given to do -/
inductive Task where
  /-- accept what waits -/
  | round
  /-- serve an accepted connection -/
  | serve (c : Connection)
  /-- somebody else's job -/
  | other (n : Nat)
  deriving DecidableEq, Repr

/-- what happens to a connection on its way -/
inductive Mark where
  | accepted
  /-- the job that serves it was posted -/
  | posted
  /-- there was nobody to post that job to -/
  | lost
  /-- a thread took the job -/
  | taken
  | prepared
  | unprepared
  /-- the peers agreed -/
  | agreed
  | refused
  /-- it was given to the handler -/
  | handled
  deriving DecidableEq, Repr

/-- an operation, and where it stands -/
inductive Place where
  /-- opening: sets the flag -/
  | openFlag
  /-- opening: posts the first round -/
  | openPost
  /-- closing: clears the flag -/
  | closeFlag
  /-- closing: wants the lock, takes the listening socket away and gives the lock back -/
  | closeTake
  /-- a round: looks at the flag -/
  | roundCheck
  /-- a round: wants the lock and looks for the listening socket -/
  | roundLock
  /-- a round with the lock: waits a moment for connections -/
  | roundWait
  /-- a round with the lock: accepts the connection that came first -/
  | roundAccept
  /-- a round with the lock: posts the job for a connection -/
  | roundPost (c : Connection)
  /-- a round gives the lock back -/
  | roundRelease
  /-- a round posts the next one -/
  | roundAgain
  /-- serving: prepares the connection -/
  | servePrepare (c : Connection)
  /-- serving: shakes hands -/
  | serveShake (c : Connection)
  /-- serving: gives the connection to the handler -/
  | serveHandle (c : Connection)
  deriving DecidableEq, Repr

/-- how waiting for connections ends -/
inductive Wait where
  | ready
  | idle
  | failed
  deriving DecidableEq, Repr

/-- what the system decides about a step -/
structure Choice where
  wait : Wait := .ready
  /-- accepting fails -/
  acceptFails : Bool := false
  /-- the connection can be prepared -/
  prepared : Bool := true
  /-- the peers agree -/
  agreed : Bool := true
  /-- the handler panics -/
  panics : Bool := false
  deriving DecidableEq, Repr

/-- everything that is not private to a thread -/
structure Intake where
  isOpen : Bool := false
  /-- the listening socket is still there -/
  listening : Bool := true
  /-- who holds the lock over the listening socket -/
  owner : Option ThreadId := none
  /-- connections that nobody has accepted yet -/
  waiting : List Connection := []
  dispatcher : Work.Dispatcher Task := {}
  /-- the dispatcher still exists -/
  alive : Bool := true
  /-- a call to close has returned -/
  closed : Bool := false
  /-- what happened to connections so far -/
  journal : List (Mark × Connection) := []

namespace Intake

/-- posts a round, if there is somebody to post it to -/
def postRound (s : Intake) : Intake := if s.alive then { s with dispatcher := s.dispatcher.post .round } else s

/-- writes down what happened to a connection -/
def note (s : Intake) (k : Mark) (c : Connection) : Intake := { s with journal := s.journal ++ [(k, c)] }

/-- the connections to which something happened, in the order in which it did -/
def past (s : Intake) (k : Mark) : List Connection := s.journal.filterMap fun e => if e.1 = k then some e.2 else none

/-- posts the job for an accepted connection, which is dropped if there is nobody to post it to -/
def postServe (s : Intake) (c : Connection) : Intake :=
  if s.alive then { s with dispatcher := s.dispatcher.post (.serve c) }.note .posted c else s.note .lost c

/-- the next job, which is taken out of the queue -/
def take? (s : Intake) : Option (Task × Intake) :=
  match s.dispatcher.take? with
  | none => none
  | some (.serve c, d) => some (.serve c, { s with dispatcher := d }.note .taken c)
  | some (j, d) => some (j, { s with dispatcher := d })

end Intake

/-- what becomes of a thread after a step -/
inductive After where
  | go (p : Place)
  | rest
  /-- a panic ends the thread -/
  | die
  deriving DecidableEq, Repr

/-- the next step of an operation of thread `t`; a step that wants a lock which is taken is not possible -/
def Place.step (s : Intake) (t : ThreadId) (k : Choice) : Place → Option (Intake × After)
  | .openFlag => some (if s.isOpen then (s, .rest) else ({ s with isOpen := true }, .go .openPost))
  | .openPost => some (s.postRound, .rest)
  | .closeFlag => some ({ s with isOpen := false }, .go .closeTake)
  | .closeTake =>
    if s.owner = none then some ({ s with listening := false, waiting := [], closed := true }, .rest) else none
  | .roundCheck => some (s, if s.isOpen then .go .roundLock else .rest)
  | .roundLock =>
    if s.owner ≠ none then none
    else some (if s.listening then ({ s with owner := some t }, .go .roundWait) else (s, .rest))
  | .roundWait => some (s, .go (if k.wait = .ready then .roundAccept else .roundRelease))
  | .roundAccept =>
    match s.waiting with
    | [] => some (s, .go .roundRelease)
    | c :: rest =>
      if k.acceptFails then some (s, .go .roundRelease)
      else some ({ s with waiting := rest }.note .accepted c, .go (.roundPost c))
  | .roundPost c => some (s.postServe c, .go .roundAccept)
  | .roundRelease => some ({ s with owner := none }, .go .roundAgain)
  | .roundAgain => some (s.postRound, .rest)
  | .servePrepare c =>
    some (if k.prepared then (s.note .prepared c, .go (.serveShake c)) else (s.note .unprepared c, .rest))
  | .serveShake c => some (if k.agreed then (s.note .agreed c, .go (.serveHandle c)) else (s.note .refused c, .rest))
  | .serveHandle c => some (s.note .handled c, if k.panics then .die else .rest)

/-- a thread -/
inductive Thread where
  | idle
  | busy (p : Place)
  | dead
  deriving DecidableEq, Repr

/-- what a thread is after a step -/
def After.thread : After → Thread
  | .go p => .busy p
  | .rest => .idle
  | .die => .dead

/-- what a thread is that has taken a job -/
def Task.thread : Task → Thread
  | .round => .busy .roundCheck
  | .serve c => .busy (.servePrepare c)
  | .other _ => .idle

/-- the intake with all threads -/
structure Machine where
  intake : Intake := {}
  threads : List Thread := []

/-- something that happens -/
inductive Move where
  /-- a thread comes into being -/
  | enter
  /-- an idle thread opens the intake -/
  | callOpen (t : ThreadId)
  /-- an idle thread closes the intake -/
  | callClose (t : ThreadId)
  /-- an idle thread takes the next job -/
  | take (t : ThreadId)
  /-- a thread goes on -/
  | step (t : ThreadId) (k : Choice)
  /-- a connection comes in -/
  | connect (c : Connection)
  /-- somebody else posts a job -/
  | post (n : Nat)
  | stopDispatcher
  | restartDispatcher
  /-- the dispatcher and all jobs that wait in it are gone -/
  | dropDispatcher
  deriving DecidableEq, Repr

namespace Machine

/-- an idle thread turns to something -/
def begin (m : Machine) (t : ThreadId) (th : Thread) : Option Machine :=
  if m.threads[t]? = some .idle then some { m with threads := m.threads.set t th } else none

/-- what happens; nothing if it cannot happen now -/
def move (m : Machine) : Move → Option Machine
  | .enter => some { m with threads := m.threads ++ [.idle] }
  | .callOpen t => m.begin t (.busy .openFlag)
  | .callClose t => m.begin t (.busy .closeFlag)
  | .take t =>
    match m.intake.take? with
    | none => none
    | some (j, s) => { m with intake := s }.begin t j.thread
  | .step t k =>
    match m.threads[t]? with
    | some (.busy p) =>
      (p.step m.intake t k).map fun r => { m with intake := r.1, threads := m.threads.set t r.2.thread }
    | _ => none
  | .connect c =>
    if m.intake.listening then some { m with intake := { m.intake with waiting := m.intake.waiting ++ [c] } } else none
  | .post n => some { m with intake := { m.intake with dispatcher := m.intake.dispatcher.post (.other n) } }
  | .stopDispatcher => some { m with intake := { m.intake with dispatcher := m.intake.dispatcher.stop } }
  | .restartDispatcher => some { m with intake := { m.intake with dispatcher := m.intake.dispatcher.restart } }
  | .dropDispatcher => some { m with intake := { m.intake with dispatcher := {}, alive := false } }

/-- what happens one after the other; moves that are not possible are left out -/
def run (m : Machine) (moves : List Move) : Machine := moves.foldl (fun m x => (m.move x).getD m) m

end Machine

end SecureEndpoint.Channel
