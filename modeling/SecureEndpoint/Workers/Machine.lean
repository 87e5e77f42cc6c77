/-
A worker pool, its dispatcher and every thread that uses them, at the granularity of single steps on locks, on the
shared stage and on condition variables.

There are three locks: one over the join handles of the workers (`handles`), one over the parking counters (`parking`)
and one over the queue of the dispatcher (`queue`). A stage is read and swapped without a lock. Workers that are paused
sleep until they are told that the pool was resumed; callers that wait for the pause to take effect sleep until they are
told that somebody parked; workers without a job sleep until they are told that one is ready.

A thread is a stack of activations (`Frame`), the innermost first. Each frame says at which place of its operation it
stands; a job that drives the dispatcher, or controls the pool, from inside has the frames of that on top of its own.
`Shared` is everything that is not private to a thread. `Machine` is the shared part with all threads.
-/
import SecureEndpoint.Work.Job
import SecureEndpoint.Workers.Error
import SecureEndpoint.Lifecycle.Cell

namespace SecureEndpoint.Workers

open Work (Note Action)

/-- threads are numbered in the order of their creation -/
abbrev ThreadId := Nat

/-- what a job can do beside driving the dispatcher -/
inductive PoolAction where
  /-- log the name of the thread -/
  | name
  | start
  | pause
  | resume
  | stop
  /-- log the stage of the pool -/
  | stage
  /-- wait for the pause to take effect, at most so many milliseconds, and log whether it did -/
  | waitPaused (limit : Nat)
  /-- wait until this many jobs have come here -/
  | meet (n : Nat)
  /-- wait until the gate is open -/
  | hold (gate : String)
  /-- give up the last handle of the pool -/
  | dropPool
  deriving DecidableEq, Repr

/-- a job of the pool's dispatcher -/
abbrev PoolJob := Work.Job PoolAction

/-! ## Places -/

/-- what is asked of the dispatcher -/
inductive Question where
  | pending
  | stopped
  | description
  deriving DecidableEq, Repr

/-- posting a job: take the queue lock, push and release, tell one sleeper -/
inductive PostPlace where
  | want
  | push
  | tell
  deriving DecidableEq, Repr

/-- a single access under the queue lock: take it, then do the work and release -/
inductive AccessPlace where
  | want
  | locked
  deriving DecidableEq, Repr

/-- stopping the dispatcher: take the queue lock, set the flag and release, tell all sleepers -/
inductive HaltPlace where
  | want
  | locked
  | tell
  deriving DecidableEq, Repr

/-- how the dispatcher is driven -/
inductive DriveMode where
  /-- until it is stopped; sleep while there is no job -/
  | run
  /-- until no job is ready -/
  | poll
  /-- at most one job -/
  | pollOne
  deriving DecidableEq, Repr

/-- taking the next job -/
inductive DrivePlace where
  /-- wants the queue lock -/
  | want
  /-- holds the queue lock: take a job, give up, or fall asleep -/
  | look
  /-- sleeps until a job is ready; told to wake up or not yet -/
  | asleep (woken : Bool)
  /-- the job that was taken is running -/
  | inJob
  deriving DecidableEq, Repr

/-- the life of a worker -/
inductive WorkerPlace where
  /-- wants the parking lock for the first time -/
  | enter
  /-- holds the parking lock: counts itself as live and releases -/
  | entered
  /-- reads the stage and acts on it -/
  | observe
  /-- wants the parking lock to park -/
  | parkWant
  /-- holds the parking lock: reads the stage again -/
  | parkCheck
  /-- holds the parking lock: counts itself as parked -/
  | parkCount
  /-- holds the parking lock: tells those who wait for the pause -/
  | parkTell
  /-- holds the parking lock: falls asleep, which releases it -/
  | parkSleep
  /-- sleeps; told to wake up or not yet -/
  | asleep (woken : Bool)
  /-- holds the parking lock: counts itself out of the parked and releases -/
  | unpark
  /-- wants the parking lock for the last time -/
  | leaveWant
  /-- holds the parking lock: counts itself out of the live and releases -/
  | leaving
  /-- tells those who wait for the pause -/
  | leaveTell
  deriving DecidableEq, Repr

/-- starting the pool -/
inductive StartPlace where
  /-- wants the handles lock -/
  | wantHandles
  /-- holds the handles lock, wants the parking lock -/
  | wantParking
  /-- holds both: reads the stage -/
  | read
  /-- holds both: swaps the stage -/
  | swap (seen next : Stage)
  /-- holds both: remembers how many workers there will be; the dispatcher is restarted -/
  | mark
  /-- holds both: releases the parking lock -/
  | release
  /-- holds the handles lock: creates the worker of this index -/
  | spawn (index : Nat)
  /-- a thread could not be created: the pool is stopped -/
  | undo (cause : Host.OsError)
  /-- reports the failure -/
  | failed (cause : Host.OsError)
  deriving DecidableEq, Repr

/-- a transition of the stage under the parking lock, with what has to be done once it is made -/
inductive PausePlace where
  | want
  | read
  | swap (seen next : Stage)
  /-- the dispatcher was stopped: release -/
  | release
  deriving DecidableEq, Repr

/-- resuming the pool -/
inductive ResumePlace where
  | want
  /-- reads the stage; outside of paused nothing is done -/
  | read
  /-- the dispatcher was restarted: reads the stage again -/
  | reread
  | swap (seen next : Stage)
  /-- tells the parked workers -/
  | tell
  /-- the dispatcher was stopped again because the stage had changed -/
  | refused (at_ : Stage)
  /-- release -/
  | release
  deriving DecidableEq, Repr

/-- moving to the last stage -/
inductive ShutdownPlace where
  | want
  | read
  | swap (seen next : Stage)
  /-- wants the queue lock to ask whether the dispatcher is stopped -/
  | ask
  /-- has the answer: stops the dispatcher if need be -/
  | answered (stopped : Bool)
  /-- tells the parked workers -/
  | tellResumed
  /-- tells those who wait for the pause, and releases -/
  | tellParked
  deriving DecidableEq, Repr

/-- stopping the pool -/
inductive StopPlace where
  /-- wants the handles lock to see whether it runs on a worker -/
  | want
  /-- holds the handles lock -/
  | own
  /-- moves to the last stage -/
  | shut
  /-- has done so, or was refused -/
  | shutDone (won : Bool)
  /-- holds the handles lock: takes the handles and releases -/
  | collect
  /-- waits for these workers to end -/
  | join (rest : List ThreadId)
  /-- wants the parking lock to settle -/
  | settleWant
  | settleRead
  | settleSwap (seen next : Stage)
  /-- holds the parking lock: nobody is spawned any more; release -/
  | settled
  deriving DecidableEq, Repr

/-- waiting for the pause to take effect -/
inductive WaitPlace where
  | want
  /-- holds the parking lock: reads the stage -/
  | check
  /-- holds the parking lock: compares the counters -/
  | compare
  | asleep (woken : Bool)
  deriving DecidableEq, Repr

/-- giving up the last handle of the pool -/
inductive DropPlace where
  /-- reads the stage -/
  | read
  /-- wants the handles lock to see whether it runs on a worker -/
  | want
  | own
  /-- the pool is stopped like by anybody else -/
  | stopping
  /-- on a worker: the pool moves to the last stage -/
  | shut
  | shutDone (won : Bool)
  /-- holds the handles lock: lets the workers go and releases -/
  | collect
  deriving DecidableEq, Repr

/-- waiting for other jobs -/
inductive MeetPlace where
  | arriving
  | waiting
  | released
  deriving DecidableEq, Repr

/-! ## Frames -/

/-- what an activation returns to the one below -/
inductive Value where
  | unit
  | count (n : Nat)
  | flag (b : Bool)
  | text (s : String)
  | started (r : Except PoolError Unit)

/-- an activation of an operation, and where it stands -/
inductive Frame where
  | worker (index : Nat) (p : WorkerPlace)
  | drive (mode : DriveMode) (count : Nat) (p : DrivePlace)
  /-- a job: the result of the last action if it has to be logged, and the actions that remain -/
  | job (id : String) (due : Option (String × Option Value)) (rest : List (Action PoolAction))
  | post (j : PoolJob) (p : PostPlace)
  | ask (q : Question) (p : AccessPlace)
  | halt (p : HaltPlace)
  | revive (p : AccessPlace)
  | start (p : StartPlace)
  | pause (p : PausePlace)
  | resume (p : ResumePlace)
  | shutdown (p : ShutdownPlace)
  | stop (p : StopPlace)
  /-- the limit in milliseconds, and whether it has passed -/
  | waitPaused (limit : Nat) (expired : Bool) (p : WaitPlace)
  | drop (p : DropPlace)
  | meet (n : Nat) (p : MeetPlace)
  | hold (gate : String)

/-! ## Threads and what they share -/

/-- what became of a thread -/
inductive Life where
  | active
  | finished
  /-- a panic ended it -/
  | died
  deriving DecidableEq, Repr

/-- a thread -/
structure Thread where
  /-- the index of a worker; none for a thread from outside -/
  worker : Option Nat
  life : Life := .active
  stack : List Frame
  /-- what the last call of a thread from outside returned; none inside it: the call panicked -/
  outcome : Option (Option Value) := none

/-- a call that the pool makes on its dispatcher -/
inductive DispatcherCall where
  | stop
  | restart
  deriving DecidableEq, Repr

/-- something worth a line in the diagnostics -/
inductive Event where
  | started (size : Nat)
  | spawnFailed (cause : Host.OsError) (index : Nat)
  | paused
  | pauseIgnored (at_ : Stage)
  | resumed
  | resumeIgnored (at_ : Stage)
  | stopOnWorker
  | stopInProgress (at_ : Stage)
  | workerPanicked (name : String)
  | settleFailed (at_ : Stage)
  | stopped
  | detached (n : Nat)
  | observedStopped
  deriving DecidableEq, Repr

/-- the line of an event: its level, its message and its fields -/
def Event.text : Event → String
  | .started n => "INFO thread pool started pool_size=" ++ toString n
  | .spawnFailed e i => "ERROR failed to spawn worker thread error=" ++ e.message ++ " index=" ++ toString i
  | .paused => "DEBUG thread pool paused"
  | .pauseIgnored g => "DEBUG pause ignored state=" ++ g.name
  | .resumed => "DEBUG thread pool resumed"
  | .resumeIgnored g => "DEBUG resume ignored state=" ++ g.name
  | .stopOnWorker => "ERROR thread pool cannot be stopped from one of its own worker threads"
  | .stopInProgress g => "DEBUG stop already in progress state=" ++ g.name
  | .workerPanicked name => "WARN worker thread panicked thread=" ++ name
  | .settleFailed g => "ERROR thread pool failed to settle after shutdown state=" ++ g.name
  | .stopped => "INFO thread pool stopped"
  | .detached n => "WARN thread pool dropped on one of its workers, threads detached detached=" ++ toString n
  | .observedStopped => "ERROR worker thread observed STOPPED run state, exiting"

/-- the three locks -/
inductive Lock where
  | handles
  | parking
  | queue
  deriving DecidableEq, Repr

/-- everything that is not private to a thread -/
structure Shared where
  /-- the number of workers of a running pool -/
  size : Nat
  /-- the names of the workers begin with this -/
  stem : String
  /-- the dispatcher is the queue; any other only records how it is called, and may do as it likes inside its loops -/
  dispatches : Bool := true
  stage : Stage := .stopped
  /-- workers asleep until the pool is resumed -/
  parked : Nat := 0
  /-- workers that have counted themselves in and not yet out -/
  live : Nat := 0
  /-- workers of the last start, until the pool settles -/
  spawned : Nat := 0
  /-- the workers that somebody has still to join -/
  handles : List ThreadId := []
  dispatcher : Work.Dispatcher PoolJob := {}
  handlesOwner : Option ThreadId := none
  parkingOwner : Option ThreadId := none
  queueOwner : Option ThreadId := none
  /-- the open gates -/
  gates : List String := []
  log : List Note := []
  /-- the calls on the dispatcher, in order -/
  calls : List DispatcherCall := []
  events : List (ThreadId × Event) := []
  /-- the jobs posted and the jobs taken, in order -/
  posted : List PoolJob := []
  taken : List PoolJob := []

namespace Shared

/-- who holds a lock -/
def owner (s : Shared) : Lock → Option ThreadId
  | .handles => s.handlesOwner
  | .parking => s.parkingOwner
  | .queue => s.queueOwner

/-- gives a lock to a thread, or to nobody -/
def setOwner (s : Shared) (l : Lock) (o : Option ThreadId) : Shared :=
  match l with
  | .handles => { s with handlesOwner := o }
  | .parking => { s with parkingOwner := o }
  | .queue => { s with queueOwner := o }

/-- takes a lock that nobody holds -/
def acquire? (s : Shared) (l : Lock) (t : ThreadId) : Option Shared :=
  if s.owner l = none then some (s.setOwner l (some t)) else none

/-- gives a lock back -/
def release (s : Shared) (l : Lock) : Shared := s.setOwner l none

/-- gives back every lock of a thread -/
def releaseAll (s : Shared) (t : ThreadId) : Shared :=
  { s with
    handlesOwner := if s.handlesOwner = some t then none else s.handlesOwner
    parkingOwner := if s.parkingOwner = some t then none else s.parkingOwner
    queueOwner := if s.queueOwner = some t then none else s.queueOwner }

/-- records an event of a thread -/
def emit (s : Shared) (t : ThreadId) (e : Event) : Shared := { s with events := s.events ++ [(t, e)] }

/-- adds a line to the log -/
def note (s : Shared) (n : Note) : Shared := { s with log := s.log ++ [n] }

/-- the name of the worker of an index -/
def workerName (s : Shared) (index : Nat) : String := s.stem ++ "-" ++ toString index

end Shared

/-- the shared part with all threads -/
structure Machine where
  shared : Shared
  threads : List Thread := []

end SecureEndpoint.Workers
