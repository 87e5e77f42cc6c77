/-
A pool under a script: a thread from outside makes one request after another, and after each of them everybody else runs
until there is nothing left to do.

A `Bench` holds the pool with the dispatcher that it drives, and a second dispatcher where the pool was not given the one
that the script uses. `Bench.build` makes the pool, `Bench.perform` carries out one request. Some requests are made by
other threads: in the background, by several threads at once, or by a thread that cannot create threads.
-/
import SecureEndpoint.Workers.Schedule
import SecureEndpoint.Workers.Settings

namespace SecureEndpoint.Workers

open Work (Note)

/-- how a pool is made -/
structure Plan where
  /-- the number of workers and whether to start them later, or a settings document -/
  source : (Nat × Bool) ⊕ String
  /-- the dispatcher hands out jobs; one that does not only records how it is called -/
  dispatches : Bool := true
  /-- the pool makes a dispatcher of its own -/
  ownDispatcher : Bool := false
  /-- the pool is made by a thread that cannot create threads -/
  starved : Bool := false

/-- what can be asked of the pool by several threads at once -/
inductive Control where
  | start
  | pause
  | resume
  | stop
  deriving DecidableEq, Repr

/-- the call of a control -/
def Control.call : Control → Call
  | .start => .start
  | .pause => .pause
  | .resume => .resume
  | .stop => .stop

/-- a request of the script -/
inductive Request where
  /-- of the dispatcher -/
  | post (jobs : List PoolJob)
  | poll
  | pollOne
  | run
  | ask (q : Question)
  | halt
  | revive
  | log
  /-- of the pool -/
  | control (c : Control)
  | startStarved
  | waitPaused (limit : Nat)
  | drain
  | held (n : Nat)
  | openGate (gate : String)
  | stopInBackground
  | waitPausedInBackground (limit : Nat)
  | join
  | race (c : Control) (n : Nat)
  | drop
  | dropOnWorker

/-- what a request came to -/
inductive Reply where
  | ok
  | count (n : Nat)
  | flag (b : Bool)
  | text (s : String)
  | refused (e : PoolError)
  | panicked
  | noPool
  | run (count : Nat) (blocked : Bool)
  | notes (l : List Note)
  | drained (complete : Bool) (l : List Note)
  | raced (ok refused : Nat)
  | joined (l : List Reply)

/-- a pool under a script; the script's own thread is thread 0 of every machine -/
structure Bench where
  /-- the pool and its dispatcher -/
  pool : Machine
  /-- the dispatcher of the script, where the pool has its own -/
  aside : Option Machine
  hasPool : Bool
  /-- the threads that make calls in the background -/
  background : List ThreadId := []

namespace Bench

/-- the machine whose dispatcher the script uses -/
def desk (b : Bench) : Machine := b.aside.getD b.pool

/-- changes the machine whose dispatcher the script uses -/
def setDesk (b : Bench) (m : Machine) : Bench := if b.aside.isSome then { b with aside := some m } else { b with pool := m }

/-- a returned value as a reply -/
def reply : Option Value → Reply
  | none => .panicked
  | some .unit => .ok
  | some (.count n) => .count n
  | some (.flag b) => .flag b
  | some (.text s) => .text s
  | some (.started (.ok ())) => .ok
  | some (.started (.error e)) => .refused e

/-- a call of the script's own thread -/
def ownCall (m : Machine) (c : Call) : Machine × Reply :=
  let m := m.callAndReturn 0 [] c
  (m.settle, reply (m.outcome 0))

/-- a call of another thread, waited for -/
def otherCall (m : Machine) (starving : Bool) (c : Call) : Machine × Reply :=
  let (m, t) := m.enter
  let m := m.callAndReturn t (if starving then [t] else []) c
  (m.settle, reply (m.outcome t))

/-- so many workers' handles do not fit into the address space -/
def tooMany (size : Nat) : Bool := Nat.pow 2 63 ≤ size * 24

/-- the size, the stem of the names and the deferral that a plan asks for -/
def Plan.resolve (p : Plan) : Except PoolError (Nat × String × Bool) := do
  let s : PoolSettings ← match p.source with
    | .inl (size, defer) => .ok { size, deferStart := defer }
    | .inr text => PoolSettings.ofJson text
  if s.size = 0 then .error .noWorkers else .ok (s.size, s.stem, s.deferStart)

/-- a machine with the script's own thread -/
def attended (m : Machine) : Machine := m.enter.1

/-- makes the pool; a pool whose first start does not succeed is dropped again -/
def build (p : Plan) : Bench × Reply :=
  let lone := attended (Machine.fresh 0 "" p.dispatches)
  let nothing (r : Reply) : Bench × Reply := ({ pool := lone, aside := none, hasPool := false }, r)
  match Plan.resolve p with
  | .error e => nothing (.refused e)
  | .ok (size, stem, defer) =>
    if tooMany size then nothing .panicked else
    let m := attended (Machine.fresh size stem p.dispatches)
    let aside := if p.ownDispatcher then some lone else none
    if defer then ({ pool := m, aside, hasPool := true }, .ok) else
    let (m, r) := if p.starved then otherCall m true .start else ownCall m .start
    match r with
    | .ok => ({ pool := m, aside, hasPool := true }, .ok)
    | r =>
      let (m, _) := if p.starved then otherCall m true .drop else ownCall m .drop
      ({ pool := m, aside, hasPool := false }, r)

/-- the lines of the log, which is then emptied: in order for a single worker, else sorted -/
def takeNotes (b : Bench) : Bench × List Note :=
  let m := b.desk
  let notes := m.shared.log
  let sorted := if b.hasPool && b.pool.shared.size ≠ 1 then notes.mergeSort fun x y => x.text ≤ y.text else notes
  (b.setDesk { m with shared := { m.shared with log := [] } }, sorted)

/-- posts jobs one after the other -/
def post (m : Machine) (jobs : List PoolJob) : Machine :=
  (jobs.foldl (fun m j => m.callAndReturn 0 [] (.post j)) m).settle

/-- a request of the dispatcher -/
def ofDesk (b : Bench) (c : Call) : Bench × Reply :=
  let (m, r) := ownCall b.desk c
  (b.setDesk m, r)

/-- runs the dispatcher on a thread of its own; once it is idle it is stopped -/
def run (m : Machine) : Machine × Reply :=
  let (m, t) := m.enter
  let m := ((m.move (.call t .run)).getD m).settle
  let (m, blocked) := if m.isIdle t then (m, false) else ((ownCall m .halt).1, true)
  match m.outcome t with
  | some (.count n) => (m, .run n blocked)
  | r => (m, reply r)

/-- several threads make the same call at once -/
def race (m : Machine) (c : Control) (n : Nat) : Machine × Reply :=
  let (m, ts) := (List.range n).foldl (fun (p : Machine × List ThreadId) _ =>
    let (m, t) := p.1.enter
    ((m.move (.call t c.call)).getD m, p.2 ++ [t])) (m, [])
  let m := (m.runUntil [] fun m => ts.all fun t => m.isIdle t).settle
  let refused := ts.countP fun t => match m.outcome t with
    | some (.started (.error _)) => true
    | _ => false
  (m, .raced (n - refused) refused)

/-- begins a call in the background -/
def launch (b : Bench) (c : Call) : Bench :=
  let (m, t) := b.pool.enter
  { b with pool := ((m.move (.call t c)).getD m).settle, background := b.background ++ [t] }

/-- carries out a request -/
def perform (b : Bench) (r : Request) : Bench × Reply :=
  let ofPool (f : Unit → Bench × Reply) : Bench × Reply := if b.hasPool then f () else (b, .noPool)
  match r with
  | .post jobs => (b.setDesk (post b.desk jobs), .ok)
  | .poll => b.ofDesk .poll
  | .pollOne => b.ofDesk .pollOne
  | .run => let (m, r) := run b.desk; (b.setDesk m, r)
  | .ask q => b.ofDesk (.ask q)
  | .halt => b.ofDesk .halt
  | .revive => b.ofDesk .revive
  | .log => let (b, notes) := b.takeNotes; (b, .notes notes)
  | .control c => ofPool fun _ => let (m, r) := ownCall b.pool c.call; ({ b with pool := m }, r)
  | .startStarved => ofPool fun _ => let (m, r) := otherCall b.pool true .start; ({ b with pool := m }, r)
  | .waitPaused limit => ofPool fun _ => let (m, r) := ownCall b.pool (.waitPaused limit); ({ b with pool := m }, r)
  | .drain =>
    let m := b.desk.runUntil [] Machine.drained
    let (b, notes) := (b.setDesk m.settle).takeNotes
    (b, .drained m.drained notes)
  | .held n =>
    let reached (m : Machine) : Bool := (m.whose Machine.holds).length == n
    let m := b.desk.runUntil [] reached
    (b.setDesk m.settle, .flag (reached m))
  | .openGate g => let m := b.desk; (b.setDesk ((m.move (.openGate g)).getD m).settle, .ok)
  | .stopInBackground => ofPool fun _ => (b.launch .stop, .flag true)
  | .waitPausedInBackground limit => ofPool fun _ => (b.launch (.waitPaused limit), .ok)
  | .join =>
    let m := (b.pool.runUntil [] fun m => b.background.all fun t => m.isIdle t).settle
    ({ b with pool := m, background := [] }, .joined (b.background.map fun t => reply (m.outcome t)))
  | .race c n => ofPool fun _ => let (m, r) := race b.pool c n; ({ b with pool := m }, r)
  | .drop => ofPool fun _ => let (m, r) := ownCall b.pool .drop; ({ b with pool := m, hasPool := false }, r)
  | .dropOnWorker => ofPool fun _ =>
    let m := post b.pool [{ id := "", actions := [.other .dropPool], quiet := true }]
    ({ b with pool := m, hasPool := false }, .flag (m.workersGone && m.shared.dispatcher.stopped))

/-- the calls on the dispatcher of the script -/
def calls (b : Bench) : List DispatcherCall := b.desk.shared.calls

/-- the events of the script's own thread -/
def events (b : Bench) : List Event :=
  b.pool.shared.events.filterMap fun e => if e.1 = 0 then some e.2 else none

end Bench

end SecureEndpoint.Workers
