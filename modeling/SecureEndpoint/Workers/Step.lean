/-
What the threads of a pool do, one step at a time.

`Frame.step` is the next step of an activation: what it does to the shared part, what becomes of the activation itself,
whom it wakes, and which worker it creates. A step that has to wait for a lock, a wake-up, a thread, a gate or other
jobs is not possible (`none`). `Machine.move` makes a step of one thread, or lets something happen from outside: a sleeper wakes
up for no reason, a limit passes, a new thread comes, a thread begins a call. Every interleaving is a list of moves.

What the system leaves open is in the `Choice` of a step: which sleeper a single wake-up reaches, whether the creation
of a thread fails, and what a dispatcher that is not the queue does on its own inside its loops.
-/
import SecureEndpoint.Workers.Machine
import SecureEndpoint.Json.Text

namespace SecureEndpoint.Workers

open Work (Note Action)

/-- what a dispatcher that is not the queue may do inside a loop that drives it -/
inductive Whim where
  /-- the loop returns -/
  | leave
  /-- the loop runs a job that nobody posted here -/
  | handOut (j : PoolJob)
  | panic

/-- what the system decides about a step -/
structure Choice where
  /-- the sleeper that a single wake-up reaches -/
  pick : ThreadId := 0
  /-- thread creation fails -/
  refuse : Option Host.OsError := none
  /-- a dispatcher that is not the queue does as it likes -/
  whim : Option Whim := none

/-- whom a step wakes -/
inductive Wake where
  | nobody
  /-- the parked workers -/
  | parked
  /-- those who wait for the pause to take effect -/
  | pauseWaiters
  /-- one worker that sleeps until a job is ready -/
  | runner (pick : ThreadId)
  /-- all workers that sleep until a job is ready -/
  | runners
  /-- the jobs that meet -/
  | meeting (n : Nat)
  deriving DecidableEq, Repr

/-- what becomes of the activation that made a step -/
inductive Own where
  | become (f : Frame)
  /-- it goes on as `below` once `callee` has returned -/
  | call (below callee : Frame)
  | ret (v : Value)
  /-- a panic passes through it -/
  | unwind

/-- the effect of a step -/
structure Effect where
  shared : Shared
  own : Own
  wake : Wake := .nobody
  /-- the worker to create -/
  spawn : Option Nat := none

/-! ## Sleepers -/

/-- sleeps until a job is ready -/
def Frame.isIdleRunner : Frame → Bool
  | .drive _ _ (.asleep false) => true
  | _ => false

/-- waits for the other jobs of a meeting -/
def Frame.isWaitingAt (n : Nat) : Frame → Bool
  | .meet k .waiting => k == n
  | _ => false

/-- a thread whose innermost activation satisfies a condition -/
def Thread.topIs (p : Frame → Bool) (th : Thread) : Bool :=
  match th.stack with
  | f :: _ => p f
  | [] => false

/-- the threads whose innermost activation satisfies a condition -/
def Machine.whose (m : Machine) (p : Frame → Bool) : List ThreadId :=
  (List.range m.threads.length).filter fun t => (m.threads[t]?).any (Thread.topIs p)

/-- the activation after a wake-up -/
def Frame.wake (w : Wake) (f : Frame) : Frame :=
  match w, f with
  | .parked, .worker i (.asleep _) => .worker i (.asleep true)
  | .pauseWaiters, .waitPaused l e (.asleep _) => .waitPaused l e (.asleep true)
  | .runner _, .drive mode n (.asleep _) => .drive mode n (.asleep true)
  | .runners, .drive mode n (.asleep _) => .drive mode n (.asleep true)
  | .meeting n, .meet k .waiting => if k = n then .meet k .released else .meet k .waiting
  | _, f => f

/-- the activation after a wake-up that has no cause; nothing where it does not sleep -/
def Frame.wakeAnyway? : Frame → Option Frame
  | .worker i (.asleep _) => some (.worker i (.asleep true))
  | .waitPaused l e (.asleep _) => some (.waitPaused l e (.asleep true))
  | .drive mode n (.asleep _) => some (.drive mode n (.asleep true))
  | _ => none

/-- the activation once its limit has passed -/
def Frame.expire? : Frame → Option Frame
  | .waitPaused l _ (.asleep _) => some (.waitPaused l true (.asleep true))
  | .waitPaused l _ p => some (.waitPaused l true p)
  | _ => none

/-! ## Reading and swapping the stage -/

/-- goes on with the stage that was seen: get ready to swap, or be refused -/
def decide (c : Change) (seen : Stage) (ready : Stage → Stage → Effect) (refused : Stage → Effect) : Effect :=
  match seen.after? c with
  | some next => ready seen next
  | none => refused seen

/-- swaps the stage in if it is still what was seen, and goes on with the stage found otherwise -/
def swap (s : Shared) (c : Change) (seen next : Stage) (ready : Stage → Stage → Effect) (refused : Stage → Effect)
    (made : Shared → Effect) : Effect :=
  if s.stage = seen then made { s with stage := next } else decide c s.stage ready refused

/-! ## The steps -/

namespace Shared

/-- becomes another frame without touching anything -/
def goto (s : Shared) (f : Frame) : Effect := ⟨s, .become f, .nobody, none⟩

/-- calls another operation -/
def call (s : Shared) (below callee : Frame) : Effect := ⟨s, .call below callee, .nobody, none⟩

/-- returns a value -/
def ret (s : Shared) (v : Value) : Effect := ⟨s, .ret v, .nobody, none⟩

/-- takes a lock and goes on -/
def lockThen (s : Shared) (l : Lock) (t : ThreadId) (f : Frame) : Option Effect :=
  (s.acquire? l t).map fun s => s.goto f

end Shared

/-- a step in the life of a worker -/
def stepWorker (s : Shared) (t : ThreadId) (i : Nat) (p : WorkerPlace) : Option Effect :=
  match p with
  | .enter => s.lockThen .parking t (.worker i .entered)
  | .entered => some (({ s with live := s.live + 1 }.release .parking).goto (.worker i .observe))
  | .observe =>
    match s.stage with
    | .running => some (s.call (.worker i .observe) (.drive .run 0 .want))
    | .paused => some (s.goto (.worker i .parkWant))
    | .closing => some (s.goto (.worker i .leaveWant))
    | .stopped => some ((s.emit t .observedStopped).goto (.worker i .leaveWant))
  | .parkWant => s.lockThen .parking t (.worker i .parkCheck)
  | .parkCheck =>
    if s.stage = .paused then some (s.goto (.worker i .parkCount))
    else some ((s.release .parking).goto (.worker i .observe))
  | .parkCount => some ({ s with parked := s.parked + 1 }.goto (.worker i .parkTell))
  | .parkTell => some { shared := s, own := .become (.worker i .parkSleep), wake := .pauseWaiters }
  | .parkSleep => some ((s.release .parking).goto (.worker i (.asleep false)))
  | .asleep true => s.lockThen .parking t (.worker i .unpark)
  | .asleep false => none
  | .unpark => some (({ s with parked := s.parked - 1 }.release .parking).goto (.worker i .observe))
  | .leaveWant => s.lockThen .parking t (.worker i .leaving)
  | .leaving => some (({ s with live := s.live - 1 }.release .parking).goto (.worker i .leaveTell))
  | .leaveTell => some { shared := s, own := .ret .unit, wake := .pauseWaiters }

/-- hands out the first job: what is shared afterwards, and the job's activation -/
def takeJob (s : Shared) (j : PoolJob) (rest : List PoolJob) : Shared × Frame :=
  let s := { s with dispatcher := { s.dispatcher with queue := rest }, taken := s.taken ++ [j] }
  (if j.quiet then s else s.note (.ran j.id), .job j.id none j.actions)

/-- what a dispatcher that is not the queue does on its own -/
def stepWhim (s : Shared) (mode : DriveMode) (n : Nat) (w : Whim) : Effect :=
  match w with
  | .leave => s.ret (.count n)
  | .handOut j => s.call (.drive mode n .inJob) (.job j.id none j.actions)
  | .panic => { shared := s, own := .unwind }

/-- a step of a loop that drives the queue -/
def stepQueue (s : Shared) (t : ThreadId) (mode : DriveMode) (n : Nat) (p : DrivePlace) : Option Effect :=
  match p with
  | .want => s.lockThen .queue t (.drive mode n .look)
  | .look =>
    let free := s.release .queue
    if s.dispatcher.stopped then some (free.ret (.count n))
    else match (if s.dispatches then s.dispatcher.queue else []) with
      | j :: rest =>
        let (s', job) := takeJob free j rest
        some (s'.call (.drive mode n .inJob) job)
      | [] =>
        if mode = .run then some (free.goto (.drive mode n (.asleep false))) else some (free.ret (.count n))
  | .asleep true => s.lockThen .queue t (.drive mode n .look)
  | .asleep false => none
  | .inJob =>
    if mode = .pollOne then some (s.ret (.count 1)) else some (s.goto (.drive mode (n + 1) .want))

/-- a loop waits outside the queue: for its lock, or for a job -/
def DrivePlace.waits : DrivePlace → Bool
  | .want | .asleep _ => true
  | .look | .inJob => false

/-- a step of a loop that drives the dispatcher -/
def stepDrive (s : Shared) (t : ThreadId) (ch : Choice) (mode : DriveMode) (n : Nat) (p : DrivePlace) : Option Effect :=
  match ch.whim with
  | some w => if s.dispatches = false ∧ p.waits then some (stepWhim s mode n w) else stepQueue s t mode n p
  | none => stepQueue s t mode n p

/-- posting a job -/
def stepPost (m : Machine) (t : ThreadId) (ch : Choice) (j : PoolJob) (p : PostPlace) : Option Effect :=
  let s := m.shared
  match p with
  | .want => s.lockThen .queue t (.post j .push)
  | .push =>
    some (({ s with dispatcher := s.dispatcher.post j, posted := s.posted ++ [j] }.release .queue).goto (.post j .tell))
  | .tell =>
    let sleepers := m.whose Frame.isIdleRunner
    if sleepers.isEmpty then some (s.ret .unit)
    else if sleepers.contains ch.pick then some { shared := s, own := .ret .unit, wake := .runner ch.pick }
    else none

/-- asking the dispatcher something -/
def stepAsk (s : Shared) (t : ThreadId) (q : Question) (p : AccessPlace) : Option Effect :=
  match p with
  | .want => s.lockThen .queue t (.ask q .locked)
  | .locked =>
    let answer : Value := match q with
      | .pending => .count s.dispatcher.queue.length
      | .stopped => .flag s.dispatcher.stopped
      | .description => .text s.dispatcher.describe
    some ((s.release .queue).ret answer)

/-- stopping the dispatcher -/
def stepHalt (s : Shared) (t : ThreadId) (p : HaltPlace) : Option Effect :=
  match p with
  | .want => s.lockThen .queue t (.halt .locked)
  | .locked =>
    let s := { s with dispatcher := s.dispatcher.stop, calls := s.calls ++ [DispatcherCall.stop] }
    some ((s.release .queue).goto (.halt .tell))
  | .tell => some { shared := s, own := .ret .unit, wake := .runners }

/-- restarting the dispatcher -/
def stepRevive (s : Shared) (t : ThreadId) (p : AccessPlace) : Option Effect :=
  match p with
  | .want => s.lockThen .queue t (.revive .locked)
  | .locked =>
    let s := { s with dispatcher := s.dispatcher.restart, calls := s.calls ++ [DispatcherCall.restart] }
    some ((s.release .queue).ret .unit)

/-- starting the pool -/
def stepStart (m : Machine) (t : ThreadId) (ch : Choice) (p : StartPlace) : Option Effect :=
  let s := m.shared
  let ready (seen next : Stage) : Effect := s.goto (.start (.swap seen next))
  let refused (g : Stage) : Effect :=
    ((s.release .parking).release .handles).ret (.started (.error (.notStopped g)))
  match p with
  | .wantHandles => s.lockThen .handles t (.start .wantParking)
  | .wantParking => s.lockThen .parking t (.start .read)
  | .read => some (decide .start s.stage ready refused)
  | .swap seen next => some (swap s .start seen next ready refused fun s => s.goto (.start .mark))
  | .mark => some ({ s with spawned := s.size }.call (.start .release) (.revive .want))
  | .release => some ((s.release .parking).goto (.start (.spawn 0)))
  | .spawn i =>
    if s.size ≤ i then some (((s.emit t (.started s.size)).release .handles).ret (.started (.ok ())))
    else if (s.workerName i).contains '\x00' then some { shared := s, own := .unwind }
    else match ch.refuse with
      | some e => some (((s.emit t (.spawnFailed e i)).release .handles).goto (.start (.undo e)))
      | none =>
        some { shared := { s with handles := s.handles ++ [m.threads.length] },
               own := .become (.start (.spawn (i + 1))), spawn := some i }
  | .undo e => some (s.call (.start (.failed e)) (.stop .want))
  | .failed e => some (s.ret (.started (.error (.spawn e))))

/-- pausing the pool -/
def stepPause (s : Shared) (t : ThreadId) (p : PausePlace) : Option Effect :=
  let ready (seen next : Stage) : Effect := s.goto (.pause (.swap seen next))
  let refused (g : Stage) : Effect := ((s.emit t (.pauseIgnored g)).release .parking).ret .unit
  match p with
  | .want => s.lockThen .parking t (.pause .read)
  | .read => some (decide .pause s.stage ready refused)
  | .swap seen next =>
    some (swap s .pause seen next ready refused fun s => s.call (.pause .release) (.halt .want))
  | .release => some (((s.emit t .paused).release .parking).ret .unit)

/-- resuming the pool -/
def stepResume (s : Shared) (t : ThreadId) (p : ResumePlace) : Option Effect :=
  let ignored (g : Stage) : Effect := ((s.emit t (.resumeIgnored g)).release .parking).ret .unit
  let ready (seen next : Stage) : Effect := s.goto (.resume (.swap seen next))
  let refused (g : Stage) : Effect := s.call (.resume (.refused g)) (.halt .want)
  match p with
  | .want => s.lockThen .parking t (.resume .read)
  | .read =>
    if (s.stage.after? .resume).isNone then some (ignored s.stage)
    else some (s.call (.resume .reread) (.revive .want))
  | .reread => some (decide .resume s.stage ready refused)
  | .swap seen next => some (swap s .resume seen next ready refused fun s => s.goto (.resume .tell))
  | .tell => some { shared := s, own := .become (.resume .release), wake := .parked }
  | .refused g => some (ignored g)
  | .release => some (((s.emit t .resumed).release .parking).ret .unit)

/-- moving to the last stage; returns whether this call did it -/
def stepShutdown (s : Shared) (t : ThreadId) (p : ShutdownPlace) : Option Effect :=
  let ready (seen next : Stage) : Effect := s.goto (.shutdown (.swap seen next))
  let refused (g : Stage) : Effect :=
    let s := if g = .stopped then s else s.emit t (.stopInProgress g)
    (s.release .parking).ret (.flag false)
  match p with
  | .want => s.lockThen .parking t (.shutdown .read)
  | .read => some (decide .shutdown s.stage ready refused)
  | .swap seen next => some (swap s .shutdown seen next ready refused fun s => s.goto (.shutdown .ask))
  | .ask => some (s.call (.shutdown .ask) (.ask .stopped .want))
  | .answered true => some (s.goto (.shutdown .tellResumed))
  | .answered false => some (s.call (.shutdown .tellResumed) (.halt .want))
  | .tellResumed => some { shared := s, own := .become (.shutdown .tellParked), wake := .parked }
  | .tellParked => some { shared := s.release .parking, own := .ret (.flag true), wake := .pauseWaiters }

/-- stopping the pool -/
def stepStop (m : Machine) (t : ThreadId) (p : StopPlace) : Option Effect :=
  let s := m.shared
  let ready (seen next : Stage) : Effect := s.goto (.stop (.settleSwap seen next))
  let refused (g : Stage) : Effect := (s.emit t (.settleFailed g)).goto (.stop .settled)
  match p with
  | .want => s.lockThen .handles t (.stop .own)
  | .own =>
    if s.handles.contains t then some (((s.release .handles).emit t .stopOnWorker).ret .unit)
    else some ((s.release .handles).goto (.stop .shut))
  | .shut => some (s.call (.stop .shut) (.shutdown .want))
  | .shutDone false => some (s.ret .unit)
  | .shutDone true => s.lockThen .handles t (.stop .collect)
  | .collect => some (({ s with handles := [] }.release .handles).goto (.stop (.join s.handles)))
  | .join [] => some (s.goto (.stop .settleWant))
  | .join (h :: rest) =>
    match m.threads[h]? with
    | none => some (s.goto (.stop (.join rest)))
    | some th =>
      match th.life with
      | .active => none
      | .finished => some (s.goto (.stop (.join rest)))
      | .died => some ((s.emit t (.workerPanicked (s.workerName (th.worker.getD 0)))).goto (.stop (.join rest)))
  | .settleWant => s.lockThen .parking t (.stop .settleRead)
  | .settleRead => some (decide .settle s.stage ready refused)
  | .settleSwap seen next => some (swap s .settle seen next ready refused fun s => s.goto (.stop .settled))
  | .settled => some ((({ s with spawned := 0 }.emit t .stopped).release .parking).ret .unit)

/-- waiting for the pause to take effect -/
def stepWaitPaused (s : Shared) (t : ThreadId) (limit : Nat) (expired : Bool) (p : WaitPlace) : Option Effect :=
  match p with
  | .want => s.lockThen .parking t (.waitPaused limit expired .check)
  | .check =>
    if s.stage = .paused then some (s.goto (.waitPaused limit expired .compare))
    else some ((s.release .parking).ret (.flag false))
  | .compare =>
    if s.parked = s.live ∧ s.live = s.spawned then some ((s.release .parking).ret (.flag true))
    else if expired then some ((s.release .parking).ret (.flag false))
    else some ((s.release .parking).goto (.waitPaused limit expired (.asleep false)))
  | .asleep true => s.lockThen .parking t (.waitPaused limit expired .check)
  | .asleep false => none

/-- giving up the last handle of the pool -/
def stepDrop (s : Shared) (t : ThreadId) (p : DropPlace) : Option Effect :=
  match p with
  | .read => if s.stage = .stopped then some (s.ret .unit) else some (s.goto (.drop .want))
  | .want => s.lockThen .handles t (.drop .own)
  | .own =>
    if s.handles.contains t then some ((s.release .handles).goto (.drop .shut))
    else some ((s.release .handles).call (.drop .stopping) (.stop .want))
  | .stopping => some (s.ret .unit)
  | .shut => some (s.call (.drop .shut) (.shutdown .want))
  | .shutDone false => some (s.ret .unit)
  | .shutDone true => s.lockThen .handles t (.drop .collect)
  | .collect =>
    some ((({ s with handles := [] }.emit t (.detached s.handles.length)).release .handles).ret .unit)

/-- the printed form of a result in the log -/
def Value.print : Value → String
  | .unit => "null"
  | .count n => toString n
  | .flag b => toString b
  | .text t => Json.quoteJson t
  | .started (.ok ()) => Json.quoteJson "ok"
  | .started (.error e) => Json.textObject [("error", e.category), ("message", e.message)]

/-- the name of the thread -/
def Machine.threadName (m : Machine) (t : ThreadId) : String :=
  match (m.threads[t]?).bind (·.worker) with
  | some i => m.shared.workerName i
  | none => "main"

/-- a step of a job -/
def stepJob (m : Machine) (t : ThreadId) (id : String) (due : Option (String × Option Value))
    (rest : List (Action PoolAction)) : Option Effect :=
  let s := m.shared
  match due with
  | some (label, some v) => some ((s.note (.result id label v.print)).goto (.job id none rest))
  | some (_, none) => some (s.goto (.job id none rest))
  | none =>
    match rest with
    | [] => some (s.ret .unit)
    | a :: rest =>
      let quietly (callee : Frame) : Effect := s.call (.job id none rest) callee
      let logged (label : String) (callee : Frame) : Effect := s.call (.job id (some (label, none)) rest) callee
      let known (label : String) (v : Value) : Effect := s.goto (.job id (some (label, some v)) rest)
      match a with
      | .post name actions => some (quietly (.post ⟨name, actions, false⟩ .want))
      | .poll => some (logged "poll" (.drive .poll 0 .want))
      | .pollOne => some (logged "poll_one" (.drive .pollOne 0 .want))
      | .pending => some (logged "pending" (.ask .pending .want))
      | .stopped => some (logged "stopped" (.ask .stopped .want))
      | .stop => some (quietly (.halt .want))
      | .restart => some (quietly (.revive .want))
      | .panic => some { shared := s, own := .unwind }
      | .other .name => some (known "name" (.text (m.threadName t)))
      | .other .stage => some (known "state" (.text s.stage.name))
      | .other .start => some (logged "start" (.start .wantHandles))
      | .other .pause => some (quietly (.pause .want))
      | .other .resume => some (quietly (.resume .want))
      | .other .stop => some (quietly (.stop .want))
      | .other (.waitPaused limit) => some (logged "wait_paused" (.waitPaused limit false .want))
      | .other (.meet n) => some (quietly (.meet n .arriving))
      | .other (.hold gate) => some (quietly (.hold gate))
      | .other .dropPool => some (quietly (.drop .read))

/-- the next step of an activation of thread `t`; none while it has to wait -/
def Frame.step (m : Machine) (t : ThreadId) (ch : Choice) (f : Frame) : Option Effect :=
  let s := m.shared
  match f with
  | .worker i p => stepWorker s t i p
  | .drive mode n p => stepDrive s t ch mode n p
  | .job id due rest => stepJob m t id due rest
  | .post j p => stepPost m t ch j p
  | .ask q p => stepAsk s t q p
  | .halt p => stepHalt s t p
  | .revive p => stepRevive s t p
  | .start p => stepStart m t ch p
  | .pause p => stepPause s t p
  | .resume p => stepResume s t p
  | .shutdown p => stepShutdown s t p
  | .stop p => stepStop m t p
  | .waitPaused limit expired p => stepWaitPaused s t limit expired p
  | .drop p => stepDrop s t p
  | .meet n p =>
    match p with
    | .arriving =>
      if (m.whose (Frame.isWaitingAt n)).length + 1 < n then some (s.goto (.meet n .waiting))
      else some { shared := s, own := .ret .unit, wake := .meeting n }
    | .waiting => none
    | .released => some (s.ret .unit)
  | .hold gate => if s.gates.contains gate then some (s.ret .unit) else none

/-! ## Moves of the machine -/

/-- the activation that goes on with a returned value -/
def Frame.receive (v : Value) (f : Frame) : Frame :=
  match f, v with
  | .job id (some (label, _)) rest, v => .job id (some (label, some v)) rest
  | .shutdown .ask, .flag b => .shutdown (.answered b)
  | .stop .shut, .flag b => .stop (.shutDone b)
  | .drop .shut, .flag b => .drop (.shutDone b)
  | f, _ => f

/-- the thread after its own part of a step; `below` is the rest of its stack -/
def Thread.after (th : Thread) (own : Own) (below : List Frame) : Thread :=
  match own with
  | .become f => { th with stack := f :: below }
  | .call f callee => { th with stack := callee :: f :: below }
  | .ret v =>
    match below with
    | f :: rest => { th with stack := f.receive v :: rest }
    | [] =>
      if th.worker.isSome then { th with stack := [], life := .finished }
      else { th with stack := [], outcome := some (some v) }
  | .unwind =>
    if th.worker.isSome then { th with stack := [], life := .died }
    else { th with stack := [], outcome := some none }

/-- a thread after a wake-up -/
def Thread.wake (w : Wake) (th : Thread) : Thread :=
  match th.stack with
  | f :: rest => { th with stack := f.wake w :: rest }
  | [] => th

/-- delivers a wake-up -/
def wakeThreads (w : Wake) (threads : List Thread) : List Thread :=
  match w with
  | .nobody => threads
  | .runner pick => threads.modify pick (Thread.wake w)
  | w => threads.map (Thread.wake w)

/-- a worker that has not begun -/
def newWorker (index : Nat) : Thread := { worker := some index, stack := [.worker index .enter] }

/-- a panic gives back the locks of its thread -/
def Own.unlocks (own : Own) (s : Shared) (t : ThreadId) : Shared :=
  match own with
  | .unwind => s.releaseAll t
  | _ => s

/-- a call that a thread from outside can make -/
inductive Call where
  | start
  | pause
  | resume
  | stop
  | waitPaused (limit : Nat)
  | drop
  | post (j : PoolJob)
  | run
  | poll
  | pollOne
  | ask (q : Question)
  | halt
  | revive

/-- the activation of a call -/
def Call.frame : Call → Frame
  | .start => .start .wantHandles
  | .pause => .pause .want
  | .resume => .resume .want
  | .stop => .stop .want
  | .waitPaused limit => .waitPaused limit false .want
  | .drop => .drop .read
  | .post j => .post j .want
  | .run => .drive .run 0 .want
  | .poll => .drive .poll 0 .want
  | .pollOne => .drive .pollOne 0 .want
  | .ask q => .ask q .want
  | .halt => .halt .want
  | .revive => .revive .want

/-- something that can happen -/
inductive Move where
  /-- thread `t` makes its next step -/
  | step (t : ThreadId) (ch : Choice)
  /-- thread `t` wakes up for no reason -/
  | wake (t : ThreadId)
  /-- the limit of what thread `t` waits for passes -/
  | expire (t : ThreadId)
  /-- a thread from outside begins a call -/
  | call (t : ThreadId) (c : Call)
  /-- another thread from outside comes -/
  | enter
  /-- somebody opens a gate -/
  | openGate (gate : String)

namespace Machine

/-- the machine after the step of thread `t`, whose stack was an activation on top of `below` -/
def apply (m : Machine) (t : ThreadId) (th : Thread) (below : List Frame) (e : Effect) : Machine where
  shared := e.own.unlocks e.shared t
  threads := wakeThreads e.wake (m.threads.set t (th.after e.own below)) ++ (e.spawn.map newWorker).toList

/-- changes the innermost activation of a thread -/
def changeTop? (m : Machine) (t : ThreadId) (change : Frame → Option Frame) : Option Machine := do
  let th ← m.threads[t]?
  match th.stack with
  | [] => none
  | f :: below => return { m with threads := m.threads.set t { th with stack := (← change f) :: below } }

/-- makes a move, if it is possible -/
def move (m : Machine) : Move → Option Machine
  | .step t ch => do
    let th ← m.threads[t]?
    match th.stack with
    | [] => none
    | f :: below => return m.apply t th below (← f.step m t ch)
  | .wake t => m.changeTop? t Frame.wakeAnyway?
  | .expire t => m.changeTop? t Frame.expire?
  | .call t c => do
    let th ← m.threads[t]?
    if th.worker.isNone ∧ th.stack.isEmpty then
      return { m with threads := m.threads.set t { th with stack := [c.frame], outcome := none } }
    else none
  | .enter => some { m with threads := m.threads ++ [{ worker := none, stack := [] }] }
  | .openGate g => some { m with shared := { m.shared with gates := m.shared.gates ++ [g] } }

/-- a pool that was never started, with nobody around -/
def fresh (size : Nat) (stem : String) (dispatches : Bool) : Machine := ⟨{ size, stem, dispatches }, []⟩

end Machine

end SecureEndpoint.Workers
