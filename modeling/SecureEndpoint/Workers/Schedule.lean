/-
One particular order of the steps: the thread that came first goes first, as far as it can.

`Machine.settle` lets everybody run until nobody can make a step without a wake-up from outside; limits of waiting do
not pass meanwhile. `Machine.runUntil` runs towards a goal and lets the shortest limit pass when nobody can make a step.
A worker that would only find its dispatcher stopped again, while the pool is running, is left where it is.
-/
import SecureEndpoint.Workers.Step

namespace SecureEndpoint.Workers.Machine

open Work (weights)

/-- a worker that goes round without finding anything to do -/
def spins (m : Machine) (t : ThreadId) : Bool :=
  match m.threads[t]? with
  | none => false
  | some th =>
    match th.stack with
    | [.worker _ .observe] => m.shared.stage = .running && m.shared.dispatcher.stopped
    | _ => false

/-- a single wake-up reaches the sleeper that came first; threads are created except by the starved -/
def choice (m : Machine) (starved : List ThreadId) (t : ThreadId) : Choice where
  pick := (m.whose Frame.isIdleRunner).headD 0
  refuse := if starved.contains t then some Host.OsError.again else none

/-- the step of the first thread that can make one -/
def advance? (m : Machine) (starved : List ThreadId) : Option Machine :=
  (List.range m.threads.length).findSome? fun t =>
    if m.spins t then none else m.move (.step t (m.choice starved t))

/-- the limit of a thread that sleeps until a pause takes effect -/
def limit? (th : Thread) : Option Nat :=
  match th.stack with
  | .waitPaused limit _ (.asleep false) :: _ => some limit
  | _ => none

/-- lets the shortest limit pass -/
def expire? (m : Machine) : Option Machine :=
  let waiting := (List.range m.threads.length).filterMap fun t => ((m.threads[t]?).bind limit?).map fun l => (l, t)
  match waiting with
  | [] => none
  | w :: ws => m.move (.expire (ws.foldl (fun a b => if b.1 < a.1 then b else a) w).2)

/-- the work that an activation has before it -/
def load : Frame → Nat
  | .job _ _ rest => 1 + weights rest
  | .post j _ => 1 + j.weight
  | _ => 1

/-- more steps than the threads can make before they come to rest -/
def patience (m : Machine) : Nat :=
  let work := m.shared.dispatcher.weight + m.threads.foldr (fun th n => th.stack.foldr (fun f n => load f + n) n) 0
  100 * (m.threads.length + m.shared.size + 1) * (work + 1)

/-- runs for at most `n` steps towards a goal -/
def runFor (n : Nat) (starved : List ThreadId) (expiring : Bool) (goal : Machine → Bool) (m : Machine) : Machine :=
  match n with
  | 0 => m
  | n + 1 =>
    if goal m then m
    else match m.advance? starved with
      | some next => runFor n starved expiring goal next
      | none =>
        match (if expiring then m.expire? else none) with
        | some next => runFor n starved expiring goal next
        | none => m

/-- everybody runs until nobody can make a step -/
def settle (m : Machine) : Machine := runFor m.patience [] false (fun _ => false) m

/-- everybody runs until the goal is reached, or nothing can happen any more -/
def runUntil (m : Machine) (starved : List ThreadId) (goal : Machine → Bool) : Machine :=
  runFor m.patience starved true goal m

/-- the thread is not in a call -/
def isIdle (t : ThreadId) (m : Machine) : Bool := (m.threads[t]?).all fun th => th.stack.isEmpty

/-- a thread from outside makes a call; everybody runs until it returns, but no further -/
def callAndReturn (m : Machine) (t : ThreadId) (starved : List ThreadId) (c : Call) : Machine :=
  ((m.move (.call t c)).getD m).runUntil starved (isIdle t)

/-- what the last call of a thread returned; none where it panicked -/
def outcome (m : Machine) (t : ThreadId) : Option Value := ((m.threads[t]?).bind (·.outcome)).getD none

/-- another thread from outside, with its number -/
def enter (m : Machine) : Machine × ThreadId := ((m.move .enter).getD m, m.threads.length)

/-- a thread stands before a closed gate -/
def holds : Frame → Bool
  | .hold _ => true
  | _ => false

/-- a thread is inside a job -/
def inJob (th : Thread) : Bool := th.stack.any fun f => match f with
  | .job .. => true
  | _ => false

/-- every job that was posted has ended -/
def drained (m : Machine) : Bool := m.shared.dispatcher.queue.isEmpty && !m.threads.any inJob

/-- no worker is active -/
def workersGone (m : Machine) : Bool := m.threads.all fun th => th.worker.isNone || th.life ≠ .active

end SecureEndpoint.Workers.Machine
