/-
Every way to go on.

The stage is an atomic cell that anybody may read, but every change of it is made under the parking lock, so the place of
an activation that holds this lock says something about the stage (`Frame.Sees`). `Transition` lists the steps that an
activation can make where this is so: an attempt that swaps finds the stage that it read, and a resume is not refused any
more. Each constructor is one outcome of one place, with its effect written out, so what a step does to one part of the
pool is read off by cases.
- `step_transition`: `Frame.step` makes no other steps.
-/
import SecureEndpoint.Workers.Step

/-! ## The table by change -/

namespace SecureEndpoint.Stage

variable {a b : Stage}

theorem after_start : a.after? .start = some b ↔ a = .stopped ∧ b = .running := by
  cases a <;> cases b <;> decide

theorem after_pause : a.after? .pause = some b ↔ a = .running ∧ b = .paused := by
  cases a <;> cases b <;> decide

theorem after_resume : a.after? .resume = some b ↔ a = .paused ∧ b = .running := by
  cases a <;> cases b <;> decide

theorem after_shutdown : a.after? .shutdown = some b ↔ (a = .running ∨ a = .paused) ∧ b = .closing := by
  cases a <;> cases b <;> decide

theorem after_settle : a.after? .settle = some b ↔ a = .closing ∧ b = .stopped := by
  cases a <;> cases b <;> decide

theorem start_refused : a.after? .start = none ↔ a ≠ .stopped := by
  cases a <;> decide

theorem pause_refused : a.after? .pause = none ↔ a ≠ .running := by
  cases a <;> decide

theorem resume_refused : a.after? .resume = none ↔ a ≠ .paused := by
  cases a <;> decide

theorem settle_refused : a.after? .settle = none ↔ a ≠ .closing := by
  cases a <;> decide

end SecureEndpoint.Stage

namespace SecureEndpoint.Workers

open Work (Note Action)

/-- what the place of an activation that holds the parking lock says about the stage -/
def Frame.Sees (s : Shared) : Frame → Prop
  | .start p => match p with
    | .swap seen next => seen.after? .start = some next ∧ s.stage = seen
    | .mark => s.stage = .running
    | .release => s.stage = .running ∧ s.spawned = s.size
    | _ => True
  | .pause p => match p with
    | .swap seen next => seen.after? .pause = some next ∧ s.stage = seen
    | .release => s.stage = .paused
    | _ => True
  | .resume p => match p with
    | .reread => s.stage = .paused
    | .swap seen next => seen.after? .resume = some next ∧ s.stage = seen
    | .tell | .release => s.stage = .running
    | .refused _ => False
    | _ => True
  | .shutdown p => match p with
    | .swap seen next => seen.after? .shutdown = some next ∧ s.stage = seen
    | .ask | .answered _ | .tellResumed | .tellParked => s.stage = .closing
    | _ => True
  | .stop (.settleSwap seen next) => seen.after? .settle = some next ∧ s.stage = seen
  | .waitPaused _ _ .compare => s.stage = .paused
  | .worker _ p => match p with
    | .parkCount | .parkTell | .parkSleep => s.stage = .paused
    | _ => True
  | _ => True

/-- the next step takes this lock, and the activation goes on at this place -/
inductive Frame.Takes : Frame → Lock → Frame → Prop
  | enter {i} : Takes (.worker i .enter) .parking (.worker i .entered)
  | park {i} : Takes (.worker i .parkWant) .parking (.worker i .parkCheck)
  | unpark {i} : Takes (.worker i (.asleep true)) .parking (.worker i .unpark)
  | leave {i} : Takes (.worker i .leaveWant) .parking (.worker i .leaving)
  | look {mode n} : Takes (.drive mode n .want) .queue (.drive mode n .look)
  | lookAgain {mode n} : Takes (.drive mode n (.asleep true)) .queue (.drive mode n .look)
  | post {j} : Takes (.post j .want) .queue (.post j .push)
  | ask {q} : Takes (.ask q .want) .queue (.ask q .locked)
  | halt : Takes (.halt .want) .queue (.halt .locked)
  | revive : Takes (.revive .want) .queue (.revive .locked)
  | start : Takes (.start .wantHandles) .handles (.start .wantParking)
  | startParking : Takes (.start .wantParking) .parking (.start .read)
  | pause : Takes (.pause .want) .parking (.pause .read)
  | resume : Takes (.resume .want) .parking (.resume .read)
  | shutdown : Takes (.shutdown .want) .parking (.shutdown .read)
  | stop : Takes (.stop .want) .handles (.stop .own)
  | collect : Takes (.stop (.shutDone true)) .handles (.stop .collect)
  | settle : Takes (.stop .settleWant) .parking (.stop .settleRead)
  | waitPaused {l x} : Takes (.waitPaused l x .want) .parking (.waitPaused l x .check)
  | waitAgain {l x} : Takes (.waitPaused l x (.asleep true)) .parking (.waitPaused l x .check)
  | drop : Takes (.drop .want) .handles (.drop .own)
  | detach : Takes (.drop (.shutDone true)) .handles (.drop .collect)

/-- an activation at its beginning, which a job can call -/
inductive Frame.Begins : Frame → Prop
  | call (c : Call) : Begins c.frame
  | meet {n} : Begins (.meet n .arriving)
  | hold {gate} : Begins (.hold gate)

/-- the answer of the dispatcher -/
def Shared.answer (s : Shared) : Question → Value
  | .pending => .count s.dispatcher.queue.length
  | .stopped => .flag s.dispatcher.stopped
  | .description => .text s.dispatcher.describe

/-- the step of an activation of thread `t`, outcome by outcome -/
inductive Transition (m : Machine) (t : ThreadId) : Frame → Effect → Prop
  | take {f l g} (h : f.Takes l g) (free : m.shared.owner l = none) :
      Transition m t f ((m.shared.setOwner l (some t)).goto g)
  -- a worker
  | entered {i} : Transition m t (.worker i .entered)
      (({ m.shared with live := m.shared.live + 1 }.release .parking).goto (.worker i .observe))
  | run {i} (h : m.shared.stage = .running) :
      Transition m t (.worker i .observe) (m.shared.call (.worker i .observe) (.drive .run 0 .want))
  | seePaused {i} (h : m.shared.stage = .paused) :
      Transition m t (.worker i .observe) (m.shared.goto (.worker i .parkWant))
  | seeClosing {i} (h : m.shared.stage = .closing) :
      Transition m t (.worker i .observe) (m.shared.goto (.worker i .leaveWant))
  | seeStopped {i} (h : m.shared.stage = .stopped) :
      Transition m t (.worker i .observe) ((m.shared.emit t .observedStopped).goto (.worker i .leaveWant))
  | parkCheck {i} (h : m.shared.stage = .paused) :
      Transition m t (.worker i .parkCheck) (m.shared.goto (.worker i .parkCount))
  | parkVain {i} (h : m.shared.stage ≠ .paused) :
      Transition m t (.worker i .parkCheck) ((m.shared.release .parking).goto (.worker i .observe))
  | parkCount {i} : Transition m t (.worker i .parkCount)
      ({ m.shared with parked := m.shared.parked + 1 }.goto (.worker i .parkTell))
  | parkTell {i} : Transition m t (.worker i .parkTell)
      { shared := m.shared, own := .become (.worker i .parkSleep), wake := .pauseWaiters }
  | parkSleep {i} :
      Transition m t (.worker i .parkSleep) ((m.shared.release .parking).goto (.worker i (.asleep false)))
  | unpark {i} : Transition m t (.worker i .unpark)
      (({ m.shared with parked := m.shared.parked - 1 }.release .parking).goto (.worker i .observe))
  | leaving {i} : Transition m t (.worker i .leaving)
      (({ m.shared with live := m.shared.live - 1 }.release .parking).goto (.worker i .leaveTell))
  | leaveTell {i} :
      Transition m t (.worker i .leaveTell) { shared := m.shared, own := .ret .unit, wake := .pauseWaiters }
  -- a loop that drives the dispatcher
  | whim {mode n p w} (waits : p.waits) (other : m.shared.dispatches = false) :
      Transition m t (.drive mode n p) (stepWhim m.shared mode n w)
  | lookHalted {mode n} (h : m.shared.dispatcher.stopped = true) :
      Transition m t (.drive mode n .look) ((m.shared.release .queue).ret (.count n))
  | lookTake {mode n j rest log} (h : m.shared.dispatcher.stopped = false) (dispatches : m.shared.dispatches = true)
      (queue : m.shared.dispatcher.queue = j :: rest)
      (hlog : log = if j.quiet then m.shared.log else m.shared.log ++ [.ran j.id]) :
      Transition m t (.drive mode n .look) (({ m.shared with
        dispatcher := { m.shared.dispatcher with queue := rest }, taken := m.shared.taken ++ [j], log := log
        }.release .queue).call (.drive mode n .inJob) (.job j.id none j.actions))
  | lookSleep {n} (h : m.shared.dispatcher.stopped = false)
      (empty : m.shared.dispatches = true → m.shared.dispatcher.queue = []) :
      Transition m t (.drive .run n .look) ((m.shared.release .queue).goto (.drive .run n (.asleep false)))
  | lookEmpty {mode n} (h : m.shared.dispatcher.stopped = false) (hm : mode ≠ .run)
      (empty : m.shared.dispatches = true → m.shared.dispatcher.queue = []) :
      Transition m t (.drive mode n .look) ((m.shared.release .queue).ret (.count n))
  | ranOne {n} : Transition m t (.drive .pollOne n .inJob) (m.shared.ret (.count 1))
  | ranMore {mode n} (hm : mode ≠ .pollOne) :
      Transition m t (.drive mode n .inJob) (m.shared.goto (.drive mode (n + 1) .want))
  -- a job
  | jobLog {id label v rest} : Transition m t (.job id (some (label, some v)) rest)
      ((m.shared.note (.result id label v.print)).goto (.job id none rest))
  | jobSkip {id label rest} :
      Transition m t (.job id (some (label, none)) rest) (m.shared.goto (.job id none rest))
  | jobDone {id} : Transition m t (.job id none []) (m.shared.ret .unit)
  | jobCall {id a rest due callee} (h : callee.Begins) :
      Transition m t (.job id none (a :: rest)) (m.shared.call (.job id due rest) callee)
  | jobKnown {id a rest due} : Transition m t (.job id none (a :: rest)) (m.shared.goto (.job id due rest))
  | jobPanic {id a rest} : Transition m t (.job id none (a :: rest)) { shared := m.shared, own := .unwind }
  -- a call on the dispatcher
  | push {j} : Transition m t (.post j .push) (({ m.shared with
      dispatcher := m.shared.dispatcher.post j, posted := m.shared.posted ++ [j] }.release .queue).goto (.post j .tell))
  | tellNobody {j} (h : (m.whose Frame.isIdleRunner).isEmpty) : Transition m t (.post j .tell) (m.shared.ret .unit)
  | tellOne {j pick} (h : (m.whose Frame.isIdleRunner).contains pick) :
      Transition m t (.post j .tell) { shared := m.shared, own := .ret .unit, wake := .runner pick }
  | answer {q} : Transition m t (.ask q .locked) ((m.shared.release .queue).ret (m.shared.answer q))
  | halted : Transition m t (.halt .locked)
      (({ m.shared with
          dispatcher := m.shared.dispatcher.stop
          calls := m.shared.calls ++ [DispatcherCall.stop] }.release .queue).goto (.halt .tell))
  | haltTell : Transition m t (.halt .tell) { shared := m.shared, own := .ret .unit, wake := .runners }
  | revived : Transition m t (.revive .locked)
      (({ m.shared with
          dispatcher := m.shared.dispatcher.restart
          calls := m.shared.calls ++ [DispatcherCall.restart] }.release .queue).ret .unit)
  -- starting
  | startReady (h : m.shared.stage = .stopped) :
      Transition m t (.start .read) (m.shared.goto (.start (.swap .stopped .running)))
  | startRefused (h : m.shared.stage ≠ .stopped) : Transition m t (.start .read)
      (((m.shared.release .parking).release .handles).ret (.started (.error (.notStopped m.shared.stage))))
  | started (h : m.shared.stage = .stopped) : Transition m t (.start (.swap .stopped .running))
      ({ m.shared with stage := .running }.goto (.start .mark))
  | mark : Transition m t (.start .mark)
      ({ m.shared with spawned := m.shared.size }.call (.start .release) (.revive .want))
  | startRelease : Transition m t (.start .release) ((m.shared.release .parking).goto (.start (.spawn 0)))
  | spawnedAll {i} (h : m.shared.size ≤ i) : Transition m t (.start (.spawn i))
      (((m.shared.emit t (.started m.shared.size)).release .handles).ret (.started (.ok ())))
  | badName {i} (h : i < m.shared.size) (name : (m.shared.workerName i).contains '\x00') :
      Transition m t (.start (.spawn i)) { shared := m.shared, own := .unwind }
  | spawnRefused {i cause} (h : i < m.shared.size) : Transition m t (.start (.spawn i))
      (((m.shared.emit t (.spawnFailed cause i)).release .handles).goto (.start (.undo cause)))
  | spawn {i} (h : i < m.shared.size) : Transition m t (.start (.spawn i))
      { shared := { m.shared with handles := m.shared.handles ++ [m.threads.length] },
        own := .become (.start (.spawn (i + 1))), spawn := some i }
  | undo {cause} : Transition m t (.start (.undo cause)) (m.shared.call (.start (.failed cause)) (.stop .want))
  | startFailed {cause} :
      Transition m t (.start (.failed cause)) (m.shared.ret (.started (.error (.spawn cause))))
  -- pausing and resuming
  | pauseReady (h : m.shared.stage = .running) :
      Transition m t (.pause .read) (m.shared.goto (.pause (.swap .running .paused)))
  | pauseIgnored (h : m.shared.stage ≠ .running) : Transition m t (.pause .read)
      (((m.shared.emit t (.pauseIgnored m.shared.stage)).release .parking).ret .unit)
  | paused (h : m.shared.stage = .running) : Transition m t (.pause (.swap .running .paused))
      ({ m.shared with stage := .paused }.call (.pause .release) (.halt .want))
  | pauseRelease : Transition m t (.pause .release) (((m.shared.emit t .paused).release .parking).ret .unit)
  | resumeIgnored (h : m.shared.stage ≠ .paused) : Transition m t (.resume .read)
      (((m.shared.emit t (.resumeIgnored m.shared.stage)).release .parking).ret .unit)
  | resumeRestart (h : m.shared.stage = .paused) :
      Transition m t (.resume .read) (m.shared.call (.resume .reread) (.revive .want))
  | resumeReady (h : m.shared.stage = .paused) :
      Transition m t (.resume .reread) (m.shared.goto (.resume (.swap .paused .running)))
  | resumed (h : m.shared.stage = .paused) : Transition m t (.resume (.swap .paused .running))
      ({ m.shared with stage := .running }.goto (.resume .tell))
  | resumeTell : Transition m t (.resume .tell)
      { shared := m.shared, own := .become (.resume .release), wake := .parked }
  | resumeRelease : Transition m t (.resume .release) (((m.shared.emit t .resumed).release .parking).ret .unit)
  -- shutting down
  | shutReady {seen} (h : seen = .running ∨ seen = .paused) (hs : m.shared.stage = seen) :
      Transition m t (.shutdown .read) (m.shared.goto (.shutdown (.swap seen .closing)))
  | shutIdle (h : m.shared.stage = .stopped) :
      Transition m t (.shutdown .read) ((m.shared.release .parking).ret (.flag false))
  | shutLate (h : m.shared.stage = .closing) : Transition m t (.shutdown .read)
      (((m.shared.emit t (.stopInProgress .closing)).release .parking).ret (.flag false))
  | shut {seen} (h : seen = .running ∨ seen = .paused) (hs : m.shared.stage = seen) :
      Transition m t (.shutdown (.swap seen .closing)) ({ m.shared with stage := .closing }.goto (.shutdown .ask))
  | shutAsk : Transition m t (.shutdown .ask) (m.shared.call (.shutdown .ask) (.ask .stopped .want))
  | shutHalted : Transition m t (.shutdown (.answered true)) (m.shared.goto (.shutdown .tellResumed))
  | shutHalt : Transition m t (.shutdown (.answered false)) (m.shared.call (.shutdown .tellResumed) (.halt .want))
  | tellResumed : Transition m t (.shutdown .tellResumed)
      { shared := m.shared, own := .become (.shutdown .tellParked), wake := .parked }
  | tellParked : Transition m t (.shutdown .tellParked)
      { shared := m.shared.release .parking, own := .ret (.flag true), wake := .pauseWaiters }
  -- stopping
  | stopOnWorker (h : m.shared.handles.contains t) :
      Transition m t (.stop .own) (((m.shared.release .handles).emit t .stopOnWorker).ret .unit)
  | stopElsewhere (h : t ∉ m.shared.handles) :
      Transition m t (.stop .own) ((m.shared.release .handles).goto (.stop .shut))
  | stopShut : Transition m t (.stop .shut) (m.shared.call (.stop .shut) (.shutdown .want))
  | stopLost : Transition m t (.stop (.shutDone false)) (m.shared.ret .unit)
  | collect : Transition m t (.stop .collect)
      (({ m.shared with handles := [] }.release .handles).goto (.stop (.join m.shared.handles)))
  | joinedAll : Transition m t (.stop (.join [])) (m.shared.goto (.stop .settleWant))
  | joinNobody {k rest} (h : m.threads[k]? = none) :
      Transition m t (.stop (.join (k :: rest))) (m.shared.goto (.stop (.join rest)))
  | joinFinished {k rest th} (h : m.threads[k]? = some th) (hl : th.life = .finished) :
      Transition m t (.stop (.join (k :: rest))) (m.shared.goto (.stop (.join rest)))
  | joinDied {k rest th} (h : m.threads[k]? = some th) (hl : th.life = .died) :
      Transition m t (.stop (.join (k :: rest)))
        ((m.shared.emit t (.workerPanicked (m.shared.workerName (th.worker.getD 0)))).goto (.stop (.join rest)))
  | settleReady (h : m.shared.stage = .closing) :
      Transition m t (.stop .settleRead) (m.shared.goto (.stop (.settleSwap .closing .stopped)))
  | settleRefused (h : m.shared.stage ≠ .closing) : Transition m t (.stop .settleRead)
      ((m.shared.emit t (.settleFailed m.shared.stage)).goto (.stop .settled))
  | settle (h : m.shared.stage = .closing) : Transition m t (.stop (.settleSwap .closing .stopped))
      ({ m.shared with stage := .stopped }.goto (.stop .settled))
  | settled : Transition m t (.stop .settled)
      ((({ m.shared with spawned := 0 }.emit t .stopped).release .parking).ret .unit)
  -- waiting for the pause
  | waitCheck {l x} (h : m.shared.stage = .paused) :
      Transition m t (.waitPaused l x .check) (m.shared.goto (.waitPaused l x .compare))
  | waitLeft {l x} (h : m.shared.stage ≠ .paused) :
      Transition m t (.waitPaused l x .check) ((m.shared.release .parking).ret (.flag false))
  | waitDone {l x} (h : m.shared.parked = m.shared.live ∧ m.shared.live = m.shared.spawned) :
      Transition m t (.waitPaused l x .compare) ((m.shared.release .parking).ret (.flag true))
  | waitExpired {l} (h : ¬ (m.shared.parked = m.shared.live ∧ m.shared.live = m.shared.spawned)) :
      Transition m t (.waitPaused l true .compare) ((m.shared.release .parking).ret (.flag false))
  | waitSleep {l} (h : ¬ (m.shared.parked = m.shared.live ∧ m.shared.live = m.shared.spawned)) :
      Transition m t (.waitPaused l false .compare)
        ((m.shared.release .parking).goto (.waitPaused l false (.asleep false)))
  -- giving up the pool
  | dropIdle (h : m.shared.stage = .stopped) : Transition m t (.drop .read) (m.shared.ret .unit)
  | dropWant (h : m.shared.stage ≠ .stopped) : Transition m t (.drop .read) (m.shared.goto (.drop .want))
  | dropOnWorker (h : m.shared.handles.contains t) :
      Transition m t (.drop .own) ((m.shared.release .handles).goto (.drop .shut))
  | dropElsewhere (h : t ∉ m.shared.handles) :
      Transition m t (.drop .own) ((m.shared.release .handles).call (.drop .stopping) (.stop .want))
  | dropDone : Transition m t (.drop .stopping) (m.shared.ret .unit)
  | dropShut : Transition m t (.drop .shut) (m.shared.call (.drop .shut) (.shutdown .want))
  | dropLost : Transition m t (.drop (.shutDone false)) (m.shared.ret .unit)
  | detach : Transition m t (.drop .collect) ((({ m.shared with handles := [] }.emit t
      (.detached m.shared.handles.length)).release .handles).ret .unit)
  -- waiting for others
  | meetWait {n} : Transition m t (.meet n .arriving) (m.shared.goto (.meet n .waiting))
  | meetGo {n} : Transition m t (.meet n .arriving) { shared := m.shared, own := .ret .unit, wake := .meeting n }
  | met {n} : Transition m t (.meet n .released) (m.shared.ret .unit)
  | held {gate} (h : m.shared.gates.contains gate) : Transition m t (.hold gate) (m.shared.ret .unit)

/-! ## There are no others -/

theorem lockThen_eq_some {s : Shared} {l : Lock} {t : ThreadId} {f : Frame} {e : Effect} :
    s.lockThen l t f = some e ↔ s.owner l = none ∧ e = (s.setOwner l (some t)).goto f := by
  unfold Shared.lockThen Shared.acquire?
  split <;> simp_all [eq_comm]

section

variable {m : Machine} {t : ThreadId} {ch : Choice} {e : Effect}

theorem worker_transition {i : Nat} {p : WorkerPlace} (h : stepWorker m.shared t i p = some e) :
    Transition m t (.worker i p) e := by
  unfold stepWorker at h
  repeat' split at h
  all_goals first
    | (cases h; done)
    | (obtain ⟨hfree, rfl⟩ := lockThen_eq_some.1 h; exact .take (by constructor) hfree)
    | (cases h; constructor <;> assumption)

theorem takeJob_fst (s : Shared) (j : PoolJob) (rest : List PoolJob) : (takeJob s j rest).1 =
    { s with
      dispatcher := { s.dispatcher with queue := rest }, taken := s.taken ++ [j]
      log := if j.quiet then s.log else s.log ++ [.ran j.id] } := by
  unfold takeJob
  cases j.quiet <;> rfl

theorem queue_transition {mode : DriveMode} {n : Nat} {p : DrivePlace} (h : stepQueue m.shared t mode n p = some e) :
    Transition m t (.drive mode n p) e := by
  cases p with
  | want =>
    obtain ⟨hfree, rfl⟩ := lockThen_eq_some.1 h
    exact .take .look hfree
  | asleep woken =>
    cases woken with
    | true =>
      obtain ⟨hfree, rfl⟩ := lockThen_eq_some.1 h
      exact .take .lookAgain hfree
    | false => cases h
  | inJob =>
    simp only [stepQueue] at h
    split at h
    · rename_i hmode
      subst hmode
      cases h
      exact .ranOne
    · cases h
      exact .ranMore ‹_›
  | look =>
    simp only [stepQueue] at h
    cases hstop : m.shared.dispatcher.stopped with
    | true =>
      rw [if_pos hstop] at h
      cases h
      exact .lookHalted hstop
    | false =>
      rw [if_neg (by simp [hstop])] at h
      split at h
      · rename_i j rest hq
        split at hq
        · have htake := takeJob_fst (m.shared.release .queue) j rest
          cases h
          rw [htake]
          exact .lookTake hstop ‹_› hq rfl
        · cases hq
      · rename_i hq
        have hempty : m.shared.dispatches = true → m.shared.dispatcher.queue = [] := fun hd => by rwa [if_pos hd] at hq
        split at h
        · rename_i hmode
          subst hmode
          cases h
          exact .lookSleep hstop hempty
        · cases h
          exact .lookEmpty hstop ‹_› hempty

theorem drive_transition {mode : DriveMode} {n : Nat} {p : DrivePlace}
    (h : stepDrive m.shared t ch mode n p = some e) : Transition m t (.drive mode n p) e := by
  unfold stepDrive at h
  split at h
  · split at h
    · rename_i hw
      cases h
      exact .whim hw.2 hw.1
    · exact queue_transition h
  · exact queue_transition h

theorem job_transition {id : String} {due : Option (String × Option Value)} {rest : List (Action PoolAction)}
    (h : stepJob m t id due rest = some e) : Transition m t (.job id due rest) e := by
  unfold stepJob at h
  split at h
  · cases h
    exact .jobLog
  · cases h
    exact .jobSkip
  · cases rest with
    | nil =>
      cases h
      exact .jobDone
    | cons a rest =>
      cases a with
      | post id actions => cases h; exact .jobCall (.call (.post ⟨id, actions, false⟩))
      | poll => cases h; exact .jobCall (.call .poll)
      | pollOne => cases h; exact .jobCall (.call .pollOne)
      | pending => cases h; exact .jobCall (.call (.ask .pending))
      | stopped => cases h; exact .jobCall (.call (.ask .stopped))
      | stop => cases h; exact .jobCall (.call .halt)
      | restart => cases h; exact .jobCall (.call .revive)
      | panic => cases h; exact .jobPanic
      | other b =>
        cases b with
        | name | stage => cases h; exact .jobKnown
        | start => cases h; exact .jobCall (.call .start)
        | pause => cases h; exact .jobCall (.call .pause)
        | resume => cases h; exact .jobCall (.call .resume)
        | stop => cases h; exact .jobCall (.call .stop)
        | waitPaused limit => cases h; exact .jobCall (.call (.waitPaused limit))
        | meet n => cases h; exact .jobCall .meet
        | hold gate => cases h; exact .jobCall .hold
        | dropPool => cases h; exact .jobCall (.call .drop)

theorem post_transition {j : PoolJob} {p : PostPlace} (h : stepPost m t ch j p = some e) :
    Transition m t (.post j p) e := by
  cases p with
  | want =>
    obtain ⟨hfree, rfl⟩ := lockThen_eq_some.1 h
    exact .take .post hfree
  | push =>
    cases h
    exact .push
  | tell =>
    simp only [stepPost] at h
    repeat' split at h
    all_goals cases h
    · exact .tellNobody ‹_›
    · exact .tellOne ‹_›

theorem start_transition {p : StartPlace} (h : stepStart m t ch p = some e) (hs : (Frame.start p).Sees m.shared) :
    Transition m t (.start p) e := by
  cases p with
  | wantHandles =>
    obtain ⟨hfree, rfl⟩ := lockThen_eq_some.1 h
    exact .take .start hfree
  | wantParking =>
    obtain ⟨hfree, rfl⟩ := lockThen_eq_some.1 h
    exact .take .startParking hfree
  | read =>
    simp only [stepStart, decide] at h
    split at h
    · rename_i next hlegal
      obtain ⟨hstage, rfl⟩ := Stage.after_start.1 hlegal
      cases h
      rw [hstage]
      exact .startReady hstage
    · cases h
      exact .startRefused (Stage.start_refused.1 ‹_›)
  | swap seen next =>
    obtain ⟨hlegal, hstage⟩ := hs
    obtain ⟨rfl, rfl⟩ := Stage.after_start.1 hlegal
    simp only [stepStart, swap, if_pos hstage] at h
    cases h
    exact .started hstage
  | mark => cases h; exact .mark
  | release => cases h; exact .startRelease
  | spawn i =>
    simp only [stepStart] at h
    split at h
    · cases h
      exact .spawnedAll ‹_›
    · have hi : i < m.shared.size := Nat.lt_of_not_le ‹_›
      split at h
      · cases h
        exact .badName hi ‹_›
      · split at h <;> cases h
        · exact .spawnRefused hi
        · exact .spawn hi
  | undo cause => cases h; exact .undo
  | failed cause => cases h; exact .startFailed

theorem pause_transition {p : PausePlace} (h : stepPause m.shared t p = some e) (hs : (Frame.pause p).Sees m.shared) :
    Transition m t (.pause p) e := by
  cases p with
  | want =>
    obtain ⟨hfree, rfl⟩ := lockThen_eq_some.1 h
    exact .take .pause hfree
  | read =>
    simp only [stepPause, decide] at h
    split at h
    · rename_i next hlegal
      obtain ⟨hstage, rfl⟩ := Stage.after_pause.1 hlegal
      cases h
      rw [hstage]
      exact .pauseReady hstage
    · cases h
      exact .pauseIgnored (Stage.pause_refused.1 ‹_›)
  | swap seen next =>
    obtain ⟨hlegal, hstage⟩ := hs
    obtain ⟨rfl, rfl⟩ := Stage.after_pause.1 hlegal
    simp only [stepPause, swap, if_pos hstage] at h
    cases h
    exact .paused hstage
  | release => cases h; exact .pauseRelease

theorem resume_transition {p : ResumePlace} (h : stepResume m.shared t p = some e)
    (hs : (Frame.resume p).Sees m.shared) : Transition m t (.resume p) e := by
  cases p with
  | want =>
    obtain ⟨hfree, rfl⟩ := lockThen_eq_some.1 h
    exact .take .resume hfree
  | read =>
    simp only [stepResume, Option.isNone_iff_eq_none, Stage.resume_refused] at h
    split at h <;> cases h
    · exact .resumeIgnored ‹_›
    · exact .resumeRestart (Decidable.not_not.1 ‹_›)
  | reread =>
    have hstage : m.shared.stage = .paused := hs
    simp only [stepResume, decide, hstage] at h
    cases h
    exact .resumeReady hstage
  | swap seen next =>
    obtain ⟨hlegal, hstage⟩ := hs
    obtain ⟨rfl, rfl⟩ := Stage.after_resume.1 hlegal
    simp only [stepResume, swap, if_pos hstage] at h
    cases h
    exact .resumed hstage
  | tell => cases h; exact .resumeTell
  | refused g => exact hs.elim
  | release => cases h; exact .resumeRelease

theorem shutdown_transition {p : ShutdownPlace} (h : stepShutdown m.shared t p = some e)
    (hs : (Frame.shutdown p).Sees m.shared) : Transition m t (.shutdown p) e := by
  cases p with
  | want =>
    obtain ⟨hfree, rfl⟩ := lockThen_eq_some.1 h
    exact .take .shutdown hfree
  | read =>
    simp only [stepShutdown, decide] at h
    cases hstage : m.shared.stage <;> rw [hstage] at h <;> cases h
    · exact .shutIdle hstage
    · exact .shutReady (.inl rfl) hstage
    · exact .shutReady (.inr rfl) hstage
    · exact .shutLate hstage
  | swap seen next =>
    obtain ⟨hlegal, hstage⟩ := hs
    obtain ⟨hseen, rfl⟩ := Stage.after_shutdown.1 hlegal
    simp only [stepShutdown, swap, if_pos hstage] at h
    cases h
    exact .shut hseen hstage
  | ask => cases h; exact .shutAsk
  | answered stopped => cases stopped <;> cases h; exact .shutHalt; exact .shutHalted
  | tellResumed => cases h; exact .tellResumed
  | tellParked => cases h; exact .tellParked

theorem stop_transition {p : StopPlace} (h : stepStop m t p = some e) (hs : (Frame.stop p).Sees m.shared) :
    Transition m t (.stop p) e := by
  cases p with
  | want =>
    obtain ⟨hfree, rfl⟩ := lockThen_eq_some.1 h
    exact .take .stop hfree
  | own =>
    simp only [stepStop] at h
    split at h <;> cases h
    · exact .stopOnWorker ‹_›
    · exact .stopElsewhere (mt List.contains_iff_mem.2 ‹_›)
  | shut => cases h; exact .stopShut
  | shutDone won =>
    cases won with
    | false => cases h; exact .stopLost
    | true =>
      obtain ⟨hfree, rfl⟩ := lockThen_eq_some.1 h
      exact .take .collect hfree
  | collect => cases h; exact .collect
  | join rest =>
    cases rest with
    | nil => cases h; exact .joinedAll
    | cons k rest =>
      simp only [stepStop] at h
      repeat' split at h
      all_goals cases h
      · exact .joinNobody ‹_›
      · exact .joinFinished ‹_› ‹_›
      · exact .joinDied ‹_› ‹_›
  | settleWant =>
    obtain ⟨hfree, rfl⟩ := lockThen_eq_some.1 h
    exact .take .settle hfree
  | settleRead =>
    simp only [stepStop, decide] at h
    split at h
    · rename_i next hlegal
      obtain ⟨hstage, rfl⟩ := Stage.after_settle.1 hlegal
      cases h
      rw [hstage]
      exact .settleReady hstage
    · cases h
      exact .settleRefused (Stage.settle_refused.1 ‹_›)
  | settleSwap seen next =>
    obtain ⟨hlegal, hstage⟩ := hs
    obtain ⟨rfl, rfl⟩ := Stage.after_settle.1 hlegal
    simp only [stepStop, swap, if_pos hstage] at h
    cases h
    exact .settle hstage
  | settled => cases h; exact .settled

theorem waitPaused_transition {l : Nat} {x : Bool} {p : WaitPlace} (h : stepWaitPaused m.shared t l x p = some e) :
    Transition m t (.waitPaused l x p) e := by
  unfold stepWaitPaused at h
  repeat' split at h
  all_goals first
    | (cases h; done)
    | (obtain ⟨hfree, rfl⟩ := lockThen_eq_some.1 h; exact .take (by constructor) hfree)
    | cases h
  · exact .waitCheck ‹_›
  · exact .waitLeft ‹_›
  · exact .waitDone ‹_›
  · rename_i hx
    subst hx
    exact .waitExpired ‹_›
  · rename_i hx
    rw [Bool.not_eq_true] at hx
    subst hx
    exact .waitSleep ‹_›

theorem drop_transition {p : DropPlace} (h : stepDrop m.shared t p = some e) : Transition m t (.drop p) e := by
  cases p with
  | read =>
    simp only [stepDrop] at h
    split at h <;> cases h
    · exact .dropIdle ‹_›
    · exact .dropWant ‹_›
  | want =>
    obtain ⟨hfree, rfl⟩ := lockThen_eq_some.1 h
    exact .take .drop hfree
  | own =>
    simp only [stepDrop] at h
    split at h <;> cases h
    · exact .dropOnWorker ‹_›
    · exact .dropElsewhere (mt List.contains_iff_mem.2 ‹_›)
  | stopping => cases h; exact .dropDone
  | shut => cases h; exact .dropShut
  | shutDone won =>
    cases won with
    | false => cases h; exact .dropLost
    | true =>
      obtain ⟨hfree, rfl⟩ := lockThen_eq_some.1 h
      exact .take .detach hfree
  | collect => cases h; exact .detach

/-- **Every step is a transition.** -/
theorem step_transition {f : Frame} (h : f.step m t ch = some e) (hs : f.Sees m.shared) : Transition m t f e := by
  cases f with
  | worker i p => exact worker_transition h
  | drive mode n p => exact drive_transition h
  | job id due rest => exact job_transition h
  | post j p => exact post_transition h
  | ask q p =>
    cases p with
    | want =>
      obtain ⟨hfree, rfl⟩ := lockThen_eq_some.1 h
      exact .take .ask hfree
    | locked => cases q <;> cases h <;> exact .answer
  | halt p =>
    cases p with
    | want =>
      obtain ⟨hfree, rfl⟩ := lockThen_eq_some.1 h
      exact .take .halt hfree
    | locked => cases h; exact .halted
    | tell => cases h; exact .haltTell
  | revive p =>
    cases p with
    | want =>
      obtain ⟨hfree, rfl⟩ := lockThen_eq_some.1 h
      exact .take .revive hfree
    | locked => cases h; exact .revived
  | start p => exact start_transition h hs
  | pause p => exact pause_transition h hs
  | resume p => exact resume_transition h hs
  | shutdown p => exact shutdown_transition h hs
  | stop p => exact stop_transition h hs
  | waitPaused l x p => exact waitPaused_transition h
  | drop p => exact drop_transition h
  | meet n p =>
    cases p with
    | arriving =>
      simp only [Frame.step] at h
      split at h <;> cases h
      · exact .meetWait
      · exact .meetGo
    | waiting => cases h
    | released => cases h; exact .met
  | hold gate =>
    simp only [Frame.step] at h
    split at h <;> cases h
    exact .held ‹_›

end

end SecureEndpoint.Workers
