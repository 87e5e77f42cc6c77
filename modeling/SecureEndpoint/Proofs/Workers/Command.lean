/-
What a call on the pool comes to.

Starting, pausing, resuming and stopping take many steps, and other threads make theirs in between. But as long as only one
thread commands the pool, nobody else writes what these calls are about: the stage, the number of workers to wait for, the
handles, and the calls on the dispatcher with its stop flag (`Core`). So at each of its places a call has a result that only
depends on the core (`Frame.Yields`): what it will return and what core it will leave, for whatever the system decides about
the threads to create.
- `Transition.yields`: each step of a command keeps what the whole call yields.
- `stackYields_own`: also where the call has called others.
- `begins_yields`: what the call of a `Control` yields is what the table says (`Control.Comes`).
-/
import SecureEndpoint.Workers.Script
import SecureEndpoint.Proofs.Workers.Custody
import SecureEndpoint.Proofs.Workers.Dispatch

/-- the stage after changes attempted one after the other by a single caller -/
def SecureEndpoint.Stage.follow (g : Stage) (changes : List Change) : Stage := changes.foldl (fun g c => (g.attempt c).2) g

namespace SecureEndpoint.Workers

/-! ## The core of a pool -/

/-- what only those write who command the pool -/
structure Core where
  stage : Stage
  /-- the number of workers to wait for -/
  spawned : Nat
  handles : List ThreadId
  calls : List DispatcherCall
  /-- the dispatcher is stopped -/
  halted : Bool

/-- the core of what the threads share -/
def Shared.core (s : Shared) : Core := ⟨s.stage, s.spawned, s.handles, s.calls, s.dispatcher.stopped⟩

namespace Core

/-- the dispatcher is stopped -/
def halt (k : Core) : Core := { k with calls := k.calls ++ [.stop], halted := true }

/-- the dispatcher is restarted -/
def revive (k : Core) : Core := { k with calls := k.calls ++ [.restart], halted := false }

/-- the dispatcher is stopped unless it already is -/
def silence (k : Core) : Core := if k.halted then k else k.halt

/-- the pool is made to run, with `n` workers to wait for; there are none yet -/
def launch (n : Nat) (k : Core) : Core := { k with stage := .running, spawned := n }.revive

def pause (k : Core) : Core := if k.stage = .running then { k with stage := .paused }.halt else k

def resume (k : Core) : Core := if k.stage = .paused then { k.revive with stage := .running } else k

/-- there is something to shut down -/
def runs (k : Core) : Bool := k.stage = .running || k.stage = .paused

/-- the pool moves to the last stage -/
def shut (k : Core) : Core := { k with stage := .closing }.silence

/-- the workers have gone and the pool settles -/
def settle (k : Core) : Core := { k with stage := .stopped, spawned := 0 }

/-- the handles are collected and the pool settles -/
def close (k : Core) : Core := { k with handles := [] }.settle

def stop (k : Core) : Core := if k.runs then k.shut.close else k

/-- nothing is under way in a pool of size `n`: it is stopped without workers, or has all of them -/
structure Rested (n : Nat) (k : Core) : Prop where
  open_ : k.stage ≠ .closing
  threads : k.handles.length = if k.stage = .stopped then 0 else n
  spawned : k.spawned = if k.stage = .stopped then 0 else n

end Core

/-! ## What an activation yields -/

/-- what may be said of the end of an activation: which refusal of a thread it met, what it returns and the core it leaves -/
abbrev Ending := Option Host.OsError → Value → Core → Prop

/-- the creation of workers ends well, with all `n` handles, or it meets a refusal and stops the pool again -/
def Core.Creates (n : Nat) (r : Option Host.OsError) (k : Core) (Q : Ending) : Prop :=
  (∀ handles, handles.length = n → Q r (.started (.ok ())) { k with handles := handles }) ∧
    ∀ cause handles, Q (some cause) (.started (.error (.spawn cause))) { k with handles := handles }.stop

/-- an activation that commands a pool of size `n` ends with `Q`: `r` is the refusal that was met so far, `k` the core -/
def Frame.Yields (n : Nat) (r : Option Host.OsError) (k : Core) (Q : Ending) : Frame → Prop
  | .halt p => match p with
    | .want | .locked => Q r .unit k.halt
    | .tell => Q r .unit k
  | .revive _ => Q r .unit k.revive
  | .ask .stopped _ => Q r (.flag k.halted) k
  | .start p => match p with
    | .wantHandles | .wantParking | .read | .swap .. =>
      if k.stage = .stopped then (k.launch n).Creates n r Q
      else Q r (.started (.error (.notStopped k.stage))) k
    | .mark => (k.launch n).Creates n r Q
    | .release | .spawn _ => k.Creates n r Q
    | .undo cause => Q r (.started (.error (.spawn cause))) k.stop
    | .failed cause => Q r (.started (.error (.spawn cause))) k
  | .pause p => match p with
    | .want | .read | .swap .. => Q r .unit k.pause
    | .release => Q r .unit k
  | .resume p => match p with
    | .want | .read => Q r .unit k.resume
    | .reread | .swap .. => Q r .unit { k with stage := .running }
    | .tell | .release => Q r .unit k
    | .refused _ => False
  | .shutdown p => match p with
    | .want | .read | .swap .. => if k.runs then Q r (.flag true) k.shut else Q r (.flag false) k
    | .ask => Q r (.flag true) k.silence
    | .answered stopped => Q r (.flag true) (if stopped then k else k.halt)
    | .tellResumed | .tellParked => Q r (.flag true) k
  | .stop p => match p with
    | .want | .own | .shut => Q r .unit k.stop
    | .shutDone won => Q r .unit (if won then k.close else k)
    | .collect => Q r .unit k.close
    | .join _ | .settleWant | .settleRead | .settleSwap .. => Q r .unit k.settle
    | .settled => Q r .unit { k with spawned := 0 }
  | _ => False

/-- what becomes of an activation goes on to end with `Q` -/
def Own.Yields (n : Nat) (r : Option Host.OsError) (k : Core) (Q : Ending) : Own → Prop
  | .become g => g.Yields n r k Q
  | .call g callee => callee.Yields n r k fun r v k => (g.receive v).Yields n r k Q
  | .ret v => Q r v k
  | .unwind => False

/-- why the system refuses to create the thread that an activation asks for in its next step -/
def Frame.refusal? (s : Shared) (ch : Choice) : Frame → Option Host.OsError
  | .start (.spawn i) => if i < s.size then ch.refuse else none
  | _ => none

section

variable {m : Machine} {t : ThreadId} {ch : Choice} {f : Frame} {e : Effect} {n : Nat} {r : Option Host.OsError} {Q : Ending}

/-- creating a worker, with what the system decided about it -/
theorem spawn_yields {i : Nat} (h : (Frame.start (.spawn i)).step m t ch = some e)
    (name : (m.shared.workerName i).contains '\x00' = false) (size : m.shared.size = n)
    (all : n ≤ i → m.shared.handles.length = n) (hy : m.shared.core.Creates n r Q) :
    e.own.Yields n (((Frame.start (.spawn i)).refusal? m.shared ch).or r) e.shared.core Q := by
  obtain ⟨well, badly⟩ := hy
  simp only [Frame.step, stepStart, name, Bool.false_eq_true, if_false, size] at h
  simp only [Frame.refusal?, size]
  split at h
  · rename_i hsize
    cases h
    rw [if_neg (Nat.not_lt.2 hsize)]
    exact well m.shared.handles (all hsize)
  · rename_i hsize
    rw [if_pos (Nat.lt_of_not_le hsize)]
    cases hrefuse : ch.refuse with
    | none =>
      rw [hrefuse] at h
      cases h
      exact ⟨well, badly⟩
    | some cause =>
      rw [hrefuse] at h
      cases h
      exact badly cause m.shared.handles

/-- what thread `t` relies on while it commands the pool -/
structure Machine.Favours (m : Machine) (t : ThreadId) (n : Nat) (f : Frame) : Prop where
  size : m.shared.size = n
  /-- the names of the workers can be used -/
  names : ∀ i, (m.shared.workerName i).contains '\x00' = false
  /-- the thread is no worker -/
  outside : t ∉ m.shared.handles
  enrols : f.Enrols m.shared
  closing : f.closes → m.shared.stage = .closing

theorem runs_iff {k : Core} : k.runs ↔ k.stage = .running ∨ k.stage = .paused := by simp [Core.runs]

/-- **Each step keeps what the call yields.** -/
theorem Transition.yields (h : Transition m t f e) (he : f.step m t ch = some e) (hs : f.Sees m.shared)
    (hm : m.Favours t n f) (hy : f.Yields n r m.shared.core Q) :
    e.own.Yields n ((f.refusal? m.shared ch).or r) e.shared.core Q := by
  cases h with
  | take h =>
    cases h with
    | @ask q => cases q <;> exact hy
    | _ => exact hy
  | @answer q => cases q <;> first | exact hy | exact False.elim hy
  | startRefused h => exact (if_neg h).mp hy
  | started h => exact (if_pos h).mp hy
  | mark =>
    have hlaunch : m.shared.core.launch n = ({ m.shared with spawned := m.shared.size } : Shared).core.revive := by
      have hrun : m.shared.stage = .running := hs
      simp only [Core.launch, Shared.core, hrun, hm.size]
    exact (congrArg (Core.Creates n r · Q) hlaunch).mp hy
  | spawnedAll | badName | spawnRefused | spawn =>
    exact spawn_yields he (hm.names _) hm.size (fun hn => by
      obtain ⟨hlen, hle⟩ := hm.enrols
      rw [hm.size] at hle
      omega) hy
  | pauseIgnored h => exact (congrArg (Q r .unit) (if_neg h)).mp hy
  | paused h => exact (congrArg (Q r .unit) (if_pos h)).mp hy
  | resumeIgnored h => exact (congrArg (Q r .unit) (if_neg h)).mp hy
  | resumeRestart h => exact (congrArg (Q r .unit) (if_pos h)).mp hy
  | shutIdle h => exact (if_neg (by simp [runs_iff, Shared.core, h])).mp hy
  | shutLate h => exact (if_neg (by simp [runs_iff, Shared.core, h])).mp hy
  | @shut seen hseen h =>
    obtain rfl : m.shared.stage = seen := h
    exact (if_pos (runs_iff.2 hseen)).mp hy
  | stopOnWorker h => exact absurd (List.contains_iff_mem.1 h) hm.outside
  | stopShut =>
    by_cases hruns : m.shared.core.runs
    · exact (if_pos hruns).mpr ((congrArg (Q r .unit) (if_pos hruns)).mp hy)
    · exact (if_neg hruns).mpr ((congrArg (Q r .unit) (if_neg hruns)).mp hy)
  | settleRefused h => exact absurd h (not_not.2 (hm.closing rfl))
  | _ => first | exact False.elim hy | exact hy

end

/-! ## What a whole stack yields -/

/-- how it goes on for the activations below once the innermost one has ended -/
def onReturn (n : Nat) (Q : Ending) : List Frame → Ending
  | [] => Q
  | g :: rest => fun r v k => (g.receive v).Yields n r k (onReturn n Q rest)

/-- a call with these activations ends with `Q` -/
def StackYields (n : Nat) (r : Option Host.OsError) (k : Core) (Q : Ending) : List Frame → Prop
  | [] => False
  | f :: below => f.Yields n r k (onReturn n Q below)

section

variable {n : Nat} {r : Option Host.OsError} {k : Core} {Q : Ending}

theorem yields_calm (f : Frame) : f.calm.Yields n r k Q ↔ f.Yields n r k Q := by
  cases f with
  | worker i p => cases p <;> exact Iff.rfl
  | drive mode j p => cases p <;> exact Iff.rfl
  | waitPaused l x p => cases p <;> exact Iff.rfl
  | _ => exact Iff.rfl

theorem receive_calm (f : Frame) (v : Value) : f.calm.receive v = (f.receive v).calm := by
  cases f with
  | worker i p => cases p <;> rfl
  | drive mode j p => cases p <;> rfl
  | waitPaused l x p => cases p <;> rfl
  | job id due rest => rcases due with _ | ⟨label, value⟩ <;> rfl
  | stop p => cases p <;> cases v <;> rfl
  | shutdown p => cases p <;> cases v <;> rfl
  | drop p => cases p <;> cases v <;> rfl
  | _ => rfl

theorem onReturn_calm (below : List Frame) : onReturn n Q (below.map Frame.calm) = onReturn n Q below := by
  induction below with
  | nil => rfl
  | cons g rest ih =>
    funext r v k
    simp only [List.map_cons, onReturn, ih, receive_calm, yields_calm]

theorem stackYields_calm (stack : List Frame) : StackYields n r k Q (stack.map Frame.calm) ↔ StackYields n r k Q stack := by
  cases stack with
  | nil => exact Iff.rfl
  | cons f below =>
    simp only [List.map_cons, StackYields, onReturn_calm, yields_calm]

/-- the stack after a step yields what becomes of the innermost activation -/
theorem stackYields_own {own : Own} {below : List Frame} (h : own.Yields n r k (onReturn n Q below)) :
    (∃ v, own = .ret v ∧ below = [] ∧ Q r v k) ∨ StackYields n r k Q (own.stack below) := by
  cases own with
  | become g => exact .inr h
  | call g callee => exact .inr h
  | ret v =>
    cases below with
    | nil => exact .inl ⟨v, rfl, rfl, h⟩
    | cons g rest => exact .inr h
  | unwind => exact h.elim

end

/-! ## The table, call by call -/

namespace Control

/-- the change of stage that a call is about -/
def change : Control → Change
  | .start => .start
  | .pause => .pause
  | .resume => .resume
  | .stop => .shutdown

/-- the changes that a call attempts, one after the other; a start that meets a refusal stops the pool again -/
def attempts : Control → Option Host.OsError → List Change
  | .start, none => [.start]
  | .start, some _ => [.start, .shutdown, .settle]
  | .stop, _ => [.shutdown, .settle]
  | c, _ => [c.change]

/-- what a call returns -/
def answer (c : Control) (g : Stage) (r : Option Host.OsError) : Value :=
  match c with
  | .start =>
    .started (if g = .stopped then r.elim (.ok ()) fun cause => .error (.spawn cause) else .error (.notStopped g))
  | _ => .unit

/-- what a call on a pool of size `n` with the core `k` comes to: it returns `v` and leaves the core `k'`, after it met the
refusal `r` -/
structure Comes (c : Control) (n : Nat) (k : Core) (r : Option Host.OsError) (v : Value) (k' : Core) : Prop where
  answer : v = c.answer k.stage r
  stage : k'.stage = k.stage.follow (c.attempts r)
  rested : k'.Rested n
  /-- from a stage from which the change is not legal, nothing is changed -/
  vain : k.stage.after? c.change = none → r = none ∧ k' = k
  /-- a start that fails leaves a stopped dispatcher -/
  failed : r.isSome → k'.stage = .stopped ∧ k'.halted = true

end Control

theorem after_attempt (g : Stage) (c : Change) : (g.attempt c).2 = (g.after? c).getD g := by
  rw [Stage.attempt]
  cases g.after? c <;> rfl

theorem Core.halted_silence (k : Core) : k.silence.halted = true := by
  rw [Core.silence]
  split
  · assumption
  · rfl

/-- stopping a pool that runs -/
theorem Core.stop_runs {k : Core} (h : k.runs) (n : Nat) :
    k.stop.stage = .stopped ∧ k.stop.halted = true ∧ k.stop.Rested n := by
  rw [Core.stop, if_pos h]
  exact ⟨rfl, halted_silence _, nofun, rfl, rfl⟩

/-- a pool that was never started -/
theorem Core.rested_fresh (n : Nat) : Core.Rested n ⟨.stopped, 0, [], [], false⟩ := ⟨nofun, rfl, rfl⟩

/-- a started pool that stays started keeps its workers -/
theorem Core.Rested.turn {n : Nat} {k k' : Core} (h : k.Rested n) (before : k.stage ≠ .stopped)
    (after : k'.stage = .running ∨ k'.stage = .paused) (handles : k'.handles = k.handles) (spawned : k'.spawned = k.spawned) :
    k'.Rested n := by
  have hthreads := h.threads
  have hspawned := h.spawned
  rw [if_neg before] at hthreads hspawned
  rcases after with hg | hg <;> exact ⟨by rw [hg]; nofun, by rw [handles, hthreads, hg]; rfl, by rw [spawned, hspawned, hg]; rfl⟩

/-- a call that is not legal changes nothing -/
theorem Control.comes_vain (c : Control) {n : Nat} {k : Core} (h : k.Rested n) (hv : k.stage.after? c.change = none) :
    c.Comes n k none (c.answer k.stage none) k := by
  refine ⟨rfl, ?_, h, fun _ => ⟨rfl, rfl⟩, nofun⟩
  cases c with
  | stop =>
    have hsettle : k.stage.after? .settle = none := Stage.settle_refused.2 h.open_
    simp [Control.attempts, Stage.follow, after_attempt, show k.stage.after? .shutdown = none from hv, hsettle]
  | _ =>
    rw [Control.change] at hv
    simp [Control.attempts, Control.change, Stage.follow, after_attempt, hv]

/-- a start that creates all workers, and one that meets a refusal -/
theorem comes_started {n : Nat} {k : Core} (hstage : k.stage = .stopped) :
    (k.launch n).Creates n none (Control.start.Comes n k) := by
  have hlegal : k.stage.after? .start = some .running := by rw [hstage]; rfl
  refine ⟨fun handles hlen => ?_, fun cause handles => ?_⟩
  · refine ⟨by simp [Control.answer, hstage], ?_, ⟨nofun, hlen, rfl⟩, fun hv => ?_, nofun⟩
    · rw [hstage]
      rfl
    · cases hlegal.symm.trans hv
  · obtain ⟨hstop, hhalt, hrest⟩ := Core.stop_runs (k := { k.launch n with handles := handles }) rfl n
    refine ⟨by simp [Control.answer, hstage], ?_, hrest, fun hv => ?_, fun _ => ⟨hstop, hhalt⟩⟩
    · rw [hstage]
      exact hstop
    · cases hlegal.symm.trans hv

/-- **What a call comes to is what the table says.** -/
theorem begins_yields (c : Control) {n : Nat} {k : Core} (h : k.Rested n) :
    c.call.frame.Yields n none k (c.Comes n k) := by
  cases hv : k.stage.after? c.change with
  | none =>
    have hvain := c.comes_vain h hv
    cases c with
    | start =>
      have hstage := Stage.start_refused.1 hv
      refine (if_neg hstage).mpr ?_
      rwa [Control.answer, if_neg hstage] at hvain
    | pause =>
      change Control.pause.Comes n k none .unit k.pause
      rwa [Core.pause, if_neg (Stage.pause_refused.1 hv)]
    | resume =>
      change Control.resume.Comes n k none .unit k.resume
      rwa [Core.resume, if_neg (Stage.resume_refused.1 hv)]
    | stop =>
      have hidle : ¬ k.runs := fun hruns => by
        have := Stage.after_shutdown.2 ⟨runs_iff.1 hruns, rfl⟩
        cases hv.symm.trans this
      change Control.stop.Comes n k none .unit k.stop
      rwa [Core.stop, if_neg hidle]
  | some next =>
    have hne : k.stage.after? c.change ≠ none := by rw [hv]; nofun
    cases c with
    | start =>
      obtain ⟨hstage, rfl⟩ := Stage.after_start.1 hv
      exact (if_pos hstage).mpr (comes_started hstage)
    | pause =>
      obtain ⟨hstage, rfl⟩ := Stage.after_pause.1 hv
      change Control.pause.Comes n k none .unit k.pause
      rw [Core.pause, if_pos hstage]
      refine ⟨rfl, by rw [hstage]; rfl, h.turn (by rw [hstage]; nofun) (.inr rfl) rfl rfl, fun hv => absurd hv hne, nofun⟩
    | resume =>
      obtain ⟨hstage, rfl⟩ := Stage.after_resume.1 hv
      change Control.resume.Comes n k none .unit k.resume
      rw [Core.resume, if_pos hstage]
      refine ⟨rfl, by rw [hstage]; rfl, h.turn (by rw [hstage]; nofun) (.inl rfl) rfl rfl, fun hv => absurd hv hne, nofun⟩
    | stop =>
      obtain ⟨hruns, rfl⟩ := Stage.after_shutdown.1 hv
      obtain ⟨hstop, -, hrest⟩ := Core.stop_runs (runs_iff.2 hruns) n
      change Control.stop.Comes n k none .unit k.stop
      refine ⟨rfl, ?_, hrest, fun hv => absurd hv hne, nofun⟩
      rw [hstop]
      rcases hruns with hstage | hstage <;> rw [hstage] <;> rfl

end SecureEndpoint.Workers
