/-
How far a call has to go.

A call may have to wait for a lock, and a stop waits for all workers to end. Nobody can promise that a job ends, but where
there are no jobs (`Machine.Undisturbed`) nothing goes on forever:
- `distance_own`: each step of a call brings it nearer to its end, with whatever it calls on the way.
- `load_own`: each step of a worker brings it nearer to its sleep or its end, as long as the stage stays.
- `undisturbed_own`, `undisturbed_other`: no step brings jobs, and what the workers have ahead only grows by a step of the call.
-/
import SecureEndpoint.Proofs.Workers.Session

namespace SecureEndpoint.Workers

/-! ## How far a call has to go -/

namespace Frame

/-- more than the steps that an activation of a command on a pool of size `n` has ahead, with what it calls -/
def ahead (n : Nat) : Frame → Nat
  | .halt p => match p with
    | .want => 3
    | .locked => 2
    | .tell => 1
  | .revive p | .ask _ p => match p with
    | .want => 2
    | .locked => 1
  | .shutdown p => match p with
    | .want => 12
    | .read => 11
    | .swap .. => 10
    | .ask => 9
    | .answered _ => 6
    | .tellResumed => 2
    | .tellParked => 1
  | .stop p => match p with
    | .want => n + 22
    | .own => n + 21
    | .shut => n + 20
    | .shutDone _ => n + 7
    | .collect => n + 6
    | .join rest => rest.length + 5
    | .settleWant => 4
    | .settleRead => 3
    | .settleSwap .. => 2
    | .settled => 1
  | .start p => match p with
    | .wantHandles => 2 * n + 33
    | .wantParking => 2 * n + 32
    | .read => 2 * n + 31
    | .swap .. => 2 * n + 30
    | .mark => 2 * n + 29
    | .release => 2 * n + 26
    | .spawn i => (n - i) + n + 25
    | .undo _ => n + 24
    | .failed _ => 1
  | .pause p => match p with
    | .want => 7
    | .read => 6
    | .swap .. => 5
    | .release => 1
  | .resume p => match p with
    | .want => 8
    | .read => 7
    | .reread => 4
    | .swap .. => 3
    | .tell => 2
    | .refused _ | .release => 1
  | _ => 0

/-- the same for one that waits for what it has called -/
def behind (n : Nat) : Frame → Nat
  | .shutdown .ask => 6
  | .stop .shut => n + 7
  | f => f.ahead n

end Frame

/-- the same for a whole call -/
def distance (n : Nat) : List Frame → Nat
  | [] => 0
  | f :: below => f.ahead n + (below.map (Frame.behind n)).sum

section

variable {m : Machine} {t : ThreadId} {f g : Frame} {e : Effect} {n : Nat}

/-- each step of a command brings it nearer to its end -/
theorem Transition.nearer (h : Transition m t f e) (hk : f.kind.isControl ∨ f.kind.serves) (size : m.shared.size = n)
    (room : m.shared.handles.length ≤ n) : match e.own with
      | .become g => g.ahead n < f.ahead n
      | .call g callee => callee.ahead n + g.behind n < f.ahead n
      | .ret _ => 0 < f.ahead n
      | .unwind => True := by
  cases h with
  | take h =>
    cases h <;> first
      | (rcases hk with hk | hk <;> cases hk; done)
      | simp [Shared.goto, Frame.ahead]
  | whim => rcases hk with hk | hk <;> cases hk
  | spawn h =>
    rw [size] at h
    simp only [Frame.ahead]
    omega
  | mark | startRelease | stopShut | collect =>
    simp only [Shared.goto, Shared.call, Frame.ahead, Frame.behind]
    omega
  | _ => first
    | (rcases hk with hk | hk <;> cases hk; done)
    | simp [Shared.goto, Shared.call, Shared.ret, Frame.ahead, Frame.behind]

/-- whoever is asked for a flag returns one -/
theorem Transition.flag {v : Value} (h : Transition m t f e) (hv : e.own = .ret v)
    (hk : f.kind = .ask .stopped ∨ f.kind = .shutdown) : ∃ b, v = .flag b := by
  cases h with
  | @answer q =>
    obtain rfl : q = .stopped := by simpa [Frame.kind] using hk
    cases hv
    exact ⟨_, rfl⟩
  | shutIdle | shutLate | tellParked =>
    cases hv
    exact ⟨_, rfl⟩
  | _ => first
    | (rcases hk with hk | hk <;> cases hk; done)
    | cases hv

theorem receive_ahead {v : Value} {k : Kind} (hc : g.Calls k) (hg : g.kind.isControl ∨ g.kind.serves)
    (hv : k = .ask .stopped ∨ k = .shutdown → ∃ b, v = .flag b) : (g.receive v).ahead n ≤ g.behind n := by
  cases hc with
  | ask =>
    obtain ⟨b, rfl⟩ := hv (.inl rfl)
    exact Nat.le_refl _
  | shut =>
    obtain ⟨b, rfl⟩ := hv (.inr rfl)
    exact Nat.le_refl _
  | restart | undo | pause | resume | unresume | halt => exact Nat.le_refl _
  | _ => rcases hg with hg | hg <;> cases hg

/-- **Each step of a call brings it nearer to its end.** -/
theorem distance_own {w : Option Nat} {below : List Frame} (h : Transition m t f e) (hn : Nested w (f :: below))
    (hc : commanding ((f :: below).map Frame.kind)) (size : m.shared.size = n) (room : m.shared.handles.length ≤ n)
    (hu : e.own ≠ .unwind) : distance n (e.own.stack below) < distance n (f :: below) := by
  obtain ⟨hk, hlower⟩ := commanding_cons hc
  have hnear := h.nearer hk size room
  cases hown : e.own with
  | become g =>
    rw [hown] at hnear
    exact Nat.add_lt_add_right hnear _
  | call g callee =>
    rw [hown] at hnear
    simp only [Own.stack, distance, List.map_cons, List.sum_cons]
    change callee.ahead n + g.behind n < f.ahead n at hnear
    omega
  | ret v =>
    rw [hown] at hnear
    change 0 < f.ahead n at hnear
    cases below with
    | nil => exact Nat.lt_of_lt_of_le hnear (Nat.le_add_right _ _)
    | cons g rest =>
      have hreceive := receive_ahead (n := n) hn.called (commanding_cons hlower).1 fun hk => h.flag hown hk
      simp only [Own.stack, distance, List.map_cons, List.sum_cons]
      omega
  | unwind => exact absurd hown hu

theorem ahead_calm' (f : Frame) : f.calm.ahead n = f.ahead n ∧ f.calm.behind n = f.behind n := by
  cases f with
  | worker i p => cases p <;> exact ⟨rfl, rfl⟩
  | drive mode j p => cases p <;> exact ⟨rfl, rfl⟩
  | waitPaused l x p => cases p <;> exact ⟨rfl, rfl⟩
  | _ => exact ⟨rfl, rfl⟩

theorem distance_calm (stack : List Frame) : distance n (stack.map Frame.calm) = distance n stack := by
  cases stack with
  | nil => rfl
  | cons f below =>
    have hbehind : Frame.behind n ∘ Frame.calm = Frame.behind n := funext fun f => (ahead_calm' f).2
    simp only [List.map_cons, distance, (ahead_calm' f).1, List.map_map, hbehind]

end

/-! ## How far a worker has to go -/

/-- a worker, or a loop until the dispatcher is stopped, outside of a job -/
def Frame.plain : Frame → Bool
  | .worker .. => true
  | .drive .run _ p => p != .inJob
  | _ => false

/-- the steps of a worker from where it reads the stage until it sleeps or ends -/
def toRest : Stage → Nat
  | .running => 3
  | .paused => 6
  | .closing | .stopped => 4

/-- the same from where it has the parking lock to park -/
def toPark (g : Stage) : Nat := if g = .paused then 4 else toRest g + 1

/-- the same from where it looks for a job -/
def toIdle (g : Stage) : Nat := if g = .running then 1 else toRest g + 1

/-- the steps that the innermost activation of a worker has ahead, at most, as long as the stage stays `g` -/
def Frame.load (g : Stage) : Frame → Nat
  | .worker _ p => match p with
    | .enter | .asleep true => toRest g + 2
    | .entered | .unpark => toRest g + 1
    | .observe => toRest g
    | .parkWant => toPark g + 1
    | .parkCheck => toPark g
    | .parkCount | .leaveWant => 3
    | .parkTell | .leaving => 2
    | .parkSleep | .leaveTell => 1
    | .asleep false => 0
  | .drive _ _ p => match p with
    | .want | .asleep true => toIdle g + 1
    | .look => toIdle g
    | .asleep false | .inJob => 0
  | _ => 0

/-- the same for the stack of a thread -/
def topLoad (g : Stage) : List Frame → Nat
  | [] => 0
  | f :: _ => f.load g

section

variable {m : Machine} {t : ThreadId} {f g : Frame} {e : Effect}

theorem plain_drive {mode : DriveMode} {j : Nat} {p : DrivePlace} (h : (Frame.drive mode j p).plain) :
    mode = .run ∧ p ≠ .inJob := by
  cases mode with
  | run => exact ⟨rfl, by simpa [Frame.plain] using h⟩
  | _ => cases h

/-- a worker calls nothing but a loop that drives the dispatcher -/
theorem plain_calls {k : Kind} (hg : g.plain) (hc : g.Calls k) : ∃ i, g = .worker i .observe := by
  cases hc with
  | run => exact ⟨_, rfl⟩
  | @job mode => cases mode <;> cases hg
  | _ => cases hg

/-- **Each step of a worker brings it nearer to its sleep or its end**, unless it goes round on a stopped dispatcher. -/
theorem load_own {w : Option Nat} {below : List Frame} (h : Transition m t f e) (hn : Nested w (f :: below))
    (hp : ∀ g ∈ f :: below, g.plain) (dispatches : m.shared.dispatches = true) (empty : m.shared.dispatcher.queue = [])
    (spins : w.isSome → m.shared.stage = .running → m.shared.dispatcher.stopped = false) :
    (∀ g ∈ e.own.stack below, g.plain) ∧
      topLoad m.shared.stage (e.own.stack below) < topLoad m.shared.stage (f :: below) := by
  have hf := hp f (.head _)
  have hbelow : ∀ g ∈ below, g.plain := fun g hg => hp g (.tail _ hg)
  have stay : ∀ {g : Frame}, g.plain → g.load m.shared.stage < f.load m.shared.stage →
      (∀ b ∈ (Own.become g).stack below, b.plain) ∧
        topLoad m.shared.stage ((Own.become g).stack below) < topLoad m.shared.stage (f :: below) := by
    intro g hg hlt
    refine ⟨fun b hb => ?_, hlt⟩
    rcases List.mem_cons.1 hb with rfl | hb
    · exact hg
    · exact hbelow b hb
  cases h with
  | take h =>
    cases h with
    | look | lookAgain =>
      obtain ⟨rfl, -⟩ := plain_drive hf
      exact stay rfl (Nat.lt_succ_self _)
    | _ => first
      | (cases hf; done)
      | exact stay rfl (Nat.lt_succ_self _)
  | whim waits other => exact absurd (dispatches.symm.trans other) (by decide)
  | entered | parkSleep | unpark | leaving => exact stay rfl (Nat.lt_succ_self _)
  | @run i h =>
    refine ⟨fun b hb => ?_, by simp [Shared.call, Own.stack, topLoad, Frame.load, toRest, toIdle, h]⟩
    rcases List.mem_cons.1 hb with rfl | hb
    · rfl
    · exact hp b hb
  | seePaused h => exact stay rfl (by simp [Frame.load, h, toRest, toPark])
  | seeClosing h => exact stay rfl (by simp [Frame.load, h, toRest])
  | seeStopped h => exact stay rfl (by simp [Frame.load, h, toRest])
  | parkCheck h => exact stay rfl (by simp [Frame.load, h, toPark])
  | parkVain h => exact stay rfl (by simp [Frame.load, h, toPark])
  | parkCount | parkTell => exact stay rfl (Nat.lt_succ_self _)
  | leaveTell =>
    rw [hn.isWorker.2]
    exact ⟨fun g hg => absurd hg List.not_mem_nil, Nat.one_pos⟩
  | lookHalted h =>
    obtain ⟨rfl, -⟩ := plain_drive hf
    cases hn with
    | outside _ => 
      refine ⟨fun g hg => absurd hg List.not_mem_nil, ?_⟩
      simp only [Shared.ret, Own.stack, topLoad, Frame.load, toIdle]
      split <;> omega
    | @call _ _ g rest lower hc =>
      obtain ⟨i, rfl⟩ := plain_calls (hbelow g (.head _)) hc
      obtain ⟨rfl, rfl⟩ := lower.isWorker
      refine ⟨hbelow, ?_⟩
      have hstage : m.shared.stage ≠ .running := fun hrun => absurd (h.symm.trans (spins rfl hrun)) (by decide)
      simp [Shared.ret, Own.stack, topLoad, Frame.receive, Frame.load, toIdle, hstage]
  | lookTake _ _ queue => exact absurd (queue.symm.trans empty) (List.cons_ne_nil _ _)
  | lookSleep =>
    refine stay rfl ?_
    simp only [Frame.load, toIdle]
    split <;> omega
  | lookEmpty _ hm => exact absurd (plain_drive hf).1 hm
  | ranMore => exact absurd rfl (plain_drive hf).2
  | _ => cases hf

theorem plain_calm (f : Frame) : f.calm.plain = f.plain := by
  cases f with
  | worker i p => cases p <;> rfl
  | drive mode j p => cases mode <;> cases p <;> rfl
  | waitPaused l x p => cases p <;> rfl
  | _ => rfl

theorem plain_commands (h : f.plain) : f.kind.commands = false := by
  cases f <;> first | rfl | cases h

/-- a worker wakes nobody but those who wait for a pause, and creates nobody -/
theorem Transition.plainly (h : Transition m t f e) (hf : f.plain) (dispatches : m.shared.dispatches = true) :
    (e.wake = .nobody ∨ e.wake = .pauseWaiters) ∧ e.spawn = none ∧
      (m.shared.dispatcher.queue = [] → e.shared.dispatcher.queue = []) := by
  cases h with
  | take h => cases h <;> exact ⟨.inl rfl, rfl, id⟩
  | whim waits other => exact absurd (dispatches.symm.trans other) nofun
  | parkTell | leaveTell => exact ⟨.inr rfl, rfl, id⟩
  | lookTake _ _ queue => exact ⟨.inl rfl, rfl, fun hnil => absurd (hnil.symm.trans queue) nofun⟩
  | _ => first
    | (cases hf; done)
    | exact ⟨.inl rfl, rfl, id⟩

/-- a command leaves the counters of the workers and the jobs alone -/
theorem Transition.aside (h : Transition m t f e) (hk : f.kind.isControl ∨ f.kind.serves) :
    e.shared.parked = m.shared.parked ∧ e.shared.live = m.shared.live ∧
      e.shared.dispatcher.queue = m.shared.dispatcher.queue := by
  cases h with
  | take h => cases h <;> exact ⟨rfl, rfl, rfl⟩
  | @whim mode n p w => rcases hk with hk | hk <;> cases hk
  | _ => first
    | (rcases hk with hk | hk <;> cases hk; done)
    | exact ⟨rfl, rfl, rfl⟩

end

/-! ## All workers together -/

theorem sum_map_set {α : Type} (g : α → Nat) {l : List α} {i : Nat} {a : α} (h : l[i]? = some a) (b : α) :
    ((l.set i b).map g).sum + g a = (l.map g).sum + g b := by
  induction l generalizing i with
  | nil => simp at h
  | cons x l ih =>
    cases i with
    | zero =>
      cases h
      simp only [List.set_cons_zero, List.map_cons, List.sum_cons]
      omega
    | succ i =>
      have := ih (i := i) (by simpa using h)
      simp only [List.set_cons_succ, List.map_cons, List.sum_cons]
      omega

theorem topLoad_wake (g : Stage) (th : Thread) : topLoad g (th.wake .pauseWaiters).stack = topLoad g th.stack := by
  rw [Thread.wake]
  split
  · rename_i f rest hs
    rw [hs]
    cases f with
    | waitPaused l x p => cases p <;> rfl
    | _ => rfl
  · rfl

/-- those who wait for a pause carry nothing -/
theorem loads_wake (g : Stage) (threads : List Thread) {w : Wake} (hw : w = .nobody ∨ w = .pauseWaiters) :
    ((wakeThreads w threads).map fun th => topLoad g th.stack) = threads.map fun th => topLoad g th.stack := by
  rcases hw with rfl | rfl
  · rfl
  · simp only [wakeThreads, List.map_map, Function.comp_def, topLoad_wake]

theorem after_stack (th : Thread) (own : Own) (below : List Frame) : (th.after own below).stack = own.stack below := by
  cases own with
  | ret v =>
    cases below with
    | nil => by_cases hw : th.worker.isSome <;> simp [Thread.after, Own.stack, hw]
    | cons g rest => rfl
  | unwind => by_cases hw : th.worker.isSome <;> simp [Thread.after, Own.stack, hw]
  | _ => rfl

namespace Machine

/-- the steps that all workers have ahead, at most, as long as the stage stays -/
def burden (m : Machine) : Nat := (m.threads.map fun th => topLoad m.shared.stage th.stack).sum

/-- there are no jobs, and all threads but `t` are workers or drive the dispatcher until it is stopped -/
structure Undisturbed (t : ThreadId) (m : Machine) : Prop where
  dispatches : m.shared.dispatches = true
  empty : m.shared.dispatcher.queue = []
  plain : ∀ i, i ≠ t → ∀ f ∈ m.stackOf i, f.plain

section

variable {m m' : Machine} {t i : ThreadId} {th : Thread} {f : Frame} {below : List Frame} {e : Effect}

theorem Undisturbed.ruled (h : m.Undisturbed t) : m.ruledBy t :=
  ruledBy_iff.2 fun i hi f hf => plain_commands (h.plain i hi f hf)

/-- the activations of another thread -/
theorem Undisturbed.stack (h : m.Undisturbed t) (hi : i ≠ t) (ht : m.threads[i]? = some th) : ∀ f ∈ th.stack, f.plain := by
  intro f hf
  rw [← plain_calm]
  refine h.plain i hi f.calm ?_
  simp only [stackOf, roster, List.getElem?_map, ht, Option.map_some, Option.getD_some]
  exact List.mem_map_of_mem hf

/-- a step of the call leaves the others alone -/
theorem undisturbed_own (h : m.Undisturbed t) (s : m.StepOf m' t th f below e) (hk : f.kind.isControl ∨ f.kind.serves) :
    m'.Undisturbed t := by
  refine ⟨s.writes.dispatches.trans h.dispatches, ?_, fun i hi g hg => ?_⟩
  · rw [s.dispatcher, (s.go.aside hk).2.2]
    exact h.empty
  · rw [s.stackAt, if_neg hi] at hg
    split at hg
    · cases hsp : e.spawn with
      | none => simp [hsp] at hg
      | some k =>
        simp only [hsp, Option.map_some, Option.toList_some, List.mem_singleton] at hg
        subst hg
        rfl
    · exact h.plain i hi g hg

/-- a step of a worker begins no job, and brings the worker nearer to its sleep or its end -/
theorem undisturbed_other (h : m.Undisturbed t) (hm : m.Sound) (s : m.StepOf m' i th f below e) (hi : i ≠ t)
    (happly : m' = m.apply i th below e)
    (spins : m.ActiveWorker i → m.shared.stage = .running → m.shared.dispatcher.stopped = false) :
    m'.Undisturbed t ∧ m'.burden < m.burden := by
  have hplain : ∀ g ∈ f :: below, g.plain := s.top ▸ h.stack hi s.thread
  obtain ⟨hwake, hspawn, hempty⟩ := s.go.plainly (hplain f (.head _)) h.dispatches
  have hcore := s.core (plain_commands (hplain f (.head _)))
  have hstage : m'.shared.stage = m.shared.stage := congrArg Core.stage hcore
  obtain ⟨hafter, hload⟩ := load_own s.go (s.nested hm.formed) hplain h.dispatches h.empty fun hw =>
    spins ⟨th.calm, s.entry, hw, by simp [Thread.calm, s.top]⟩
  refine ⟨⟨s.writes.dispatches.trans h.dispatches, ?_, fun j hj g hg => ?_⟩, ?_⟩
  · rw [s.dispatcher]
    exact hempty h.empty
  · rw [s.stackAt, hspawn] at hg
    split at hg
    · obtain ⟨b, hb, rfl⟩ := List.mem_map.1 hg
      rw [plain_calm]
      exact hafter b hb
    · split at hg
      · cases hg
      · exact h.plain j hj g hg
  · have hset := sum_map_set (fun th : Thread => topLoad m.shared.stage th.stack) s.thread (th.after e.own below)
    have hthreads : m'.threads = wakeThreads e.wake (m.threads.set i (th.after e.own below)) := by
      rw [happly, apply, hspawn]
      exact List.append_nil _
    rw [burden, burden, hstage, hthreads, loads_wake _ _ hwake]
    rw [after_stack, s.top] at hset
    omega

end

end Machine

end SecureEndpoint.Workers
