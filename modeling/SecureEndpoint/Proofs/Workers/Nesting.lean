/-
How activations lie on top of each other.

An activation that waits for another one stands at a place that says for which kind of operation (`Frame.Calls`).
`Nested` is the shape of a stack: a worker's own loop, or the call of a thread from outside, lies at the bottom, and each
activation is called by the one below it.
- `formed_move`: every stack stays nested, and a worker without activations has ended.
- `Nested.hosts`: below an activation that can panic there are only jobs, loops and the worker itself. None of them
  holds a lock or has anything to undo, so a panic that takes them away loses nothing.
- `tally_own`: so a step changes how many activations satisfy a condition only by what becomes of its own.
-/
import SecureEndpoint.Proofs.Workers.Run

namespace SecureEndpoint.Workers

/-- what an activation does, wherever it stands -/
inductive Kind where
  | worker (index : Nat)
  | drive (mode : DriveMode)
  | job
  | post
  | ask (q : Question)
  | halt
  | revive
  | start
  | pause
  | resume
  | shutdown
  | stop
  | waitPaused
  | drop
  | meet
  | hold
  deriving DecidableEq

/-- the kind of an activation -/
def Frame.kind : Frame → Kind
  | .worker i _ => .worker i
  | .drive mode _ _ => .drive mode
  | .job .. => .job
  | .post .. => .post
  | .ask q _ => .ask q
  | .halt _ => .halt
  | .revive _ => .revive
  | .start _ => .start
  | .pause _ => .pause
  | .resume _ => .resume
  | .shutdown _ => .shutdown
  | .stop _ => .stop
  | .waitPaused .. => .waitPaused
  | .drop _ => .drop
  | .meet .. => .meet
  | .hold _ => .hold

/-- what a job or a thread from outside can call -/
def Kind.isCall : Kind → Bool
  | .worker _ | .job | .shutdown => false
  | _ => true

/-- the activation waits for a callee of this kind -/
inductive Frame.Calls : Frame → Kind → Prop
  | run {i} : Calls (.worker i .observe) (.drive .run)
  | job {mode n} : Calls (.drive mode n .inJob) .job
  | action {id due rest k} (h : k.isCall) : Calls (.job id due rest) k
  | restart : Calls (.start .release) .revive
  | undo {cause} : Calls (.start (.failed cause)) .stop
  | pause : Calls (.pause .release) .halt
  | resume : Calls (.resume .reread) .revive
  | unresume {g} : Calls (.resume (.refused g)) .halt
  | ask : Calls (.shutdown .ask) (.ask .stopped)
  | halt : Calls (.shutdown .tellResumed) .halt
  | shut : Calls (.stop .shut) .shutdown
  | stopping : Calls (.drop .stopping) .stop
  | detach : Calls (.drop .shut) .shutdown

/-- the stack of a thread that is this worker, or comes from outside -/
inductive Nested : Option Nat → List Frame → Prop
  | idle {w} : Nested w []
  | worker {i p} : Nested (some i) [.worker i p]
  | outside {f} (h : f.kind.isCall) : Nested none [f]
  | call {w f g rest} (lower : Nested w (g :: rest)) (h : g.Calls f.kind) : Nested w (f :: g :: rest)

@[simp] theorem kind_calm (f : Frame) : f.calm.kind = f.kind := by
  unfold Frame.calm
  split <;> rfl

@[simp] theorem kind_comp_calm : Frame.kind ∘ Frame.calm = Frame.kind := funext kind_calm

/-- an activation of this kind never sleeps, and has no limit -/
def Kind.wakeful : Kind → Bool
  | .worker _ | .drive _ | .waitPaused | .meet => false
  | _ => true

theorem calm_wakeful {f : Frame} (h : f.kind.wakeful) : f.calm = f := by
  unfold Frame.calm
  split <;> first | rfl | cases h

theorem eq_of_calm {f g : Frame} (h : f.calm = g) (hg : g.kind.wakeful) : f = g := by
  rw [← h, kind_calm] at hg
  rw [← h, calm_wakeful hg]

@[simp] theorem kind_receive (f : Frame) (v : Value) : (f.receive v).kind = f.kind := by
  unfold Frame.receive
  split <;> rfl

theorem calls_calm {f : Frame} {k : Kind} : f.calm.Calls k ↔ f.Calls k := by
  unfold Frame.calm
  split <;> first | rfl | exact ⟨fun h => (by cases h), fun h => (by cases h)⟩

namespace Nested

variable {w : Option Nat} {f g : Frame} {rest : List Frame}

/-- the innermost activation may go on to any place of its operation -/
theorem goOn (h : Nested w (f :: rest)) (hk : g.kind = f.kind) : Nested w (g :: rest) := by
  cases h with
  | worker =>
    cases g <;> simp only [Frame.kind, reduceCtorEq, Kind.worker.injEq] at hk
    subst hk
    exact .worker
  | outside hc => exact .outside (hk ▸ hc)
  | call lower hc => exact .call lower (hk ▸ hc)

theorem tail (h : Nested w (f :: rest)) : Nested w rest := by
  cases h with
  | worker => exact .idle
  | outside _ => exact .idle
  | call lower _ => exact lower

theorem called (h : Nested w (f :: g :: rest)) : g.Calls f.kind := by
  cases h with
  | call _ hc => exact hc

/-- a worker's own loop lies at the bottom -/
theorem isWorker {i : Nat} {p : WorkerPlace} (h : Nested w (.worker i p :: rest)) : w = some i ∧ rest = [] := by
  cases h with
  | worker => exact ⟨rfl, rfl⟩
  | outside hc => cases hc
  | call _ hc =>
    cases hc with
    | action hc => cases hc

theorem of_calm {stack : List Frame} (h : Nested w (stack.map Frame.calm)) : Nested w stack := by
  induction stack with
  | nil => exact .idle
  | cons f below ih =>
    cases below with
    | nil => exact h.goOn (kind_calm f).symm
    | cons g rest => exact .call (ih h.tail) (by simpa [calls_calm] using h.called)

end Nested

/-! ## What lies below a job -/

/-- a job, a loop that drives the dispatcher, or a start: what a panic can begin in -/
def Kind.isWork : Kind → Bool
  | .job | .drive _ | .start => true
  | _ => false

/-- a job, a loop inside a job, or a worker inside a loop -/
def Frame.hosts : Frame → Bool
  | .job .. | .drive _ _ .inJob | .worker _ .observe => true
  | _ => false

theorem calls_hosts {g : Frame} {k : Kind} (h : g.Calls k) (hk : k.isWork) :
    g.hosts ∧ (g.kind.isWork ∨ ∃ i, g = .worker i .observe) := by
  cases h <;> first | exact ⟨rfl, .inl rfl⟩ | exact ⟨rfl, .inr ⟨_, rfl⟩⟩ | cases hk

/-- below whatever can panic there are only jobs, loops and the worker itself -/
theorem Nested.hosts {w : Option Nat} {f : Frame} {below : List Frame} (h : Nested w (f :: below)) (hk : f.kind.isWork) :
    ∀ g ∈ below, g.hosts := by
  induction below generalizing f with
  | nil => nofun
  | cons g rest ih =>
    intro b hb
    cases h with
    | call lower hc =>
      obtain ⟨hhost, hwork | ⟨i, rfl⟩⟩ := calls_hosts hc hk
      · rcases List.mem_cons.1 hb with rfl | hb
        · exact hhost
        · exact ih lower hwork b hb
      · -- nobody calls a worker
        rw [lower.isWorker.2] at hb
        rw [List.mem_singleton.1 hb]
        exact hhost

/-! ## Steps keep the nesting -/

/-- what an activation of this kind can become by its own step -/
def Own.Fits (k : Kind) : Own → Prop
  | .become g => g.kind = k
  | .call g callee => g.kind = k ∧ g.Calls callee.kind
  | .ret _ => True
  | .unwind => k.isWork

theorem Frame.Begins.isCall {f : Frame} (h : f.Begins) : f.kind.isCall := by
  cases h with
  | call c => cases c <;> rfl
  | meet => rfl
  | hold => rfl

theorem Transition.fits {m : Machine} {t : ThreadId} {f : Frame} {e : Effect} (h : Transition m t f e) :
    e.own.Fits f.kind := by
  cases h with
  | take h => cases h <;> rfl
  | run => exact ⟨rfl, .run⟩
  | @whim mode n p w =>
    cases w with
    | leave => exact trivial
    | handOut j => exact ⟨rfl, .job⟩
    | panic => exact rfl
  | lookTake => exact ⟨rfl, .job⟩
  | jobCall h => exact ⟨rfl, .action h.isCall⟩
  | mark => exact ⟨rfl, .restart⟩
  | undo => exact ⟨rfl, .undo⟩
  | paused => exact ⟨rfl, .pause⟩
  | resumeRestart => exact ⟨rfl, .resume⟩
  | shutAsk => exact ⟨rfl, .ask⟩
  | shutHalt => exact ⟨rfl, .halt⟩
  | stopShut => exact ⟨rfl, .shut⟩
  | dropElsewhere => exact ⟨rfl, .stopping⟩
  | dropShut => exact ⟨rfl, .detach⟩
  | _ => first | exact rfl | exact trivial

/-! ## Every stack is nested -/

/-- a thread whose stack has its shape, and which has ended exactly when it is a worker without activations -/
structure Thread.Formed (th : Thread) : Prop where
  nested : Nested th.worker th.stack
  ended : th.life ≠ .active ↔ th.worker.isSome ∧ th.stack = []

theorem formed_entry {th : Thread} {f : Frame} {below : List Frame} {own : Own} (h : th.calm.Formed)
    (hs : th.stack = f :: below) (hf : own.Fits f.kind) : (own.entry th below).Formed := by
  have hn : Nested th.worker (f.calm :: below.map Frame.calm) := by simpa [Thread.calm, hs] using h.nested
  have ha : th.life = .active := by simpa [Thread.calm, hs] using h.ended
  cases own with
  | become g =>
    have hk : g.kind = f.kind := hf
    exact ⟨hn.goOn (by simpa using hk), by simp [Own.entry, Own.life, Own.stack, ha]⟩
  | call g callee =>
    obtain ⟨hk, hc⟩ := hf
    refine ⟨.call (hn.goOn (by simpa using hk)) ?_, by simp [Own.entry, Own.life, Own.stack, ha]⟩
    rw [kind_calm]
    exact calls_calm.2 hc
  | ret v =>
    cases below with
    | nil => exact ⟨.idle, by by_cases hw : th.worker.isSome <;> simp [Own.entry, Own.life, Own.stack, ha, hw]⟩
    | cons b rest =>
      refine ⟨hn.tail.goOn (by simp), by simp [Own.entry, Own.life, Own.stack, ha]⟩
  | unwind => exact ⟨.idle, by by_cases hw : th.worker.isSome <;> simp [Own.entry, Own.life, Own.stack, ha, hw]⟩

/-- every thread is formed -/
def Machine.Formed (m : Machine) : Prop := ∀ th ∈ m.roster, th.Formed

namespace Machine

theorem formed_fresh (size : Nat) (stem : String) (dispatches : Bool) : (fresh size stem dispatches).Formed := by
  simp [Formed, fresh, roster]

theorem formed_move {m m' : Machine} {w : Option (Stage × Change)} (h : m.Formed) (mv : m.Moved m' w) :
    m'.Formed := by
  intro u hu
  cases mv with
  | step s =>
    rw [s.roster, List.mem_append] at hu
    rcases hu with hu | hu
    · rcases List.mem_or_eq_of_mem_set hu with hu | rfl
      · exact h u hu
      · exact formed_entry (h _ (List.mem_of_getElem? s.entry)) s.top s.go.fits
    · obtain ⟨k, -, rfl⟩ : ∃ k, _ ∧ newWorker k = u := by simpa using hu
      exact ⟨.worker, by simp [newWorker]⟩
  | still _ _ hr => exact h u (hr ▸ hu)
  | call c ht hw hs _ hr =>
    rw [hr] at hu
    rcases List.mem_or_eq_of_mem_set hu with hu | rfl
    · exact h u hu
    · have hth := (h _ (List.mem_of_getElem? ht)).ended
      refine ⟨.outside (by cases c <;> rfl), ?_⟩
      simpa [hw] using hth
  | enter _ hr =>
    rw [hr, List.mem_append] at hu
    rcases hu with hu | hu
    · exact h u hu
    · rw [List.mem_singleton.1 hu]
      exact ⟨.idle, by simp⟩

theorem StepOf.nested {m m' : Machine} {t : ThreadId} {th : Thread} {f : Frame} {below : List Frame} {e : Effect}
    (s : m.StepOf m' t th f below e) (h : m.Formed) : Nested th.worker (f :: below) := by
  have hn : Nested th.worker (th.stack.map Frame.calm) := (h _ (List.mem_of_getElem? s.entry)).nested
  rw [s.top] at hn
  exact hn.of_calm

theorem Formed.thread {m : Machine} (h : m.Formed) {t : ThreadId} {th : Thread} (ht : m.threads[t]? = some th) :
    th.Formed := by
  have hc := h th.calm (List.mem_map_of_mem (List.mem_of_getElem? ht))
  exact ⟨hc.nested.of_calm, by simpa [Thread.calm] using hc.ended⟩

/-- a step changes the number of activations by what becomes of its own, where answers change nothing and what lies below
a job does not count -/
theorem tally_own {m m' : Machine} {t : ThreadId} {th : Thread} {f : Frame} {below : List Frame} {e : Effect}
    {p : Frame → Bool} (cp : Countable p) (receive : ∀ f v, p (Frame.receive v f) = p f)
    (hosts : ∀ g : Frame, g.hosts → p g = false) (hm : m.Formed) (s : m.StepOf m' t th f below e) :
    m'.tally p + [f].countP p = m.tally p + e.own.frames.countP p := by
  have hcount := tally_step cp s
  have hstack : (e.own.stack below).countP p = e.own.frames.countP p + below.countP p := by
    by_cases hu : e.own = .unwind
    · have hfit := s.go.fits
      rw [hu] at hfit ⊢
      have hzero : below.countP p = 0 := by
        rw [List.countP_eq_zero]
        intro g hg
        simp [hosts g ((s.nested hm).hosts hfit g hg)]
      rw [hzero]
      rfl
    · exact countP_own receive below hu
  rw [List.countP_cons, hstack] at hcount
  rw [List.countP_singleton]
  omega

end Machine

end SecureEndpoint.Workers
