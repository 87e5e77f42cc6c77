/-
What a single move does to an intake.

`Place.Steps` lists the steps of an operation, one constructor for each way in which a place can go on, and
`Machine.Moved` the moves; a proof about all moves is a proof by cases on these two. A move of a thread has the form
`Machine.turn`: the shared part and that one thread change, all other threads stay as they are. So whatever is counted
over the threads changes by what this thread contributes (`countP_turn`).

`Machine.run_keeps` is the one induction over runs: what every move keeps, every run keeps.
-/
import Mathlib.Data.List.Basic
import SecureEndpoint.Channel.Intake

namespace SecureEndpoint.Channel

/-! ## Steps -/

/-- the steps of an operation of thread `t`: from a place, to the shared part behind it and what becomes of the thread -/
inductive Place.Steps (s : Intake) (t : ThreadId) (k : Choice) : Place → Intake → After → Prop
  | openAgain (isOpen : s.isOpen = true) : Steps s t k .openFlag s .rest
  | openFirst (isOpen : s.isOpen = false) : Steps s t k .openFlag { s with isOpen := true } (.go .openPost)
  | openPost (alive : s.alive = true) :
      Steps s t k .openPost { s with dispatcher := s.dispatcher.post .round } .rest
  | openVain (alive : s.alive = false) : Steps s t k .openPost s .rest
  | closeFlag : Steps s t k .closeFlag { s with isOpen := false } (.go .closeTake)
  | closeTake (free : s.owner = none) :
      Steps s t k .closeTake { s with listening := false, waiting := [], closed := true } .rest
  | checkOpen (isOpen : s.isOpen = true) : Steps s t k .roundCheck s (.go .roundLock)
  | checkShut (isOpen : s.isOpen = false) : Steps s t k .roundCheck s .rest
  | lock (free : s.owner = none) (listening : s.listening = true) :
      Steps s t k .roundLock { s with owner := some t } (.go .roundWait)
  | lockVain (free : s.owner = none) (listening : s.listening = false) : Steps s t k .roundLock s .rest
  | ready (wait : k.wait = .ready) : Steps s t k .roundWait s (.go .roundAccept)
  | idle (wait : k.wait ≠ .ready) : Steps s t k .roundWait s (.go .roundRelease)
  | accept {c rest} (waiting : s.waiting = c :: rest) :
      Steps s t k .roundAccept ({ s with waiting := rest }.note .accepted c) (.go (.roundPost c))
  /-- nobody waits, or accepting fails -/
  | acceptNone : Steps s t k .roundAccept s (.go .roundRelease)
  | post {c} (alive : s.alive = true) :
      Steps s t k (.roundPost c) ({ s with dispatcher := s.dispatcher.post (.serve c) }.note .posted c) (.go .roundAccept)
  | lose {c} (alive : s.alive = false) : Steps s t k (.roundPost c) (s.note .lost c) (.go .roundAccept)
  | release : Steps s t k .roundRelease { s with owner := none } (.go .roundAgain)
  | again (alive : s.alive = true) : Steps s t k .roundAgain { s with dispatcher := s.dispatcher.post .round } .rest
  | againVain (alive : s.alive = false) : Steps s t k .roundAgain s .rest
  | prepare {c} : Steps s t k (.servePrepare c) (s.note .prepared c) (.go (.serveShake c))
  | unprepare {c} : Steps s t k (.servePrepare c) (s.note .unprepared c) .rest
  | agree {c} : Steps s t k (.serveShake c) (s.note .agreed c) (.go (.serveHandle c))
  | refuse {c} : Steps s t k (.serveShake c) (s.note .refused c) .rest
  | handle {c} : Steps s t k (.serveHandle c) (s.note .handled c) .rest
  /-- the handler panics -/
  | panic {c} : Steps s t k (.serveHandle c) (s.note .handled c) .die

theorem Place.steps {s s' : Intake} {t : ThreadId} {k : Choice} {p : Place} {a : After}
    (h : p.step s t k = some (s', a)) : p.Steps s t k s' a := by
  cases p with
  | openFlag =>
    cases isOpen : s.isOpen <;> simp only [step, isOpen] at h <;> cases h
    · exact .openFirst isOpen
    · exact .openAgain isOpen
  | openPost =>
    cases h
    unfold Intake.postRound
    split <;> rename_i alive
    · exact .openPost alive
    · exact .openVain (eq_false_of_ne_true alive)
  | closeFlag => cases h; exact .closeFlag
  | closeTake =>
    simp only [step] at h
    split at h <;> rename_i free <;> cases h
    exact .closeTake free
  | roundCheck =>
    cases isOpen : s.isOpen <;> simp only [step, isOpen] at h <;> cases h
    · exact .checkShut isOpen
    · exact .checkOpen isOpen
  | roundLock =>
    simp only [step] at h
    split at h <;> rename_i free
    · cases h
    · split at h <;> rename_i listening <;> cases h
      · exact .lock (not_not.1 free) listening
      · exact .lockVain (not_not.1 free) (eq_false_of_ne_true listening)
  | roundWait =>
    by_cases wait : k.wait = .ready <;> simp only [step, wait] at h <;> cases h
    · exact .ready wait
    · exact .idle wait
  | roundAccept =>
    cases waiting : s.waiting with
    | nil => simp only [step, waiting] at h; cases h; exact .acceptNone
    | cons c rest =>
      simp only [step, waiting] at h
      split at h <;> cases h
      · exact .acceptNone
      · exact .accept waiting
  | roundPost c =>
    cases h
    unfold Intake.postServe
    split <;> rename_i alive
    · exact .post alive
    · exact .lose (eq_false_of_ne_true alive)
  | roundRelease => cases h; exact .release
  | roundAgain =>
    cases h
    unfold Intake.postRound
    split <;> rename_i alive
    · exact .again alive
    · exact .againVain (eq_false_of_ne_true alive)
  | servePrepare c =>
    cases prepared : k.prepared <;> simp only [step, prepared] at h <;> cases h
    · exact .unprepare
    · exact .prepare
  | serveShake c =>
    cases agreed : k.agreed <;> simp only [step, agreed] at h <;> cases h
    · exact .refuse
    · exact .agree
  | serveHandle c =>
    cases panics : k.panics <;> simp only [step, panics] at h <;> cases h
    · exact .handle
    · exact .panic

/-- the ways in which a job is taken out of the queue -/
inductive Intake.Takes (s : Intake) : Task → Intake → Prop
  | round {rest} (going : s.dispatcher.stopped = false) (queue : s.dispatcher.queue = .round :: rest) :
      Takes s .round { s with dispatcher := { s.dispatcher with queue := rest } }
  | serve {c rest} (going : s.dispatcher.stopped = false) (queue : s.dispatcher.queue = .serve c :: rest) :
      Takes s (.serve c) ({ s with dispatcher := { s.dispatcher with queue := rest } }.note .taken c)
  | other {n rest} (going : s.dispatcher.stopped = false) (queue : s.dispatcher.queue = .other n :: rest) :
      Takes s (.other n) { s with dispatcher := { s.dispatcher with queue := rest } }

theorem Intake.takes {s s' : Intake} {j : Task} (h : s.take? = some (j, s')) : s.Takes j s' := by
  unfold take? Work.Dispatcher.take? at h
  cases going : s.dispatcher.stopped with
  | true => simp [going] at h
  | false =>
    cases queue : s.dispatcher.queue with
    | nil => simp [going, queue] at h
    | cons i rest =>
      cases i <;> simp [going, queue] at h <;> obtain ⟨rfl, rfl⟩ := h
      · exact going ▸ .round going queue
      · exact going ▸ .serve going queue
      · exact going ▸ .other going queue

/-! ## What a place stands for -/

namespace Place

/-- a round that has not posted the next one yet -/
def inRound : Place → Bool
  | .roundCheck | .roundLock | .roundWait | .roundAccept | .roundPost _ | .roundRelease | .roundAgain => true
  | _ => false

/-- the lock over the listening socket is held -/
def locks : Place → Bool
  | .roundWait | .roundAccept | .roundPost _ | .roundRelease => true
  | _ => false

/-- a call to close that has not returned -/
def closes : Place → Bool
  | .closeFlag | .closeTake => true
  | _ => false

/-- a connection in the hands of a thread, with the last thing that happened to it -/
def holds? : Place → Option (Mark × Connection)
  | .roundPost c => some (.accepted, c)
  | .servePrepare c => some (.taken, c)
  | .serveShake c => some (.prepared, c)
  | .serveHandle c => some (.agreed, c)
  | _ => none

end Place

namespace Thread

/-- a thread in the middle of an operation, at a place like this -/
def isAt (q : Place → Bool) : Thread → Bool
  | .busy p => q p
  | _ => false

@[simp] theorem isAt_idle (q : Place → Bool) : idle.isAt q = false := rfl

@[simp] theorem isAt_busy (q : Place → Bool) (p : Place) : (busy p).isAt q = q p := rfl

@[simp] theorem isAt_dead (q : Place → Bool) : dead.isAt q = false := rfl

/-- the connection in the hands of a thread -/
def holds? : Thread → Option (Mark × Connection)
  | .busy p => p.holds?
  | _ => none

/-- the connection in the hands of a thread, if this happened to it last -/
def marked? (k : Mark) (th : Thread) : Option Connection :=
  th.holds?.bind fun e => if e.1 = k then some e.2 else none

theorem marked?_eq_some {k : Mark} {th : Thread} {c : Connection} : th.marked? k = some c ↔ th.holds? = some (k, c) := by
  unfold marked?
  rcases th.holds? with _ | ⟨g, d⟩
  · simp
  · by_cases hk : g = k <;> simp [hk]

end Thread

/-- the connection that a job serves -/
def Task.connection? : Task → Option Connection
  | .serve c => some c
  | _ => none

namespace Intake

@[simp] theorem past_note (s : Intake) (k g : Mark) (c : Connection) :
    (s.note k c).past g = s.past g ++ if k = g then [c] else [] := by
  unfold past note
  by_cases h : k = g <;> simp [h]

/-- how many rounds wait in the queue -/
def rounds (s : Intake) : Nat := s.dispatcher.queue.count .round

/-- the connections that wait in the queue, in order -/
def queued (s : Intake) : List Connection := s.dispatcher.queue.filterMap Task.connection?

end Intake

namespace Machine

/-- how many threads are in the middle of an operation, at a place like this -/
def busy (m : Machine) (q : Place → Bool) : Nat := m.threads.countP (Thread.isAt q)

/-- the connections in the hands of threads to which this happened last -/
def present (m : Machine) (k : Mark) : List Connection := m.threads.filterMap (Thread.marked? k)

/-- a change of the shared part and of one thread -/
def turn (m : Machine) (s : Intake) (t : ThreadId) (b : Thread) : Machine := ⟨s, m.threads.set t b⟩

/-! ## Moves -/

/-- the moves, from a machine to the machine behind them -/
inductive Moved (m : Machine) : Move → Machine → Prop
  | enter : Moved m .enter ⟨m.intake, m.threads ++ [.idle]⟩
  | callOpen {t} (idle : m.threads[t]? = some .idle) : Moved m (.callOpen t) (m.turn m.intake t (.busy .openFlag))
  | callClose {t} (idle : m.threads[t]? = some .idle) : Moved m (.callClose t) (m.turn m.intake t (.busy .closeFlag))
  | take {t j s} (idle : m.threads[t]? = some .idle) (take : m.intake.Takes j s) :
      Moved m (.take t) (m.turn s t j.thread)
  | step {t k p s a} (thread : m.threads[t]? = some (.busy p)) (go : p.Steps m.intake t k s a) :
      Moved m (.step t k) (m.turn s t a.thread)
  | connect {c} (listening : m.intake.listening = true) :
      Moved m (.connect c) ⟨{ m.intake with waiting := m.intake.waiting ++ [c] }, m.threads⟩
  | post {n} : Moved m (.post n) ⟨{ m.intake with dispatcher := m.intake.dispatcher.post (.other n) }, m.threads⟩
  | stop : Moved m .stopDispatcher ⟨{ m.intake with dispatcher := m.intake.dispatcher.stop }, m.threads⟩
  | restart : Moved m .restartDispatcher ⟨{ m.intake with dispatcher := m.intake.dispatcher.restart }, m.threads⟩
  | drop : Moved m .dropDispatcher ⟨{ m.intake with dispatcher := {}, alive := false }, m.threads⟩

theorem begin_eq_some {m m' : Machine} {t : ThreadId} {th : Thread} (h : m.begin t th = some m') :
    m.threads[t]? = some .idle ∧ m' = m.turn m.intake t th := by
  unfold begin at h
  split at h <;> rename_i idle <;> cases h
  exact ⟨idle, rfl⟩

theorem moved {m m' : Machine} {x : Move} (h : m.move x = some m') : m.Moved x m' := by
  cases x with
  | enter => cases h; exact .enter
  | callOpen t =>
    obtain ⟨idle, rfl⟩ := begin_eq_some h
    exact .callOpen idle
  | callClose t =>
    obtain ⟨idle, rfl⟩ := begin_eq_some h
    exact .callClose idle
  | take t =>
    simp only [move] at h
    split at h
    · cases h
    · rename_i take
      obtain ⟨idle, rfl⟩ := begin_eq_some h
      exact .take idle (Intake.takes take)
  | step t k =>
    simp only [move] at h
    split at h
    · rename_i p thread
      obtain ⟨⟨s, a⟩, hs, rfl⟩ := Option.map_eq_some_iff.1 h
      exact .step thread (Place.steps hs)
    · cases h
  | connect c =>
    simp only [move] at h
    split at h <;> rename_i listening <;> cases h
    exact .connect listening
  | post n => cases h; exact .post
  | stopDispatcher => cases h; exact .stop
  | restartDispatcher => cases h; exact .restart
  | dropDispatcher => cases h; exact .drop

/-- what every move of a kind keeps, every run of such moves keeps -/
theorem run_keeps {I : Machine → Prop} {P : Move → Prop} (keeps : ∀ {m x m'}, P x → m.Moved x m' → I m → I m')
    {m : Machine} (h : I m) {moves : List Move} (hp : ∀ x ∈ moves, P x) : I (m.run moves) := by
  induction moves generalizing m with
  | nil => exact h
  | cons x moves ih =>
    have next : I ((m.move x).getD m) := by
      cases hm : m.move x with
      | none => exact h
      | some m' => exact keeps (hp x List.mem_cons_self) (moved hm) h
    exact ih next fun y hy => hp y (List.mem_cons_of_mem x hy)

/-! ## Counting over the threads -/

variable {m : Machine} {t : ThreadId} {a : Thread}

/-- the threads of a machine after a move of thread `t` -/
theorem turn_thread (h : m.threads[t]? = some a) (s : Intake) (b : Thread) (i : ThreadId) :
    (m.turn s t b).threads[i]? = if i = t then some b else m.threads[i]? := by
  have ht : t < m.threads.length := (List.getElem?_eq_some_iff.1 h).1
  rw [turn, List.getElem?_set]
  by_cases hi : i = t
  · subst hi
    rw [if_pos rfl, if_pos rfl, if_pos ht]
  · rw [if_neg hi, if_neg (Ne.symm hi)]

/-- a thread that comes into being is not in the middle of anything -/
theorem enter_busy {m : Machine} {t : ThreadId} {p : Place} :
    (m.threads ++ [.idle])[t]? = some (.busy p) ↔ m.threads[t]? = some (.busy p) := by
  rw [List.getElem?_append]
  split
  · rfl
  · rename_i beyond
    rw [List.getElem?_eq_none (Nat.le_of_not_lt beyond)]
    cases t - m.threads.length <;> simp

theorem countP_turn (h : m.threads[t]? = some a) (s : Intake) (b : Thread) (q : Thread → Bool) :
    (m.turn s t b).threads.countP q + (q a).toNat = m.threads.countP q + (q b).toNat := by
  obtain ⟨ht, ha⟩ := List.getElem?_eq_some_iff.1 h
  have hle : (q a).toNat ≤ m.threads.countP q := by
    cases hq : q a with
    | false => exact Nat.zero_le _
    | true => exact List.countP_pos_iff.2 ⟨a, List.mem_of_getElem? h, hq⟩
  rw [turn, List.countP_set ht, ha]
  cases hqa : q a <;> cases hqb : q b <;>
    simp only [hqa, Bool.toNat_true, Bool.toNat_false, Bool.false_eq_true, if_true, if_false] at hle ⊢ <;> omega

theorem busy_turn (h : m.threads[t]? = some a) (s : Intake) (b : Thread) (q : Place → Bool) :
    (m.turn s t b).busy q + (a.isAt q).toNat = m.busy q + (b.isAt q).toNat :=
  countP_turn h s b _

theorem busy_enter (m : Machine) (q : Place → Bool) : Machine.busy ⟨m.intake, m.threads ++ [.idle]⟩ q = m.busy q := by
  simp [busy, Thread.isAt]

theorem busy_pos {p : Place} {q : Place → Bool} (h : m.threads[t]? = some (.busy p)) (hq : q p = true) : 0 < m.busy q :=
  List.countP_pos_iff.2 ⟨_, List.mem_of_getElem? h, hq⟩

/-- two threads of a kind -/
theorem busy_two {u : ThreadId} {p r : Place} {q : Place → Bool} (ht : m.threads[t]? = some (.busy p))
    (hu : m.threads[u]? = some (.busy r)) (hp : q p = true) (hr : q r = true) (hne : u ≠ t) : 2 ≤ m.busy q := by
  have hset := busy_turn ht m.intake .idle q
  have hpos : 0 < (m.turn m.intake t .idle).busy q := by
    refine busy_pos (t := u) (p := r) ?_ hr
    rw [turn_thread ht, if_neg hne, hu]
  simp only [Thread.isAt, hp, Bool.toNat_true, Bool.toNat_false] at hset
  omega

end Machine

end SecureEndpoint.Channel
