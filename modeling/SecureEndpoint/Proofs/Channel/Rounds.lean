/-
The rounds of an intake: one while it is open, none to be had once it was closed.

Rounds live in the queue of the dispatcher and in the threads that run them. Opening promises one: between setting the
flag and posting, the round is still owed. `Sound` says what every reachable machine is like:
- `owned`: the owner of the lock over the listening socket is the thread whose place holds it;
- `final`, `released`: the listening socket is gone exactly when a call to close has returned, and then the lock is free
  for good, because no round can get past the missing socket;
- `loop`: as long as nobody has called close, the rounds and the promised ones together are one if the flag is set and
  none otherwise.

Results:
- `one_round_while_open`: however the threads are interleaved, an open intake has exactly one round, and nobody waits;
- `open_is_true_iff`: the flag can be believed as long as no call to close has returned, and not any longer;
- `open_without_socket`: opening again what was closed sets the flag, and there is neither a socket nor, soon, a round.
-/
import SecureEndpoint.Proofs.Channel.Moves

namespace SecureEndpoint.Channel

/-! ## The lock -/

theorem Place.inRound_of_locks {p : Place} (h : p.locks = true) : p.inRound = true := by
  cases p <;> first | rfl | cases h

/-- what a step does to the lock -/
inductive LockStep (t : ThreadId) (old new : Option ThreadId) (before after : Bool) : Prop
  | keep (owner : new = old) (same : after = before)
  | take (free : old = none) (owner : new = some t) (holds : after = true)
  | give (held : before = true) (owner : new = none) (free : after = false)

theorem Place.Steps.lockStep {s s' : Intake} {t : ThreadId} {k : Choice} {p : Place} {a : After}
    (h : p.Steps s t k s' a) : LockStep t s.owner s'.owner p.locks (a.thread.isAt Place.locks) := by
  cases h with
  | lock free => exact .take free rfl rfl
  | release => exact .give rfl rfl rfl
  | _ => exact .keep rfl rfl

namespace Machine

/-- thread `t` stands where the lock is held -/
def holdsLock (m : Machine) (t : ThreadId) : Bool := (m.threads[t]?).any (Thread.isAt Place.locks)

/-- the owner of the lock is the thread whose place holds it -/
def Owned (m : Machine) : Prop := ∀ t, m.intake.owner = some t ↔ m.holdsLock t = true

theorem holdsLock_iff {m : Machine} {t : ThreadId} :
    m.holdsLock t = true ↔ ∃ p, m.threads[t]? = some (.busy p) ∧ p.locks = true := by
  unfold holdsLock
  rcases m.threads[t]? with _ | _ | p | _ <;> simp

theorem holdsLock_enter (m : Machine) (t : ThreadId) :
    Machine.holdsLock ⟨m.intake, m.threads ++ [.idle]⟩ t = m.holdsLock t := by
  rw [Bool.eq_iff_iff, holdsLock_iff, holdsLock_iff]
  simp only [enter_busy]

theorem owned_turn {m : Machine} {t : ThreadId} {a b : Thread} {s : Intake} (hm : m.Owned)
    (ht : m.threads[t]? = some a)
    (lock : LockStep t m.intake.owner s.owner (a.isAt Place.locks) (b.isAt Place.locks)) : (m.turn s t b).Owned := by
  intro i
  have before : m.holdsLock t = a.isAt Place.locks := by rw [holdsLock, ht, Option.any_some]
  have after : (m.turn s t b).holdsLock i = if i = t then b.isAt Place.locks else m.holdsLock i := by
    rw [holdsLock, turn_thread ht]
    split <;> rfl
  have owner_eq : (m.turn s t b).intake.owner = s.owner := rfl
  rw [after, owner_eq]
  by_cases hit : i = t
  · subst hit
    rw [if_pos rfl]
    cases lock with
    | keep owner same => rw [owner, same, ← before, hm i]
    | take free owner holds => exact iff_of_true owner holds
    | give held owner free => rw [owner, free]; exact iff_of_false nofun nofun
  · have other : some t ≠ some i := fun e => hit (Option.some.inj e).symm
    rw [if_neg hit, ← hm i]
    cases lock with
    | keep owner same => rw [owner]
    | take free owner holds => rw [owner, free]; exact iff_of_false other nofun
    | give held owner free =>
      -- the lock was held by `t` alone
      rw [owner, (hm t).2 (before.trans held)]
      exact iff_of_false nofun other

theorem owned_moved {m m' : Machine} {x : Move} (h : m.Moved x m') (hm : m.Owned) : m'.Owned := by
  cases h with
  | enter => exact fun t => (holdsLock_enter m t).symm ▸ hm t
  | callOpen idle => exact owned_turn hm idle (.keep rfl rfl)
  | callClose idle => exact owned_turn hm idle (.keep rfl rfl)
  | take idle take => exact owned_turn hm idle (by cases take <;> exact .keep rfl rfl)
  | step thread go => exact owned_turn hm thread go.lockStep
  | connect | post | stop | restart | drop => exact hm

end Machine

/-! ## The listening socket -/

/-- the listening socket is gone exactly when a call to close has returned, and then nobody holds the lock -/
structure Intake.Sealed (s : Intake) : Prop where
  final : s.listening = !s.closed
  released : s.closed = true → s.owner = none

theorem Place.Steps.sealed {s s' : Intake} {t : ThreadId} {k : Choice} {p : Place} {a : After} (h : p.Steps s t k s' a)
    (hs : s.Sealed) : s'.Sealed := by
  cases h with
  | closeTake free => exact ⟨rfl, fun _ => free⟩
  | lock free listening =>
    refine ⟨hs.final, fun closed => ?_⟩
    have closed : s.closed = true := closed
    rw [hs.final, closed] at listening
    cases listening
  | release => exact ⟨hs.final, fun _ => rfl⟩
  | _ => exact ⟨hs.final, hs.released⟩

theorem Machine.sealed_moved {m m' : Machine} {x : Move} (h : m.Moved x m') (hm : m.intake.Sealed) : m'.intake.Sealed := by
  cases h with
  | take idle take => cases take <;> exact ⟨hm.final, hm.released⟩
  | step thread go => exact go.sealed hm
  | _ => exact ⟨hm.final, hm.released⟩

/-! ## The loop of rounds -/

/-- a round, or the posting of the first one -/
def Place.promises (p : Place) : Bool := p.inRound || p = .openPost

theorem count_post (d : Work.Dispatcher Task) (j : Task) :
    (d.post j).queue.count .round = d.queue.count .round + if j = .round then 1 else 0 := by
  simp [Work.Dispatcher.post, List.count_singleton]

/-- a step that does not close brings a promised round for the flag it sets, and loses none -/
theorem Place.Steps.balance {s s' : Intake} {t : ThreadId} {k : Choice} {p : Place} {a : After} (h : p.Steps s t k s' a)
    (alive : s.alive = true) (listening : s.listening = true) (quiet : p.closes = false)
    (shown : p.promises = true → s.isOpen = true) :
    s'.rounds + (a.thread.isAt Place.promises).toNat + s.isOpen.toNat = s.rounds + p.promises.toNat + s'.isOpen.toNat := by
  cases h with
  | closeFlag | closeTake => cases quiet
  | checkShut isOpen => rw [isOpen] at shown; cases shown rfl
  | lockVain _ gone => rw [gone] at listening; cases listening
  | openVain gone | againVain gone => rw [gone] at alive; cases alive
  | openFirst isOpen => rw [isOpen]; rfl
  | openPost | again | post => simp [promises, inRound, After.thread, Intake.note, Intake.rounds, count_post]
  | _ => rfl

theorem Intake.Takes.balance {s s' : Intake} {j : Task} (h : s.Takes j s') :
    s'.rounds + (j.thread.isAt Place.promises).toNat = s.rounds := by
  cases h with
  | round _ queue => simp [rounds, queue, Task.thread, Place.promises, Place.inRound]
  | serve _ queue => simp [rounds, queue, Task.thread, Place.promises, Place.inRound, note]
  | other _ queue => simp [rounds, queue, Task.thread]

/-- only a call to close comes to stand where one stands -/
theorem Place.Steps.closes {s s' : Intake} {t : ThreadId} {k : Choice} {p : Place} {a : After} (h : p.Steps s t k s' a)
    (open_ : s'.closed = false) : p.closes = a.thread.isAt Place.closes := by
  cases h with
  | closeTake => cases open_
  | _ => rfl

theorem Intake.Takes.closes {s s' : Intake} {j : Task} (h : s.Takes j s') : j.thread.isAt Place.closes = false := by
  cases h <;> rfl

theorem Place.Steps.alive {s s' : Intake} {t : ThreadId} {k : Choice} {p : Place} {a : After} (h : p.Steps s t k s' a) :
    s'.alive = s.alive := by
  cases h <;> rfl

theorem Place.Steps.closed {s s' : Intake} {t : ThreadId} {k : Choice} {p : Place} {a : After} (h : p.Steps s t k s' a) :
    s'.closed = (s.closed || p = .closeTake) := by
  cases h with
  | closeTake => exact (Bool.or_true _).symm
  | _ => exact (Bool.or_false _).symm

namespace Machine

/-- the dispatcher is there, and nobody has called close so far -/
structure Untouched (m : Machine) : Prop where
  alive : m.intake.alive = true
  unclosed : m.intake.closed = false
  uncalled : m.busy Place.closes = 0

/-- the rounds there are: in the queue, or in a thread that has not posted the next one -/
def rounds (m : Machine) : Nat := m.intake.rounds + m.busy Place.inRound

/-- the calls to open that have set the flag and not posted the first round yet -/
def promised (m : Machine) : Nat := m.busy fun p => p = .openPost

theorem untouched_before {m m' : Machine} {x : Move} (h : m.Moved x m') (hm : m'.Untouched) : m.Untouched := by
  cases h with
  | enter => exact ⟨hm.alive, hm.unclosed, busy_enter m _ ▸ hm.uncalled⟩
  | callOpen idle =>
    have hset := busy_turn idle m.intake (.busy .openFlag) Place.closes
    rw [hm.uncalled] at hset
    exact ⟨hm.alive, hm.unclosed, hset.symm⟩
  | callClose idle =>
    have hset := busy_turn idle m.intake (.busy .closeFlag) Place.closes
    rw [hm.uncalled] at hset
    cases hset
  | @take t j s idle take =>
    have hset := busy_turn idle s j.thread Place.closes
    rw [hm.uncalled, take.closes] at hset
    have alive := hm.alive
    have unclosed := hm.unclosed
    cases take <;> exact ⟨alive, unclosed, hset.symm⟩
  | @step t k p s a thread go =>
    have hset := busy_turn thread s a.thread Place.closes
    rw [Thread.isAt_busy, go.closes hm.unclosed, hm.uncalled] at hset
    exact ⟨go.alive ▸ hm.alive, (Bool.or_eq_false_iff.1 (go.closed ▸ hm.unclosed)).1, by omega⟩
  | drop => cases hm.alive
  | _ => exact ⟨hm.alive, hm.unclosed, hm.uncalled⟩

/-- as long as nobody has called close, a set flag stands for one round, there or promised -/
def Looped (m : Machine) : Prop := m.Untouched → m.intake.rounds + m.busy Place.promises = m.intake.isOpen.toNat

theorem looped_moved {m m' : Machine} {x : Move} (h : m.Moved x m') (sealed : m.intake.Sealed) (hm : m.Looped) :
    m'.Looped := by
  intro after
  have before := untouched_before h after
  have loop := hm before
  cases h with
  | enter => rw [busy_enter]; exact loop
  | callOpen idle =>
    have hset := busy_turn idle m.intake (.busy .openFlag) Place.promises
    exact (congrArg _ hset).trans loop
  | callClose idle =>
    have hset := busy_turn idle m.intake (.busy .closeFlag) Place.promises
    exact (congrArg _ hset).trans loop
  | @take t j s idle take =>
    have hset := busy_turn idle s j.thread Place.promises
    have hbal := take.balance
    have same : s.isOpen = m.intake.isOpen := by cases take <;> rfl
    simp only [turn, Thread.isAt_idle, Bool.toNat_false] at hset ⊢
    rw [same]
    omega
  | @step t k p s a thread go =>
    have hset := busy_turn thread s a.thread Place.promises
    have quiet : p.closes = false := by
      cases hp : p.closes with
      | false => rfl
      | true => exact absurd before.uncalled (Nat.pos_iff_ne_zero.1 (busy_pos thread hp))
    have shown : p.promises = true → m.intake.isOpen = true := fun hp => by
      have hpos := busy_pos thread hp
      cases ho : m.intake.isOpen with
      | true => rfl
      | false => rw [ho, Bool.toNat_false] at loop; omega
    have listening : m.intake.listening = true := by rw [sealed.final, before.unclosed]; rfl
    have hbal := go.balance before.alive listening quiet shown
    simp only [turn, Thread.isAt_busy] at hset ⊢
    omega
  | post =>
    refine (congrArg (· + m.busy Place.promises) ?_).trans loop
    simp [Intake.rounds, count_post]
  | drop => cases after.alive
  | _ => exact loop

theorem untouched_after {m m' : Machine} {x : Move} (h : m.Moved x m') (hx : (∀ t, x ≠ .callClose t) ∧ x ≠ .dropDispatcher)
    (hm : m.Untouched) : m'.Untouched := by
  cases h with
  | enter => exact ⟨hm.alive, hm.unclosed, (busy_enter m _).trans hm.uncalled⟩
  | callOpen idle =>
    have hset := busy_turn idle m.intake (.busy .openFlag) Place.closes
    exact ⟨hm.alive, hm.unclosed, hset.trans hm.uncalled⟩
  | @callClose t idle => exact absurd rfl (hx.1 t)
  | @take t j s idle take =>
    have hset := busy_turn idle s j.thread Place.closes
    rw [take.closes, hm.uncalled] at hset
    refine ⟨?_, ?_, hset⟩
    · exact Eq.trans (by cases take <;> rfl) hm.alive
    · exact Eq.trans (by cases take <;> rfl) hm.unclosed
  | @step t k p s a thread go =>
    have quiet : p.closes = false := by
      cases hp : p.closes with
      | false => rfl
      | true => exact absurd hm.uncalled (Nat.pos_iff_ne_zero.1 (busy_pos thread hp))
    have unclosed : s.closed = false := by
      rw [go.closed, hm.unclosed]
      cases p <;> first | rfl | cases quiet
    have hset := busy_turn thread s a.thread Place.closes
    rw [Thread.isAt_busy, ← go.closes unclosed, hm.uncalled] at hset
    exact ⟨go.alive.trans hm.alive, unclosed, by omega⟩
  | drop => exact absurd rfl hx.2
  | _ => exact ⟨hm.alive, hm.unclosed, hm.uncalled⟩

/-! ## Every run -/

/-- what every reachable machine is like -/
structure Sound (m : Machine) : Prop where
  owned : m.Owned
  sealed : m.intake.Sealed
  loop : m.Looped

theorem sound_start : Sound {} where
  owned t := by simp [holdsLock]
  sealed := ⟨rfl, nofun⟩
  loop _ := rfl

theorem sound_moved {m m' : Machine} {x : Move} (h : m.Moved x m') (hm : m.Sound) : m'.Sound :=
  ⟨owned_moved h hm.owned, sealed_moved h hm.sealed, looped_moved h hm.sealed hm.loop⟩

theorem sound_run (moves : List Move) : (Machine.run {} moves).Sound :=
  run_keeps (P := fun _ => True) (fun _ => sound_moved) sound_start fun _ _ => trivial

theorem busy_promises (m : Machine) : m.busy Place.promises = m.busy Place.inRound + m.promised := by
  unfold promised busy
  induction m.threads with
  | nil => rfl
  | cons th threads ih =>
    simp only [List.countP_cons, ih]
    cases th with
    | busy p => cases p <;> simp [Place.promises, Place.inRound] <;> omega
    | _ => simp

/-- a step is possible unless it wants a lock that somebody holds -/
theorem step_possible {m : Machine} {t : ThreadId} {p : Place} (thread : m.threads[t]? = some (.busy p))
    (free : p = .closeTake ∨ p = .roundLock → m.intake.owner = none) (k : Choice) :
    ∃ m', m.move (.step t k) = some m' := by
  obtain ⟨r, hr⟩ : ∃ r, p.step m.intake t k = some r := by
    cases p with
    | closeTake => exact ⟨_, if_pos (free (.inl rfl))⟩
    | roundLock => exact ⟨_, if_neg (not_not.2 (free (.inr rfl)))⟩
    | roundAccept =>
      simp only [Place.step]
      split
      · exact ⟨_, rfl⟩
      · split <;> exact ⟨_, rfl⟩
    | _ => exact ⟨_, rfl⟩
  exact ⟨_, by simp only [move, thread, hr]; rfl⟩

/-- **One round while open.** As long as nobody calls close and the dispatcher is there, the rounds that wait in the queue
and those that run and have not posted the next one are exactly one if the intake is open and no call to open is about to
post the first, and none otherwise. Nobody waits for a lock, so the round goes on whenever its thread does. -/
theorem one_round_while_open {moves : List Move} (uncalled : ∀ t, Move.callClose t ∉ moves)
    (kept : Move.dropDispatcher ∉ moves) :
    let m := Machine.run {} moves
    (m.rounds = if m.intake.isOpen = true ∧ m.promised = 0 then 1 else 0) ∧
      ∀ t p k, m.threads[t]? = some (.busy p) → ∃ m', m.move (.step t k) = some m' := by
  intro m
  have sound : m.Sound := sound_run moves
  have untouched : m.Untouched :=
    run_keeps (P := fun x => (∀ t, x ≠ .callClose t) ∧ x ≠ .dropDispatcher) (fun hx h hm => untouched_after h hx hm)
      ⟨rfl, rfl, rfl⟩ fun x hx => ⟨fun t ht => uncalled t (ht ▸ hx), fun hd => kept (hd ▸ hx)⟩
  have loop := sound.loop untouched
  rw [busy_promises] at loop
  constructor
  · unfold rounds
    cases ho : m.intake.isOpen with
    | false =>
      rw [ho, Bool.toNat_false] at loop
      rw [if_neg (by simp)]
      omega
    | true =>
      rw [ho, Bool.toNat_true] at loop
      split <;> rename_i hp
      · omega
      · have hp : m.promised ≠ 0 := fun e => hp ⟨rfl, e⟩
        omega
  · intro t p k thread
    refine step_possible thread ?_ k
    rintro (rfl | rfl)
    · exact absurd untouched.uncalled (Nat.pos_iff_ne_zero.1 (busy_pos thread rfl))
    · -- who holds the lock is in a round as well, and there are no two of them
      cases owner : m.intake.owner with
      | none => rfl
      | some u =>
        obtain ⟨r, hu, locks⟩ := holdsLock_iff.1 ((sound.owned u).1 owner)
        have other : u ≠ t := by
          rintro rfl
          rw [thread] at hu
          cases hu
          cases locks
        have two : 2 ≤ m.busy Place.inRound := busy_two thread hu rfl (Place.inRound_of_locks locks) other
        have := Bool.toNat_le m.intake.isOpen
        omega

/-- thread `t` goes on for `n` steps -/
def steps (t : ThreadId) (n : Nat) : List Move := List.replicate n (.step t {})

/-- two threads open the intake at once; one of them accepts a connection, for which the handler panics in a third; the
dispatcher is stopped and restarted while the round stands there with the lock -/
def racing : List Move :=
  [.enter, .enter, .enter, .callOpen 0, .callOpen 1] ++ steps 0 1 ++ steps 1 1 ++ steps 0 1 ++ [.connect 5, .take 1] ++
    steps 1 5 ++ [.take 2] ++ steps 2 2 ++ [.step 2 { panics := true }, .stopDispatcher, .callOpen 0] ++ steps 0 1 ++
    [.restartDispatcher]

theorem one_round_while_open_racing :
    (∀ t, Move.callClose t ∉ racing) ∧ Move.dropDispatcher ∉ racing ∧
      (Machine.run {} racing).threads = [.idle, .busy .roundAccept, .dead] ∧
      (Machine.run {} racing).intake.isOpen = true ∧ (Machine.run {} racing).promised = 0 ∧
      (Machine.run {} racing).rounds = 1 ∧ ∃ m', (Machine.run {} racing).move (.step 1 {}) = some m' := by
  have uncalled : ∀ t, Move.callClose t ∉ racing := fun t => by simp [racing, steps]
  have kept : Move.dropDispatcher ∉ racing := by decide
  obtain ⟨one, goes⟩ := one_round_while_open uncalled kept
  have threads : (Machine.run {} racing).threads = [.idle, .busy .roundAccept, .dead] := by decide
  exact ⟨uncalled, kept, threads, by decide, by decide, one.trans (by decide), goes 1 .roundAccept {} (by rw [threads]; rfl)⟩

/-- **Open is true until closed.** Take any run, and let no call to close be in progress and the flag be set. The listening
socket is there, with a round in the queue or in a thread (unless the dispatcher is gone or a call to open is about to post
it), if and only if no call to close has returned before. -/
theorem open_is_true_iff {moves : List Move} (settled : (Machine.run {} moves).busy Place.closes = 0)
    (isOpen : (Machine.run {} moves).intake.isOpen = true) :
    let m := Machine.run {} moves
    (m.intake.listening = true ∧ (m.intake.alive = true → m.promised = 0 → 0 < m.rounds)) ↔ m.intake.closed = false := by
  intro m
  have sound : m.Sound := sound_run moves
  have final := sound.sealed.final
  constructor
  · rintro ⟨listening, -⟩
    rw [listening] at final
    simpa using final.symm
  · intro unclosed
    refine ⟨by rw [final, unclosed]; rfl, fun alive kept => ?_⟩
    have loop := sound.loop ⟨alive, unclosed, settled⟩
    rw [busy_promises, kept, isOpen, Bool.toNat_true] at loop
    unfold rounds
    omega

/-- one thread opens, closes and opens again, and takes the two rounds that wait by then -/
def reopened : List Move :=
  [.enter, .callOpen 0] ++ steps 0 2 ++ [.callClose 0] ++ steps 0 2 ++ [.callOpen 0] ++ steps 0 2 ++ [.take 0] ++
    steps 0 2 ++ [.take 0] ++ steps 0 2

/-- the flag is set, nobody is in the middle of anything, and there is neither a listening socket nor a round -/
theorem open_without_socket :
    let m := Machine.run {} reopened
    m.busy (fun _ => true) = 0 ∧ m.intake.alive = true ∧ m.intake.isOpen = true ∧ m.intake.listening = false ∧
      m.rounds = 0 := by
  decide

theorem open_is_true_iff_racing :
    let m := Machine.run {} racing
    m.busy Place.closes = 0 ∧ m.intake.isOpen = true ∧ m.intake.closed = false ∧ m.intake.alive = true ∧ m.promised = 0 ∧
      m.intake.listening = true ∧ 0 < m.rounds := by
  intro m
  have settled : m.busy Place.closes = 0 := by decide
  have isOpen : m.intake.isOpen = true := by decide
  have unclosed : m.intake.closed = false := by decide
  have alive : m.intake.alive = true := by decide
  have kept : m.promised = 0 := by decide
  obtain ⟨listening, rounds⟩ := (open_is_true_iff settled isOpen).2 unclosed
  exact ⟨settled, isOpen, unclosed, alive, kept, listening, rounds alive kept⟩

end Machine

end SecureEndpoint.Channel
