/-
Every accepted connection is served once, and closing is final.

A connection goes from station to station: accepted by a round, posted, taken by a thread, prepared, agreed, handled, with
exits where preparing or agreeing fails. Every station writes a mark into the journal. Between two marks the connection
waits in the queue or is in the hands of a thread (`Machine.present`), and nowhere else: `Passage` lists what a move can do
to a connection, `Orderly` says what follows for the marks of every reachable machine.

After a call to close has returned (`Shut`) no round gets hold of the lock any more. What is left of the rounds drains: what
is yet to begin is paid from the store `Machine.pending`, which only calls to open fill (`begins_pays`).

Result: `served_once_and_closed_for_good`.
-/
import Mathlib.Data.List.Perm.Basic
import SecureEndpoint.Proofs.Channel.Rounds

namespace SecureEndpoint.Channel

/-! ## From station to station -/

/-- what a move does to the connection in the hands of a thread, with what it writes into the journal -/
inductive Passage (alive : Bool) :
    Option (Mark × Connection) → Option (Mark × Connection) → List (Mark × Connection) → Prop
  | still (h) : Passage alive h h []
  | accepted (c) : Passage alive none (some (.accepted, c)) [(.accepted, c)]
  | posted (c) : Passage alive (some (.accepted, c)) none [(.posted, c)]
  /-- only where the dispatcher is gone -/
  | lost (c) (gone : alive = false) : Passage alive (some (.accepted, c)) none [(.lost, c)]
  | taken (c) : Passage alive none (some (.taken, c)) [(.taken, c)]
  | prepared (c) : Passage alive (some (.taken, c)) (some (.prepared, c)) [(.prepared, c)]
  | unprepared (c) : Passage alive (some (.taken, c)) none [(.unprepared, c)]
  | agreed (c) : Passage alive (some (.prepared, c)) (some (.agreed, c)) [(.agreed, c)]
  | refused (c) : Passage alive (some (.prepared, c)) none [(.refused, c)]
  | handled (c) : Passage alive (some (.agreed, c)) none [(.handled, c)]

theorem Place.Steps.passage {s s' : Intake} {t : ThreadId} {k : Choice} {p : Place} {a : After} (h : p.Steps s t k s' a) :
    ∃ added, s'.journal = s.journal ++ added ∧ Passage s.alive p.holds? a.thread.holds? added := by
  cases h with
  | accept => exact ⟨_, rfl, .accepted _⟩
  | post => exact ⟨_, rfl, .posted _⟩
  | lose gone => exact ⟨_, rfl, .lost _ gone⟩
  | prepare => exact ⟨_, rfl, .prepared _⟩
  | unprepare => exact ⟨_, rfl, .unprepared _⟩
  | agree => exact ⟨_, rfl, .agreed _⟩
  | refuse => exact ⟨_, rfl, .refused _⟩
  | handle | panic => exact ⟨_, rfl, .handled _⟩
  | _ => exact ⟨[], (List.append_nil _).symm, .still _⟩

theorem Intake.Takes.passage {s s' : Intake} {j : Task} (h : s.Takes j s') :
    ∃ added, s'.journal = s.journal ++ added ∧ Passage s.alive none j.thread.holds? added := by
  cases h with
  | serve => exact ⟨_, rfl, .taken _⟩
  | round | other => exact ⟨[], (List.append_nil _).symm, .still _⟩

/-- the connection that was at a station leaves it by one of the exits -/
theorem Passage.conserves {alive : Bool} {old new : Option (Mark × Connection)} {added : List (Mark × Connection)}
    (h : Passage alive old new added) (c : Connection) :
    (added.count (.taken, c) + (decide (old = some (.taken, c))).toNat =
      (decide (new = some (.taken, c))).toNat + added.count (.prepared, c) + added.count (.unprepared, c)) ∧
    (added.count (.prepared, c) + (decide (old = some (.prepared, c))).toNat =
      (decide (new = some (.prepared, c))).toNat + added.count (.agreed, c) + added.count (.refused, c)) ∧
    (added.count (.agreed, c) + (decide (old = some (.agreed, c))).toNat =
      (decide (new = some (.agreed, c))).toNat + added.count (.handled, c)) := by
  cases h with
  | still => simp
  | _ d => by_cases hd : d = c <;> simp [hd]

/-! ## In the hands of threads -/

theorem filterMap_set {α β : Type} {f : α → Option β} {l : List α} {i : Nat} {a b : α} (h : l[i]? = some a)
    (same : f b = f a) : (l.set i b).filterMap f = l.filterMap f := by
  have hmap : (l.set i b).map f = l.map f := by
    obtain ⟨hi, rfl⟩ := List.getElem?_eq_some_iff.1 h
    rw [List.map_set, same, ← List.getElem_map f (h := by simpa using hi), List.set_getElem_self]
  have key : ∀ l : List α, l.filterMap f = (l.map f).filterMap id := fun l => by
    rw [List.filterMap_map]
    rfl
  rw [key, hmap, ← key]

/-- only one of them counts -/
theorem filterMap_alone {α β : Type} {f : α → Option β} {l : List α} {i : Nat} {a : α} (h : l[i]? = some a)
    (others : ∀ j b, j ≠ i → l[j]? = some b → f b = none) : l.filterMap f = (f a).toList := by
  induction l generalizing i with
  | nil => cases h
  | cons x l ih =>
    cases i with
    | zero =>
      cases h
      have rest : l.filterMap f = [] := List.filterMap_eq_nil_iff.2 fun b hb => by
        obtain ⟨j, hj⟩ := List.mem_iff_getElem?.1 hb
        exact others (j + 1) b (Nat.succ_ne_zero j) hj
      cases hf : f a <;> simp [hf, rest]
    | succ i =>
      have first : f x = none := others 0 x (Nat.succ_ne_zero i).symm rfl
      rw [List.filterMap_cons_none first]
      exact ih h fun j b hj hb => others (j + 1) b (fun e => hj (Nat.succ.inj e)) hb

theorem Intake.count_past (s : Intake) (k : Mark) (c : Connection) : (s.past k).count c = s.journal.count (k, c) := by
  unfold past
  rw [List.count_filterMap]
  refine List.countP_congr fun e _ => ?_
  by_cases hk : e.1 = k <;> simp [hk, Prod.ext_iff]

/-- an operation that may still post a round -/
def Place.owes : Place → Bool
  | .openFlag | .openPost | .roundAgain => true
  | _ => false

namespace Machine

/-- how many threads have this connection in their hands, with this mark -/
def holders (m : Machine) (k : Mark) (c : Connection) : Nat := m.threads.countP fun th => th.holds? = some (k, c)

theorem count_present (m : Machine) (k : Mark) (c : Connection) : (m.present k).count c = m.holders k c := by
  unfold present holders
  rw [List.count_filterMap]
  refine List.countP_congr fun th _ => ?_
  rw [beq_iff_eq, decide_eq_true_iff]
  exact Thread.marked?_eq_some

/-- a connection that was accepted and not posted is in the hands of the owner of the lock -/
theorem owner_of_accepted {m : Machine} {t : ThreadId} {a : Thread} {c : Connection} (owned : m.Owned)
    (ht : m.threads[t]? = some a) (ha : a.holds? = some (.accepted, c)) : m.intake.owner = some t := by
  refine (owned t).2 (holdsLock_iff.2 ?_)
  cases a with
  | busy p => exact ⟨p, ht, by cases p <;> first | rfl | cases ha⟩
  | _ => cases ha

theorem unmarked_others {m : Machine} {t : ThreadId} {a : Thread} {c : Connection} (owned : m.Owned)
    (ht : m.threads[t]? = some a) (ha : a.holds? = some (.accepted, c)) {j : ThreadId} {b : Thread} (hj : j ≠ t)
    (hb : m.threads[j]? = some b) : b.marked? .accepted = none := by
  cases hm : b.marked? .accepted with
  | none => rfl
  | some d =>
    have owner := owner_of_accepted owned hb (Thread.marked?_eq_some.1 hm)
    rw [owner_of_accepted owned ht ha] at owner
    exact absurd (Option.some.inj owner).symm hj

/-- what a move does to the threads and to the journal -/
inductive Carried (m m' : Machine) : Prop
  | enter (journal : m'.intake.journal = m.intake.journal) (threads : m'.threads = m.threads ++ [.idle])
  | still (journal : m'.intake.journal = m.intake.journal) (threads : m'.threads = m.threads)
  | turn {t a b added} (thread : m.threads[t]? = some a) (threads : m'.threads = m.threads.set t b)
      (journal : m'.intake.journal = m.intake.journal ++ added) (passage : Passage m.intake.alive a.holds? b.holds? added)

theorem Moved.carried {m m' : Machine} {x : Move} (h : m.Moved x m') : m.Carried m' := by
  cases h with
  | enter => exact .enter rfl rfl
  | callOpen idle | callClose idle => exact .turn idle rfl (List.append_nil _).symm (.still _)
  | take idle take =>
    obtain ⟨added, journal, passage⟩ := take.passage
    exact .turn idle rfl journal passage
  | step thread go =>
    obtain ⟨added, journal, passage⟩ := go.passage
    exact .turn thread rfl journal passage
  | _ => exact .still rfl rfl

/-- who is at a station came there and has not left it -/
structure Served (m : Machine) (c : Connection) : Prop where
  taken : m.intake.journal.count (.taken, c) =
    m.holders .taken c + m.intake.journal.count (.prepared, c) + m.intake.journal.count (.unprepared, c)
  prepared : m.intake.journal.count (.prepared, c) =
    m.holders .prepared c + m.intake.journal.count (.agreed, c) + m.intake.journal.count (.refused, c)
  agreed : m.intake.journal.count (.agreed, c) = m.holders .agreed c + m.intake.journal.count (.handled, c)

theorem Served.carried {m m' : Machine} {c : Connection} (hm : m.Served c) (h : m.Carried m') : m'.Served c := by
  cases h with
  | enter journal threads =>
    have same : ∀ k, m'.holders k c = m.holders k c := fun k => by simp [holders, threads, Thread.holds?]
    constructor <;> rw [journal, same]
    exacts [hm.taken, hm.prepared, hm.agreed]
  | still journal threads =>
    have same : ∀ k, m'.holders k c = m.holders k c := fun k => by rw [holders, threads, holders]
    constructor <;> rw [journal, same]
    exacts [hm.taken, hm.prepared, hm.agreed]
  | @turn t a b added thread threads journal passage =>
    have moved : ∀ k, m'.holders k c + (decide (a.holds? = some (k, c))).toNat =
        m.holders k c + (decide (b.holds? = some (k, c))).toNat := fun k => by
      rw [holders, threads]
      exact countP_turn thread m'.intake b _
    obtain ⟨taken, prepared, agreed⟩ := passage.conserves c
    obtain ⟨was_taken, was_prepared, was_agreed⟩ := hm
    constructor <;> simp only [journal, List.count_append]
    · have := moved .taken
      omega
    · have := moved .prepared
      omega
    · have := moved .agreed
      omega

/-! ## In order -/

/-- a connection is posted by the thread that accepted it, before that thread accepts the next -/
def InHand (m : Machine) : Prop :=
  m.intake.alive = true → m.intake.past .accepted = m.intake.past .posted ++ m.present .accepted

/-- what was posted and not taken waits in the queue -/
def InQueue (m : Machine) : Prop :=
  m.intake.alive = true → m.intake.past .posted = m.intake.past .taken ++ m.intake.queued

theorem past_journal {s s' : Intake} {added : List (Mark × Connection)} (h : s'.journal = s.journal ++ added) (k : Mark) :
    s'.past k = s.past k ++ added.filterMap fun e => if e.1 = k then some e.2 else none := by
  rw [Intake.past, h, List.filterMap_append, Intake.past]

theorem present_enter {m m' : Machine} (threads : m'.threads = m.threads ++ [.idle]) (k : Mark) :
    m'.present k = m.present k := by
  rw [present, threads, List.filterMap_append]
  exact List.append_nil _

theorem inHand_carried {m m' : Machine} (h : m.Carried m') (owned : m.Owned) (owned' : m'.Owned)
    (alive : m'.intake.alive = true → m.intake.alive = true) (hm : m.InHand) : m'.InHand := by
  intro ha
  have before := hm (alive ha)
  cases h with
  | enter journal threads =>
    rw [present_enter threads]
    simpa only [Intake.past, journal] using before
  | still journal threads => simpa only [Intake.past, journal, present, threads] using before
  | @turn t a b added thread threads journal passage =>
    have turned := turn_thread thread m'.intake b
    have others : ∀ j, j ≠ t → m'.threads[j]? = m.threads[j]? := fun j hj => by
      rw [threads]
      exact (turned j).trans (if_neg hj)
    have thread' : m'.threads[t]? = some b := by
      rw [threads]
      exact (turned t).trans (if_pos rfl)
    have same : b.marked? .accepted = a.marked? .accepted → m'.present .accepted = m.present .accepted := fun same => by
      rw [present, threads]
      exact filterMap_set thread same
    generalize hold : a.holds? = old at passage
    generalize hnew : b.holds? = new at passage
    rw [past_journal journal, past_journal journal]
    cases passage with
    | accepted c =>
      have alone : ∀ j th, j ≠ t → m'.threads[j]? = some th → th.marked? .accepted = none := fun j th hj hth =>
        unmarked_others owned' thread' hnew hj hth
      have was : m.present .accepted = [] := by
        rw [present, filterMap_alone thread fun j th hj hth => alone j th hj ((others j hj).trans hth)]
        simp [Thread.marked?, hold]
      have is : m'.present .accepted = [c] := by
        rw [present, filterMap_alone thread' alone]
        simp [Thread.marked?, hnew]
      rw [is, before, was]
      simp
    | posted c =>
      have alone : ∀ j th, j ≠ t → m.threads[j]? = some th → th.marked? .accepted = none := fun j th hj hth =>
        unmarked_others owned thread hold hj hth
      have was : m.present .accepted = [c] := by
        rw [present, filterMap_alone thread alone]
        simp [Thread.marked?, hold]
      have is : m'.present .accepted = [] := by
        rw [present, filterMap_alone thread' fun j th hj hth => alone j th hj ((others j hj).symm.trans hth)]
        simp [Thread.marked?, hnew]
      rw [is, before, was]
      simp
    | lost c gone =>
      rw [alive ha] at gone
      cases gone
    | _ =>
      rw [same (by simp [Thread.marked?, hold, hnew]), before]
      simp

end Machine

theorem Intake.queued_post (s : Intake) (j : Task) :
    Intake.queued { s with dispatcher := s.dispatcher.post j } = s.queued ++ j.connection?.toList := by
  unfold queued Work.Dispatcher.post
  cases j <;> simp [Task.connection?]

@[simp] theorem Intake.queued_note (s : Intake) (k : Mark) (c : Connection) : (s.note k c).queued = s.queued := rfl

theorem Place.Steps.inQueue {s s' : Intake} {t : ThreadId} {k : Choice} {p : Place} {a : After} (h : p.Steps s t k s' a)
    (hs : s.past .posted = s.past .taken ++ s.queued) : s'.past .posted = s'.past .taken ++ s'.queued := by
  cases h with
  | openPost | again => exact hs.trans (congrArg _ ((s.queued_post .round).trans (List.append_nil _)).symm)
  | @post c =>
    simp only [Intake.past_note, Intake.queued_note, s.queued_post]
    exact (congrArg (· ++ [c]) hs).trans (by simp [Task.connection?, Intake.past])
  | accept | lose | prepare | unprepare | agree | refuse | handle | panic =>
    simp only [Intake.past_note, Intake.queued_note, reduceCtorEq, if_false, List.append_nil]
    exact hs
  | _ => exact hs

theorem Intake.Takes.inQueue {s s' : Intake} {j : Task} (h : s.Takes j s')
    (hs : s.past .posted = s.past .taken ++ s.queued) : s'.past .posted = s'.past .taken ++ s'.queued := by
  have queued : ∀ rest, s.dispatcher.queue = j :: rest →
      s.queued = j.connection?.toList ++ rest.filterMap Task.connection? := fun rest queue => by
    unfold queued
    rw [queue]
    cases j <;> rfl
  cases h with
  | round _ queue | other _ queue => exact hs.trans (congrArg _ (queued _ queue))
  | serve _ queue =>
    simp only [Intake.past_note, Intake.queued_note, reduceCtorEq, if_false, if_true, List.append_nil, List.append_assoc]
    exact hs.trans (congrArg _ (queued _ queue))

namespace Machine

theorem alive_moved {m m' : Machine} {x : Move} (h : m.Moved x m') :
    m'.intake.alive = true ↔ m.intake.alive = true ∧ x ≠ .dropDispatcher := by
  cases h with
  | take idle take => cases take <;> simp [turn, Intake.note]
  | step thread go => simp [turn, go.alive]
  | _ => simp [turn]

theorem inQueue_moved {m m' : Machine} {x : Move} (h : m.Moved x m') (hm : m.InQueue) : m'.InQueue := by
  intro alive
  have before := hm ((alive_moved h).1 alive).1
  cases h with
  | take idle take => exact take.inQueue before
  | step thread go => exact go.inQueue before
  | @post n =>
    exact before.trans (congrArg _ ((m.intake.queued_post (.other n)).trans (List.append_nil _)).symm)
  | drop => cases alive
  | _ => exact before

theorem perm_past {s : Intake} {k : Mark} {l : List Connection} (h : ∀ c, s.journal.count (k, c) = l.count c) :
    (s.past k).Perm l :=
  List.perm_iff_count.2 fun c => (s.count_past k c).trans (h c)

/-- what every reachable machine does to connections -/
structure Orderly (m : Machine) : Prop where
  owned : m.Owned
  inHand : m.InHand
  inQueue : m.InQueue
  served : ∀ c, m.Served c

theorem orderly_start : Orderly {} where
  owned := sound_start.owned
  inHand _ := rfl
  inQueue _ := rfl
  served _ := ⟨rfl, rfl, rfl⟩

theorem orderly_moved {m m' : Machine} {x : Move} (h : m.Moved x m') (hm : m.Orderly) : m'.Orderly where
  owned := owned_moved h hm.owned
  inHand := inHand_carried h.carried hm.owned (owned_moved h hm.owned) (fun alive => ((alive_moved h).1 alive).1) hm.inHand
  inQueue := inQueue_moved h hm.inQueue
  served c := (hm.served c).carried h.carried

theorem orderly_run (moves : List Move) : (Machine.run {} moves).Orderly :=
  run_keeps (P := fun _ => True) (fun _ => orderly_moved) orderly_start fun _ _ => trivial

theorem alive_run {m : Machine} {moves : List Move} (alive : m.intake.alive = true) (kept : Move.dropDispatcher ∉ moves) :
    (m.run moves).intake.alive = true :=
  run_keeps (P := fun x => x ≠ .dropDispatcher) (I := fun m => m.intake.alive = true)
    (fun stays h alive => (alive_moved h).2 ⟨alive, stays⟩) alive fun _ hx drops => kept (drops ▸ hx)

end Machine

/-- the next station, as the choice of a step has it -/
def Mark.next (k : Choice) : Mark → Mark
  | .accepted => .posted
  | .taken => if k.prepared then .prepared else .unprepared
  | .prepared => if k.agreed then .agreed else .refused
  | .agreed => .handled
  | g => g

theorem Place.step_holds {s : Intake} {t : ThreadId} {k : Choice} {p : Place} {g : Mark} {c : Connection}
    (alive : s.alive = true) (h : p.holds? = some (g, c)) :
    ∃ s' a, p.step s t k = some (s', a) ∧ s'.journal = s.journal ++ [(g.next k, c)] := by
  cases p <;> cases h
  case roundPost => exact ⟨_, _, rfl, by rw [Intake.postServe, if_pos alive]; rfl⟩
  case servePrepare => cases hk : k.prepared <;> exact ⟨_, _, by rw [step, hk], by rw [Mark.next, hk]; rfl⟩
  case serveShake => cases hk : k.agreed <;> exact ⟨_, _, by rw [step, hk], by rw [Mark.next, hk]; rfl⟩
  case serveHandle => exact ⟨_, _, rfl, rfl⟩

namespace Machine

/-! ## After a call to close has returned -/

/-- a call to close has returned -/
structure Shut (m : Machine) : Prop where
  sound : m.Sound
  closed : m.intake.closed = true

theorem Shut.deaf {m : Machine} (hm : m.Shut) : m.intake.listening = false := by
  rw [hm.sound.sealed.final, hm.closed]
  rfl

theorem Shut.free {m : Machine} (hm : m.Shut) : m.intake.owner = none := hm.sound.sealed.released hm.closed

theorem Shut.unlocked {m : Machine} {t : ThreadId} {p : Place} (hm : m.Shut) (thread : m.threads[t]? = some (.busy p)) :
    p.locks = false := by
  cases locks : p.locks with
  | false => rfl
  | true =>
    have owner := (hm.sound.owned t).2 (holdsLock_iff.2 ⟨p, thread, locks⟩)
    rw [hm.free] at owner
    cases owner

theorem shut_moved {m m' : Machine} {x : Move} (h : m.Moved x m') (hm : m.Shut) : m'.Shut where
  sound := sound_moved h hm.sound
  closed := by
    have closed := hm.closed
    cases h with
    | take idle take => cases take <;> exact closed
    | step thread go => exact go.closed.trans (Bool.or_eq_true_iff.2 (.inl closed))
    | _ => exact closed

theorem accepted_moved {m m' : Machine} {x : Move} (h : m.Moved x m') (hm : m.Shut) :
    m'.intake.past .accepted = m.intake.past .accepted := by
  have hm' := shut_moved h hm
  cases h.carried with
  | enter journal | still journal => rw [Intake.past, journal, Intake.past]
  | @turn t a b added thread threads journal passage =>
    rw [past_journal journal]
    generalize a.holds? = old at passage
    generalize hnew : b.holds? = new at passage
    cases passage with
    | accepted c =>
      have thread' : m'.threads[t]? = some b := by
        rw [threads]
        exact (turn_thread thread m'.intake b t).trans (if_pos rfl)
      have owner := owner_of_accepted hm'.sound.owned thread' hnew
      rw [hm'.free] at owner
      cases owner
    | _ => exact List.append_nil _

/-! ## Counting what happens in a run -/

/-- how often something happens in a run; moves that are not possible do not count -/
def total (f : Machine → Move → Nat) : Machine → List Move → Nat
  | _, [] => 0
  | m, x :: moves =>
    match m.move x with
    | none => total f m moves
    | some m' => f m x + total f m' moves

/-- what happens is paid from a store, which some moves fill by one -/
theorem total_le {I : Machine → Prop} (f : Machine → Move → Nat) (store : Machine → Nat) (fills : Move → Bool)
    (keeps : ∀ {m x m'}, m.Moved x m' → I m → I m')
    (pays : ∀ {m x m'}, m.Moved x m' → I m → f m x + store m' ≤ store m + if fills x then 1 else 0) {m : Machine} (h : I m)
    (moves : List Move) : total f m moves + store (m.run moves) ≤ store m + moves.countP fills := by
  induction moves generalizing m with
  | nil => exact Nat.le_of_eq (Nat.zero_add _)
  | cons x moves ih =>
    have run : m.run (x :: moves) = ((m.move x).getD m).run moves := rfl
    rw [run, total, List.countP_cons]
    cases hm : m.move x with
    | none =>
      have := ih h
      simp only [Option.getD_none]
      omega
    | some m' =>
      have := ih (keeps (moved hm) h)
      have := pays (moved hm) h
      simp only [Option.getD_some]
      omega

/-- thread `t` is at the end of its round and about to post the next one -/
def aboutToRepost (m : Machine) (t : ThreadId) : Bool := m.threads[t]? = some (.busy .roundAgain)

/-- thread `t` posts the next round -/
def reposts (t : ThreadId) (m : Machine) : Move → Nat
  | .step u _ => if u = t then (m.aboutToRepost t).toNat else 0
  | _ => 0

/-- a thread begins a round -/
def begins (m : Machine) : Move → Nat
  | .take _ => if m.intake.dispatcher.queue.head? = some .round then 1 else 0
  | _ => 0

/-- the rounds that wait in the queue or are still to be posted -/
def pending (m : Machine) : Nat := m.intake.rounds + m.busy Place.owes

end Machine

/-- nobody comes to the end of a round who had not the lock -/
theorem Place.Steps.unending {s s' : Intake} {t : ThreadId} {k : Choice} {p : Place} {a : After} (h : p.Steps s t k s' a)
    (unlocked : p.locks = false) : a.thread ≠ .busy .roundAgain := by
  cases h with
  | release => cases unlocked
  | _ => nofun

theorem Place.Steps.owes {s s' : Intake} {t : ThreadId} {k : Choice} {p : Place} {a : After} (h : p.Steps s t k s' a)
    (unlocked : p.locks = false) :
    s'.rounds + (a.thread.isAt Place.owes).toNat ≤ s.rounds + p.owes.toNat := by
  cases h with
  | openPost | again => simp [Intake.rounds, count_post, Place.owes, After.thread]
  | post | release => cases unlocked
  | _ => simp [Intake.rounds, Intake.note, Place.owes, After.thread]

theorem Intake.Takes.rounds {s s' : Intake} {j : Task} (h : s.Takes j s') :
    (if s.dispatcher.queue.head? = some .round then 1 else 0) + s'.rounds + (j.thread.isAt Place.owes).toNat = s.rounds := by
  cases h with
  | round _ queue => simp [Intake.rounds, queue, Task.thread, Place.owes]; omega
  | serve _ queue => simp [Intake.rounds, queue, Task.thread, Place.owes, note]
  | other _ queue => simp [Intake.rounds, queue, Task.thread]

/-- somebody calls to open -/
def Move.opens : Move → Bool
  | .callOpen _ => true
  | _ => false

namespace Machine

theorem aboutToRepost_turn {m : Machine} {t : ThreadId} {a b : Thread} {s : Intake} (ht : m.threads[t]? = some a)
    (hb : b ≠ .busy .roundAgain) (i : ThreadId) :
    (m.turn s t b).aboutToRepost i = if i = t then false else m.aboutToRepost i := by
  rw [aboutToRepost, turn_thread ht]
  split
  · simp [hb]
  · rfl

theorem aboutToRepost_enter (m : Machine) (t : ThreadId) :
    Machine.aboutToRepost ⟨m.intake, m.threads ++ [.idle]⟩ t = m.aboutToRepost t :=
  decide_eq_decide.2 enter_busy

theorem reposts_pays {m m' : Machine} {x : Move} (t : ThreadId) (h : m.Moved x m') (hm : m.Shut) :
    reposts t m x + (m'.aboutToRepost t).toNat ≤ (m.aboutToRepost t).toNat := by
  have turned : ∀ {u a b} {s : Intake}, m.threads[u]? = some a → b ≠ .busy .roundAgain →
      (if u = t then (m.aboutToRepost t).toNat else 0) + ((m.turn s u b).aboutToRepost t).toNat ≤
        (m.aboutToRepost t).toNat := fun {u a b s} hu hb => by
    rw [aboutToRepost_turn hu hb]
    by_cases ht : t = u
    · rw [if_pos ht.symm, if_pos ht]
      exact Nat.le_refl _
    · rw [if_neg (Ne.symm ht), if_neg ht]
      exact Nat.le_of_eq (Nat.zero_add _)
  cases h with
  | enter => exact Nat.le_of_eq ((Nat.zero_add _).trans (congrArg _ (aboutToRepost_enter m t)))
  | callOpen idle => exact Nat.le_trans (Nat.add_le_add_right (Nat.zero_le _) _) (turned idle nofun)
  | callClose idle => exact Nat.le_trans (Nat.add_le_add_right (Nat.zero_le _) _) (turned idle nofun)
  | take idle take =>
    exact Nat.le_trans (Nat.add_le_add_right (Nat.zero_le _) _) (turned idle (by cases take <;> nofun))
  | step thread go => exact turned thread (go.unending (hm.unlocked thread))
  | _ => exact Nat.le_of_eq (Nat.zero_add _)

theorem begins_pays {m m' : Machine} {x : Move} (h : m.Moved x m') (hm : m.Shut) :
    begins m x + m'.pending ≤ m.pending + if x.opens then 1 else 0 := by
  unfold pending
  cases h with
  | enter => exact Nat.le_of_eq ((Nat.zero_add _).trans (congrArg _ (busy_enter m _)))
  | callOpen idle =>
    have owed := busy_turn idle m.intake (.busy .openFlag) Place.owes
    simp only [turn, begins, Move.opens, Thread.isAt, Place.owes, Bool.toNat_true, Bool.toNat_false, if_true] at owed ⊢
    omega
  | callClose idle =>
    have owed := busy_turn idle m.intake (.busy .closeFlag) Place.owes
    exact Nat.le_of_eq ((Nat.zero_add _).trans (congrArg _ owed))
  | @take t j s idle take =>
    have owed := busy_turn idle s j.thread Place.owes
    have taken := take.rounds
    simp only [turn, begins, Thread.isAt_idle, Bool.toNat_false] at owed taken ⊢
    omega
  | @step u k p s a thread go =>
    have owed := busy_turn thread s a.thread Place.owes
    have done := go.owes (hm.unlocked thread)
    simp only [turn, begins, Thread.isAt_busy] at owed done ⊢
    omega
  | post => simp [begins, Intake.rounds, count_post, busy]
  | drop => simp [begins, Intake.rounds, busy, Move.opens]
  | _ => exact Nat.le_of_eq (Nat.zero_add _)

theorem shut_run {m : Machine} (hm : m.Shut) (moves : List Move) : (m.run moves).Shut :=
  run_keeps (P := fun _ => True) (fun _ => shut_moved) hm fun _ _ => trivial

/-- nothing is accepted any more -/
theorem accepted_run {m : Machine} (hm : m.Shut) (moves : List Move) :
    (m.run moves).intake.past .accepted = m.intake.past .accepted :=
  (run_keeps (P := fun _ => True) (I := fun n => n.Shut ∧ n.intake.past .accepted = m.intake.past .accepted)
    (fun _ h hn => ⟨shut_moved h hn.1, (accepted_moved h hn.1).trans hn.2⟩) ⟨hm, rfl⟩ fun _ _ => trivial).2

/-- a thread posts at most the round that it was about to post -/
theorem reposts_run {m : Machine} (hm : m.Shut) (t : ThreadId) (moves : List Move) :
    m.total (reposts t) moves ≤ (m.aboutToRepost t).toNat := by
  have paid := total_le (reposts t) (fun n => (n.aboutToRepost t).toNat) (fun _ => false) shut_moved (reposts_pays t) hm
    moves
  rw [List.countP_false] at paid
  exact Nat.le_of_add_right_le paid

/-- a round that finds no listening socket is over, or looks for it next -/
theorem Shut.round_step {m : Machine} {t : ThreadId} {p : Place} (hm : m.Shut) (thread : m.threads[t]? = some (.busy p))
    (round : p.inRound = true) (k : Choice) :
    ∃ m', m.move (.step t k) = some m' ∧ m'.Shut ∧
      (m'.threads[t]? = some .idle ∨ p = .roundCheck ∧ m'.threads[t]? = some (.busy .roundLock)) := by
  obtain ⟨m', hmove⟩ := step_possible thread (fun _ => hm.free) k
  refine ⟨m', hmove, shut_moved (moved hmove) hm, ?_⟩
  cases moved hmove with
  | @step _ _ q s a thread' go =>
    rw [turn_thread thread, if_pos rfl]
    rw [thread] at thread'
    cases thread'
    have unlocked := hm.unlocked thread
    cases go with
    | checkOpen => exact .inr ⟨rfl, rfl⟩
    | checkShut | lockVain | again | againVain => exact .inl rfl
    | lock _ listening =>
      rw [hm.deaf] at listening
      cases listening
    | ready | idle | accept | acceptNone | post | lose | release => cases unlocked
    | _ => cases round

/-- what is left of a round ends after two steps of its thread -/
theorem Shut.round_ends {m : Machine} {t : ThreadId} {p : Place} (hm : m.Shut) (thread : m.threads[t]? = some (.busy p))
    (round : p.inRound = true) (j k : Choice) : (m.run [.step t j, .step t k]).threads[t]? = some .idle := by
  obtain ⟨m', hmove, hm', after⟩ := hm.round_step thread round j
  have run : m.run [.step t j, .step t k] = (m'.move (.step t k)).getD m' := by
    simp only [Machine.run, List.foldl_cons, List.foldl_nil, hmove, Option.getD_some]
  rw [run]
  rcases after with idle | ⟨-, lock⟩
  · have stays : m'.move (.step t k) = none := by simp only [move, idle]
    rw [stays]
    exact idle
  · obtain ⟨m'', hmove', -, idle | ⟨check, -⟩⟩ := hm'.round_step lock rfl k
    · rw [hmove']
      exact idle
    · cases check

/-- **Served once, and closed for good.** In every run of an intake whose dispatcher stays,
- connections are posted in the order in which they are accepted, each once, and wait in the queue until they are taken;
- each that was taken is prepared or not, each that was prepared agreed or not, and exactly those that agreed are given to
  the handler, each once, unless they are in the hands of a thread on the way there, and that thread can go on.

Once a call to close has returned, whatever follows, nothing is accepted any more. A thread posts a further round only if it
was about to when the call returned; no more rounds are begun than were pending then or are asked for by calls to open; and
each ends after two steps of its thread. -/
theorem served_once_and_closed_for_good {moves : List Move} (kept : Move.dropDispatcher ∉ moves) :
    let m := Machine.run {} moves
    (m.intake.past .accepted = m.intake.past .posted ++ m.present .accepted ∧
      m.intake.past .posted = m.intake.past .taken ++ m.intake.queued ∧
      (m.intake.past .taken).Perm (m.present .taken ++ m.intake.past .prepared ++ m.intake.past .unprepared) ∧
      (m.intake.past .prepared).Perm (m.present .prepared ++ m.intake.past .agreed ++ m.intake.past .refused) ∧
      (m.intake.past .agreed).Perm (m.present .agreed ++ m.intake.past .handled) ∧
      ∀ t p g c k, m.threads[t]? = some (.busy p) → p.holds? = some (g, c) →
        ∃ m', m.move (.step t k) = some m' ∧ m'.intake.journal = m.intake.journal ++ [(g.next k, c)]) ∧
    (m.intake.closed = true → ∀ more,
      let m' := m.run more
      m'.intake.past .accepted = m.intake.past .accepted ∧
      (∀ t, m.total (reposts t) more ≤ (m.aboutToRepost t).toNat) ∧
      m.total begins more + m'.pending ≤ m.pending + more.countP Move.opens ∧
      ∀ t p, m'.threads[t]? = some (.busy p) → (∀ k, ∃ m'', m'.move (.step t k) = some m'') ∧
        (p.inRound = true → ∀ j k, (m'.run [.step t j, .step t k]).threads[t]? = some .idle)) := by
  intro m
  have orderly : m.Orderly := orderly_run moves
  have alive : m.intake.alive = true := alive_run rfl kept
  refine ⟨⟨orderly.inHand alive, orderly.inQueue alive, ?_, ?_, ?_, ?_⟩, ?_⟩
  · refine perm_past fun c => (orderly.served c).taken.trans ?_
    simp only [List.count_append, Intake.count_past, count_present]
  · refine perm_past fun c => (orderly.served c).prepared.trans ?_
    simp only [List.count_append, Intake.count_past, count_present]
  · refine perm_past fun c => (orderly.served c).agreed.trans ?_
    simp only [List.count_append, Intake.count_past, count_present]
  · intro t p g c k thread holds
    obtain ⟨s, a, step, journal⟩ := Place.step_holds (t := t) (k := k) alive holds
    exact ⟨_, by simp only [move, thread, step]; rfl, journal⟩
  · intro closed more m'
    have shut : m.Shut := ⟨sound_run moves, closed⟩
    have shut' : m'.Shut := shut_run shut more
    exact ⟨accepted_run shut more, fun t => reposts_run shut t more,
      total_le begins pending Move.opens shut_moved begins_pays shut more,
      fun t p thread => ⟨step_possible thread fun _ => shut'.free, shut'.round_ends thread⟩⟩

/-- a round accepts two connections while the intake is closed and opened again and the dispatcher stopped and restarted;
the call to close returns when the round has given the lock back and is about to post the next, with another round and the
second connection in the queue and the first one before the handler -/
def closing : List Move :=
  List.replicate 4 .enter ++ [.callOpen 0] ++ steps 0 2 ++ [.connect 5, .connect 6, .take 1] ++ steps 1 6 ++ [.take 2] ++
    steps 2 2 ++ [.callClose 3] ++ steps 3 1 ++ [.callOpen 0] ++ steps 0 2 ++ [.stopDispatcher] ++ steps 1 3 ++
    [.restartDispatcher] ++ steps 3 1

/-- what is left of it, with one more call to open; the peer of the second connection does not agree -/
def draining : List Move :=
  steps 1 1 ++ [.callOpen 0, .take 3] ++ steps 3 2 ++ steps 2 1 ++ [.take 3] ++ steps 3 1 ++
    [.step 3 { agreed := false }, .take 2] ++ steps 2 2

theorem served_once_and_closed_for_good_draining :
    let m := Machine.run {} closing
    let m' := m.run draining
    Move.dropDispatcher ∉ closing ∧ m.intake.closed = true ∧ m.intake.isOpen = true ∧
      m.threads = [.idle, .busy .roundAgain, .busy (.serveHandle 5), .idle] ∧
      m.intake.dispatcher.queue = [.round, .serve 6] ∧ m.intake.past .accepted = [5, 6] ∧
      (∃ n, m.move (.step 2 {}) = some n ∧ n.intake.journal = m.intake.journal ++ [(.handled, 5)]) ∧
      m'.intake.past .handled = [5] ∧ m'.intake.past .refused = [6] ∧ m'.intake.past .accepted = [5, 6] ∧
      m.total (reposts 1) draining = 1 ∧ m.total (reposts 3) draining ≤ 0 ∧ m.total begins draining = 2 ∧
      m.pending = 2 ∧ m'.pending ≤ 1 := by
  intro m m'
  have kept : Move.dropDispatcher ∉ closing := by decide
  have closed : m.intake.closed = true := by decide
  have threads : m.threads = [.idle, .busy .roundAgain, .busy (.serveHandle 5), .idle] := by decide
  have accepted : m.intake.past .accepted = [5, 6] := by decide
  have begun : m.total begins draining = 2 := by decide
  obtain ⟨⟨-, -, -, -, -, serves⟩, final⟩ := served_once_and_closed_for_good kept
  obtain ⟨same, reposted, drained, -⟩ := final closed draining
  have pending : m.pending = 2 := by decide
  have asked : draining.countP Move.opens = 1 := by decide
  have left : m'.pending ≤ 1 := by
    rw [begun, pending, asked] at drained
    exact Nat.add_le_add_iff_left.1 drained
  have idle : m.aboutToRepost 3 = false := by decide
  have handled := serves 2 (.serveHandle 5) .agreed 5 {} (by rw [threads]; rfl) rfl
  refine ⟨kept, closed, by decide, threads, by decide, accepted, handled, by decide, by decide, same.trans accepted,
    by decide, ?_, begun, pending, left⟩
  exact Nat.le_trans (reposted 3) (Nat.le_of_eq (congrArg Bool.toNat idle))

end Machine

end SecureEndpoint.Channel
