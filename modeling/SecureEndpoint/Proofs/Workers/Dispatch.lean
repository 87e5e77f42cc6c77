/-
The queue loses nothing, duplicates nothing and keeps the order.

The dispatcher is the queue. Any number of threads post, drive, stop and restart it, from outside and from inside of
jobs, at any depth, and a job may panic at any of its actions. A thread takes a job under the queue lock and at once has
the job's activation on top of its stack; nothing else begins a job (`move_queue`).
- `taken_then_queued`: what was taken, followed by what waits, is what was posted.
- `stopped_window`: from a stopped dispatcher on, as long as nobody restarts it, nothing is taken.
- `handlers_in_order`: both, with what a single move does and what a panic leaves alone.
-/
import SecureEndpoint.Proofs.Workers.Stages

namespace SecureEndpoint.Workers

/-! ## What a step does to the queue -/

/-- the kinds of the activations after a step of one of kind `k`; `below` are the kinds of the others -/
def Own.kinds (own : Own) (k : Kind) (below : List Kind) : List Kind :=
  match own with
  | .become _ => k :: below
  | .call _ callee => callee.kind :: k :: below
  | .ret _ => below
  | .unwind => []

theorem kinds_stack {own : Own} {k : Kind} (h : own.Fits k) (below : List Frame) :
    ((own.stack below).map Frame.calm).map Frame.kind = own.kinds k (below.map Frame.kind) := by
  rw [List.map_map, kind_comp_calm]
  cases own with
  | become g =>
    have hk : g.kind = k := h
    simp [Own.stack, Own.kinds, hk]
  | call g callee => simp [Own.stack, Own.kinds, h.1]
  | ret v => cases below <;> simp [Own.stack, Own.kinds]
  | unwind => rfl

/-- a job begins -/
def Own.begins : Own → Bool
  | .call _ callee => callee.kind = .job
  | _ => false

/-- what a step does to the jobs that wait and to the record of those posted and taken -/
inductive QueueStep (s : Shared) (f : Frame) (e : Effect) : Prop
  /-- nothing, and it begins no job -/
  | keep (queue : e.shared.dispatcher.queue = s.dispatcher.queue) (posted : e.shared.posted = s.posted)
      (taken : e.shared.taken = s.taken) (begins : e.own.begins = false)
  | post {j} (at_ : f = .post j .push) (queue : e.shared.dispatcher.queue = s.dispatcher.queue ++ [j])
      (posted : e.shared.posted = s.posted ++ [j]) (taken : e.shared.taken = s.taken)
      (own : e.own = .become (.post j .tell))
  | take {mode n j} (at_ : f = .drive mode n .look) (free : s.dispatcher.stopped = false)
      (queue : s.dispatcher.queue = j :: e.shared.dispatcher.queue) (posted : e.shared.posted = s.posted)
      (taken : e.shared.taken = s.taken ++ [j])
      (own : e.own = .call (.drive mode n .inJob) (.job j.id none j.actions))

theorem Transition.queue {m : Machine} {t : ThreadId} {f : Frame} {e : Effect} (h : Transition m t f e)
    (hd : m.shared.dispatches = true) : QueueStep m.shared f e := by
  cases h with
  | take h => cases h <;> exact .keep rfl rfl rfl rfl
  | whim _ other => exact absurd (hd.symm.trans other) nofun
  | lookTake free _ queue => exact .take rfl free queue rfl rfl rfl
  | jobCall h =>
    refine .keep rfl rfl rfl (decide_eq_false fun hk => ?_)
    have hcall := h.isCall
    rw [hk] at hcall
    cases hcall
  | push => exact .post rfl rfl rfl rfl rfl
  | _ => exact .keep rfl rfl rfl rfl

/-! ## What a move does to the queue -/

/-- an activation of a job -/
def Frame.isJob (f : Frame) : Bool := f.kind = .job

namespace Machine

/-- how many jobs thread `t` is inside of -/
def jobs (m : Machine) (t : ThreadId) : Nat := (m.stackOf t).countP Frame.isJob

/-- what a move does to the jobs that wait and to the record of those posted and taken -/
inductive QueueMove (m m' : Machine) : Prop
  /-- nothing, and no job begins -/
  | keep (queue : m'.shared.dispatcher.queue = m.shared.dispatcher.queue) (posted : m'.shared.posted = m.shared.posted)
      (taken : m'.shared.taken = m.shared.taken) (jobs : ∀ t, m'.jobs t ≤ m.jobs t)
  /-- a thread that holds the queue lock puts a job behind the others; no job begins -/
  | post {t j} (at_ : .post j .push ∈ m.stackOf t)
      (queue : m'.shared.dispatcher.queue = m.shared.dispatcher.queue ++ [j])
      (posted : m'.shared.posted = m.shared.posted ++ [j]) (taken : m'.shared.taken = m.shared.taken)
      (jobs : ∀ t, m'.jobs t ≤ m.jobs t)
  /-- a thread that holds the queue lock takes the first job of a dispatcher that is not stopped, and begins it -/
  | take {t mode n j below} (free : m.shared.dispatcher.stopped = false)
      (queue : m.shared.dispatcher.queue = j :: m'.shared.dispatcher.queue) (posted : m'.shared.posted = m.shared.posted)
      (taken : m'.shared.taken = m.shared.taken ++ [j]) (before : m.stackOf t = .drive mode n .look :: below)
      (after : m'.stackOf t = .job j.id none j.actions :: .drive mode n .inJob :: below)
      (others : ∀ i, i ≠ t → m'.jobs i ≤ m.jobs i)

theorem jobs_kinds (m : Machine) (t : ThreadId) :
    m.jobs t = ((m.stackOf t).map Frame.kind).countP (fun k => k = .job) := by
  rw [jobs, List.countP_map]
  rfl

/-- the number of jobs of a thread grows only where a job begins -/
theorem jobs_step {m m' : Machine} {t : ThreadId} {th : Thread} {f : Frame} {below : List Frame} {e : Effect}
    (s : m.StepOf m' t th f below e) (i : ThreadId) (hb : i = t → e.own.begins = false) : m'.jobs i ≤ m.jobs i := by
  rw [jobs_kinds, jobs_kinds]
  by_cases hi : i = t
  · subst hi
    rw [s.after, s.before, kinds_stack s.go.fits]
    simp only [List.map_cons, List.map_map, kind_comp_calm, kind_calm]
    have hb := hb rfl
    cases hown : e.own with
    | call g callee =>
      have hk : callee.kind ≠ .job := by simpa [hown, Own.begins] using hb
      simp [Own.kinds, List.countP_cons, hk]
    | become g => simp [Own.kinds, List.countP_cons]
    | ret v => simp [Own.kinds, List.countP_cons]
    | unwind => simp [Own.kinds]
  · rw [s.stackAt, if_neg hi]
    split
    · cases e.spawn <;> simp [Frame.kind]
    · exact Nat.le_refl _

theorem move_queue {m m' : Machine} {w : Option (Stage × Change)} (hd : m.shared.dispatches = true)
    (mv : m.Moved m' w) : m.QueueMove m' := by
  cases mv with
  | @step t th f below e s =>
    obtain ⟨h1, h2, h3⟩ : m'.shared.dispatcher = e.shared.dispatcher ∧ m'.shared.posted = e.shared.posted ∧
        m'.shared.taken = e.shared.taken := by
      rw [s.shared]
      cases e.own <;> exact ⟨rfl, rfl, rfl⟩
    cases s.go.queue hd with
    | keep queue posted taken begins =>
      exact .keep (by rw [h1, queue]) (by rw [h2, posted]) (by rw [h3, taken]) fun i => jobs_step s i fun _ => begins
    | @post j at_ queue posted taken own =>
      subst at_
      exact .post (t := t) (j := j) s.mem (by rw [h1, queue]) (by rw [h2, posted])
        (by rw [h3, taken]) fun i => jobs_step s i fun _ => by rw [own]; rfl
    | @take mode n j at_ free queue posted taken own =>
      subst at_
      refine .take (t := t) free (by rw [h1, queue]) (by rw [h2, posted]) (by rw [h3, taken]) s.before ?_ fun i hi =>
        jobs_step s i fun h => absurd h hi
      rw [s.after, own]
      rfl
  | still gates hsh hr =>
    exact .keep (by rw [hsh]) (by rw [hsh]) (by rw [hsh]) fun i => by rw [jobs, stackOf_still hr]; exact Nat.le_refl _
  | @call t th c ht hw hs hsh hr =>
    refine .keep (by rw [hsh]) (by rw [hsh]) (by rw [hsh]) fun i => ?_
    have hc : [c.frame].countP Frame.isJob = 0 := by cases c <;> rfl
    rw [jobs, stackOf_call ht hr]
    split
    · rw [hc]
      exact Nat.zero_le _
    · exact Nat.le_refl _
  | enter hsh hr =>
    exact .keep (by rw [hsh]) (by rw [hsh]) (by rw [hsh]) fun i => by rw [jobs, stackOf_enter hr]; exact Nat.le_refl _

/-- **Taken, then queued, is posted.** -/
theorem taken_then_queued {ok : Machine → Prop} {m : Machine} {hist : List (Stage × Change)} {size : Nat} {stem : String}
    (r : Run ok (fresh size stem true) hist m) :
    m.Sound ∧ m.shared.dispatches = true ∧ m.shared.taken ++ m.shared.dispatcher.queue = m.shared.posted := by
  refine r.keeps
    (I := fun m => m.shared.dispatches = true ∧ m.shared.taken ++ m.shared.dispatcher.queue = m.shared.posted)
    (sound_fresh size stem true) ⟨rfl, rfl⟩ fun {a b w} _ ⟨hd, h⟩ mv _ => ⟨(move_settings mv).2.trans hd, ?_⟩
  cases move_queue hd mv with
  | keep queue posted taken _ => rw [queue, posted, taken, h]
  | post _ queue posted taken _ => rw [queue, posted, taken, ← h, List.append_assoc]
  | take _ queue posted taken _ _ _ =>
    rw [posted, taken, ← h, queue, List.append_assoc]
    rfl

/-! ## A stopped dispatcher -/

/-- what a stopped dispatcher has come to: nothing was taken, and the jobs posted meanwhile wait behind the others -/
structure Held (m m' : Machine) : Prop where
  taken : m'.shared.taken = m.shared.taken
  jobs : ∀ t, m'.jobs t ≤ m.jobs t
  queued : ∃ new, m'.shared.dispatcher.queue = m.shared.dispatcher.queue ++ new ∧
    m'.shared.posted = m.shared.posted ++ new

/-- a move with its calls on the dispatcher; only a restart lets a stopped dispatcher go on -/
theorem move_calls {m m' : Machine} {w : Option (Stage × Change)} (mv : m.Moved m' w) :
    ∃ c, m'.shared.calls = m.shared.calls ++ c ∧
      (.restart ∉ c → m.shared.dispatcher.stopped = true → m'.shared.dispatcher.stopped = true) := by
  cases mv with
  | step s =>
    rw [s.writes.calls, s.writes.halted]
    unfold Frame.callsAfter Frame.haltedAfter
    split
    · exact ⟨_, rfl, fun _ _ => rfl⟩
    · exact ⟨_, rfl, fun h => absurd (List.mem_singleton.2 rfl) h⟩
    · exact ⟨[], by simp, fun _ h => h⟩
  | still gates hsh hr => exact ⟨[], by simp [hsh], fun _ h => by rw [hsh]; exact h⟩
  | call c ht hw hs hsh hr => exact ⟨[], by simp [hsh], fun _ h => by rw [hsh]; exact h⟩
  | enter hsh hr => exact ⟨[], by simp [hsh], fun _ h => by rw [hsh]; exact h⟩

/-- as long as the dispatcher is stopped nothing is taken -/
theorem held_move {m a b : Machine} {w : Option (Stage × Change)} (hd : a.shared.dispatches = true)
    (hs : a.shared.dispatcher.stopped = true) (h : m.Held a) (mv : a.Moved b w) : m.Held b := by
  obtain ⟨htaken, hjobs, new, hqueue, hposted⟩ := h
  cases move_queue hd mv with
  | keep queue posted taken jobs =>
    refine ⟨taken.trans htaken, fun t => Nat.le_trans (jobs t) (hjobs t), new, ?_, ?_⟩
    · rw [queue, hqueue]
    · rw [posted, hposted]
  | @post t j _ queue posted taken jobs =>
    refine ⟨taken.trans htaken, fun t => Nat.le_trans (jobs t) (hjobs t), new ++ [j], ?_, ?_⟩
    · rw [queue, hqueue, List.append_assoc]
    · rw [posted, hposted, List.append_assoc]
  | take free _ _ _ _ _ _ => rw [hs] at free; cases free

theorem held_rest (m : Machine) : m.Held m := ⟨rfl, fun _ => Nat.le_refl _, [], by simp, by simp⟩

/-- **A stopped window.** From a stopped dispatcher on, until somebody restarts it, nothing is taken. -/
theorem stopped_window {ok : Machine → Prop} {m m' : Machine} {hist : List (Stage × Change)} (hm : m.Sound)
    (hd : m.shared.dispatches = true) (hs : m.shared.dispatcher.stopped = true) (r : Run ok m hist m') :
    ∃ c, m'.shared.calls = m.shared.calls ++ c ∧ (.restart ∉ c → m.Held m') := by
  have key : m'.Sound ∧ m'.shared.dispatches = true ∧ ∃ c, m'.shared.calls = m.shared.calls ++ c ∧
      (.restart ∉ c → m'.shared.dispatcher.stopped = true ∧ m.Held m') := by
    refine r.keeps (I := fun a => a.shared.dispatches = true ∧ ∃ c, a.shared.calls = m.shared.calls ++ c ∧
      (.restart ∉ c → a.shared.dispatcher.stopped = true ∧ m.Held a)) hm ?_ ?_
    · exact ⟨hd, [], by simp, fun _ => ⟨hs, held_rest m⟩⟩
    · rintro a b w - ⟨hda, c, hc, ih⟩ mv -
      obtain ⟨c', hc', hstop⟩ := move_calls mv
      refine ⟨(move_settings mv).2.trans hda, c ++ c', by rw [hc', hc, List.append_assoc], fun hno => ?_⟩
      obtain ⟨hsa, hheld⟩ := ih fun h => hno (List.mem_append_left _ h)
      exact ⟨hstop (fun h => hno (List.mem_append_right _ h)) hsa, held_move hda hsa hheld mv⟩
  obtain ⟨-, -, c, hc, h⟩ := key
  exact ⟨c, hc, fun hno => (h hno).2⟩

/-! ## Panics -/

/-- the next step of thread `t` is a panic -/
def Panics (m : Machine) (t : ThreadId) (ch : Choice) : Prop :=
  ∃ th f below e, m.threads[t]? = some th ∧ th.stack = f :: below ∧ f.step m t ch = some e ∧ e.own = .unwind

/-- what a panic of thread `t` leaves: the queue, its record and every other thread are as they were -/
structure Alone (m m' : Machine) (t : ThreadId) : Prop where
  gone : m'.stackOf t = []
  others : ∀ i, i ≠ t → m'.stackOf i = m.stackOf i
  dispatcher : m'.shared.dispatcher = m.shared.dispatcher
  posted : m'.shared.posted = m.shared.posted
  taken : m'.shared.taken = m.shared.taken

theorem panic_alone {m m' : Machine} {t : ThreadId} {ch : Choice} (hm : m.Sound) (hp : m.Panics t ch)
    (h : m.move (.step t ch) = some m') : m.Alone m' t := by
  obtain ⟨th, f, below, e, ht, hs, he, hu⟩ := hp
  have hm' : m' = m.apply t th below e := by simpa [move, ht, hs, he] using h.symm
  subst hm'
  have hsees := hm.sees_top ht hs
  have s : m.StepOf (m.apply t th below e) t th f below e :=
    ⟨ht, hs, hsees, step_transition he hsees, rfl, m.apply_roster t th below e⟩
  obtain ⟨hsh, hsp, -⟩ := s.go.unwind hu
  refine ⟨?_, fun i hi => ?_, ?_, ?_, ?_⟩
  · rw [s.after, hu]
    rfl
  · rw [s.stackAt, if_neg hi]
    split
    · rename_i hlen
      rw [hsp, hlen, stackOf_length]
      rfl
    · rfl
  all_goals simp only [apply, hu, Own.unlocks, Shared.releaseAll, hsh]

/-- **Handlers in order.** However the threads are interleaved, what was taken followed by what waits is what was
posted; every move posts one job, takes the first job and begins it, or does neither; a panic takes nothing with it but
the activations of its thread; and once the dispatcher is stopped nothing is taken until it is restarted. -/
theorem handlers_in_order {ok : Machine → Prop} {m : Machine} {hist : List (Stage × Change)} {size : Nat} {stem : String}
    (r : Run ok (fresh size stem true) hist m) :
    m.shared.taken ++ m.shared.dispatcher.queue = m.shared.posted ∧
      (∀ mv m', m.move mv = some m' → m.QueueMove m') ∧
      (∀ t ch m', m.Panics t ch → m.move (.step t ch) = some m' → m.Alone m' t) ∧
      (m.shared.dispatcher.stopped = true → ∀ {ok' hist' m'}, Run ok' m hist' m' →
        ∀ c, m'.shared.calls = m.shared.calls ++ c → .restart ∉ c → m.Held m') := by
  obtain ⟨hm, hd, hq⟩ := taken_then_queued r
  refine ⟨hq, fun mv m' h => move_queue hd (hm.moved h), fun t ch m' => panic_alone hm, ?_⟩
  intro hs ok' hist' m' r' c hc hno
  obtain ⟨c', hc', held⟩ := stopped_window hm hd hs r'
  exact held (List.append_cancel_left (hc.symm.trans hc') ▸ hno)

/-- a job that posts another one and panics is taken by one thread while a second job waits; then the dispatcher is
stopped -/
def disturbed : List Move :=
  [Move.enter, .enter, .call 0 (.post ⟨"a", [.post "b" [], .panic], false⟩)] ++ steps 0 3 ++
    [Move.call 0 (.post ⟨"c", [], false⟩)] ++ steps 0 3 ++ [Move.call 1 .poll] ++ steps 1 7 ++ [Move.call 0 .halt] ++
    steps 0 3

/-- another job is posted and the stopped dispatcher is driven -/
def inVain : List Move :=
  [Move.call 0 (.post ⟨"d", [], false⟩)] ++ steps 0 3 ++ [Move.call 1 .poll] ++ steps 1 2

theorem handlers_in_order_disturbed : ∃ hist hist' m m', Run (fun _ => true) (fresh 1 "w" true) hist m ∧
    Run (fun _ => true) m hist' m' ∧ m.shared.taken.map (·.id) = ["a"] ∧
    m'.shared.posted.map (·.id) = ["a", "c", "b", "d"] ∧ m'.shared.dispatcher.queue.map (·.id) = ["c", "b", "d"] ∧
    m.shared.taken ++ m.shared.dispatcher.queue = m.shared.posted ∧ m.Held m' := by
  obtain ⟨⟨hist, m⟩, hf⟩ : ∃ p, (fresh 1 "w" true).follow (fun _ => true) [] disturbed = some p := ⟨_, rfl⟩
  obtain ⟨⟨hist', m'⟩, hf'⟩ : ∃ p, m.follow (fun _ => true) [] inVain = some p := by
    cases hf
    exact ⟨_, rfl⟩
  have r := run_follow .rest hf
  have r' := run_follow .rest hf'
  obtain ⟨hq, -, -, held⟩ := handlers_in_order r
  refine ⟨hist, hist', m, m', r, r', ?_, ?_, ?_, hq, held ?_ r' [] ?_ nofun⟩
  all_goals
    cases hf
    cases hf'
    rfl

end Machine

end SecureEndpoint.Workers
