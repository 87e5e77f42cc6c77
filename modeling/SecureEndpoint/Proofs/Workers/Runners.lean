/-
Enough runners are awake.

A post puts its job behind the others and tells one sleeper after it has given the queue lock back; a stop of the
dispatcher tells all of them; a restart tells nobody. Jobs can be taken by others than those that were told for them. What
never happens is that a job waits while somebody sleeps and nobody is on the way: each waiting job has a post that has
still to tell somebody, a loop that woke up and has not taken the queue lock again (`Frame.serves`), or the one loop that
woke up, has taken the lock again and has not looked at the queue since. Who that is, is a matter of how the machine came
to where it is: a loop that did not sleep stands at the same place. So a run is followed with this loop beside it.
- `Traced`: a run with the loop that is back at the queue; each run is one, and each is a run (`Run.traced`, `Traced.run`).
- `served_move`: no job is without somebody on the way, as long as nobody is about to tell of a stop.
- `job_before_told_runner`: without the loop that is back at the queue the count is wrong.
- `enough_runners`: the count, and what follows when nobody is on the way.
-/
import SecureEndpoint.Proofs.Workers.Session

namespace SecureEndpoint.Workers

/-! ## On the way to a waiting job -/

/-- a loop that was told or woke up for no reason, and has not taken the queue lock again -/
def Frame.isWoken : Frame → Bool
  | .drive _ _ (.asleep true) => true
  | _ => false

/-- a post that has put its job behind the others, and has still to tell somebody -/
def Frame.isTelling : Frame → Bool
  | .post _ .tell => true
  | _ => false

/-- a loop that has the queue lock and is about to look at the queue -/
def Frame.isLooking : Frame → Bool
  | .drive _ _ .look => true
  | _ => false

/-- an activation on its way to a waiting job -/
def Frame.serves (f : Frame) : Bool := f.isWoken || f.isTelling

theorem woken_iff {f : Frame} : f.isWoken ↔ ∃ mode n, f = .drive mode n (.asleep true) := by
  unfold Frame.isWoken
  split
  · exact ⟨fun _ => ⟨_, _, rfl⟩, fun _ => rfl⟩
  · rename_i h
    exact ⟨nofun, fun ⟨mode, n, hf⟩ => absurd hf (h mode n)⟩

theorem leaf_serves : Leaf Frame.serves where
  calls h := by cases h <;> rfl
  receive f v := by unfold Frame.receive; split <;> rfl
  born _ := rfl
  called c := by cases c <;> rfl

theorem roused_serves : Roused Frame.serves := by
  intro w f h
  cases f with
  | drive mode n p =>
    cases p with
    | asleep woken => cases woken <;> cases w <;> first | rfl | exact h
    | _ => cases w <;> exact h
  | post j p => cases w <;> exact h
  | _ => cases h

theorem Frame.Stirs.serves {f g : Frame} (h : f.Stirs g) (hf : f.serves) : g.serves := by
  cases f with
  | drive mode n p =>
    rcases h with h | h
    · cases p <;> cases h
      rfl
    · cases h
  | post j p => rcases h with h | h <;> cases h
  | _ => cases hf

theorem serves_wake_runner {f : Frame} (h : f.isIdleRunner) (pick : ThreadId) : (f.wake (.runner pick)).serves := by
  obtain ⟨mode, n, rfl⟩ := idle_iff.1 h
  rfl

theorem serves_idle {f : Frame} (h : f.isIdleRunner) : f.serves = false := by
  obtain ⟨mode, n, rfl⟩ := idle_iff.1 h
  rfl

/-- the two ways to a job exclude each other -/
theorem tops_serves (m : Machine) : m.tops Frame.serves = m.tops Frame.isWoken + m.tops Frame.isTelling := by
  simp only [Machine.tops]
  induction m.threads with
  | nil => rfl
  | cons th l ih =>
    have hhead : [th].countP (Thread.topIs Frame.serves) =
        [th].countP (Thread.topIs Frame.isWoken) + [th].countP (Thread.topIs Frame.isTelling) := by
      cases hs : th.stack with
      | nil => simp [Thread.topIs, hs]
      | cons f below =>
        simp only [countP_top hs]
        cases f with
        | drive mode n p =>
          cases p with
          | asleep woken => cases woken <;> rfl
          | _ => rfl
        | post j p => cases p <;> rfl
        | _ => rfl
    simp only [List.countP_cons, List.countP_nil, Nat.zero_add] at hhead ⊢
    omega

/-! ## Back at the queue -/

namespace Machine

variable {m m' : Machine} {who : Option ThreadId} {t : ThreadId}

/-- the loop that woke up, has taken the queue lock again and has not looked at the queue since: who that is after a
move -/
def back (m : Machine) (who : Option ThreadId) : Move → Option ThreadId
  | .step t _ => if (m.threads[t]?).any (Thread.topIs Frame.isWoken) then some t else if who = some t then none else who
  | _ => who

/-- a run with the changes of stage made on the way and the loop that is back at the queue -/
inductive Traced (ok : Machine → Prop) (m : Machine) : List (Stage × Change) → Option ThreadId → Machine → Prop
  | rest : Traced ok m [] none m
  | move {h who a b mv} : Traced ok m h who a → a.move mv = some b → ok b →
      Traced ok m (h ++ (a.wins? mv).toList) (a.back who mv) b

section

variable {ok : Machine → Prop} {a : Machine} {h : List (Stage × Change)}

theorem Traced.run (r : Traced ok m h who a) : Run ok m h a := by
  induction r with
  | rest => exact .rest
  | move _ hmove hok ih => exact ih.move hmove hok

/-- every run can be followed like this -/
theorem Run.traced (r : Run ok m h a) : ∃ who, Traced ok m h who a := by
  induction r with
  | rest => exact ⟨none, .rest⟩
  | move _ hmove hok ih =>
    obtain ⟨who, htraced⟩ := ih
    exact ⟨_, htraced.move hmove hok⟩

end

/-- whoever is back at the queue has not looked at it -/
def Placed (who : Option ThreadId) (m : Machine) : Prop := ∀ t ∈ who, ∃ mode n below, m.stackOf t = .drive mode n .look :: below

theorem Placed.owner (h : m.Placed who) (hm : m.Sound) (ht : t ∈ who) : m.shared.queueOwner = some t := by
  obtain ⟨mode, n, below, hs⟩ := h t ht
  exact hm.owned.mine (l := .queue) (f := .drive mode n .look) (by rw [hs]; exact .head _) (.head _)

/-- a thread inside a call keeps its activations until it makes a step -/
theorem Sound.keeps_stack {mv : Move} (hm : m.Sound) (h : m.move mv = some m') (inside : m.stackOf t ≠ [])
    (hmv : ∀ ch, mv ≠ .step t ch) : m'.stackOf t = m.stackOf t := by
  cases mv with
  | step i ch =>
    obtain ⟨th, f, below, e, s, -⟩ := hm.stepped h
    have hi : t ≠ i := by
      rintro rfl
      exact hmv ch rfl
    rw [s.stackAt, if_neg hi]
    split
    · rename_i hlen
      exact absurd (hlen ▸ stackOf_length m) inside
    · rfl
  | wake i => exact stackOf_still (changeTop_roster (fun _ _ => Frame.calm_wakeAnyway) h).2 t
  | expire i => exact stackOf_still (changeTop_roster (fun _ _ => Frame.calm_expire) h).2 t
  | call i c =>
    obtain ⟨th, hth, -, hs, rfl⟩ := called h
    have hi : i ≠ t := by
      rintro rfl
      exact inside (by simp [stackOf, roster, hth, Thread.calm, hs])
    simp [stackOf, roster, hi]
  | enter =>
    cases h
    exact stackOf_enter (by simp [roster, Thread.calm]) t
  | openGate g =>
    cases h
    rfl

/-- the next step of a loop that was told takes the queue lock -/
theorem StepOf.woken {th : Thread} {f : Frame} {below : List Frame} {e : Effect} (s : m.StepOf m' t th f below e)
    (hd : m.shared.dispatches = true) (hf : f.isWoken) :
    m.shared.queueOwner = none ∧ ∃ mode n, m'.stackOf t = .drive mode n .look :: below.map Frame.calm := by
  obtain ⟨mode, n, rfl⟩ := woken_iff.1 hf
  rw [s.after]
  cases s.go with
  | take h free =>
    cases h
    exact ⟨free, mode, n, rfl⟩
  | whim _ other => exact absurd (hd.symm.trans other) (by decide)

theorem back_step {th : Thread} {f : Frame} {below : List Frame} {e : Effect} (s : m.StepOf m' t th f below e)
    (ch : Choice) : m.back who (.step t ch) = if f.isWoken then some t else if who = some t then none else who := by
  rw [back, s.thread, Option.any_some, topIs_top s.top]

theorem placed_move {mv : Move} (hm : m.Sound) (hd : m.shared.dispatches = true) (hp : m.Placed who)
    (h : m.move mv = some m') : m'.Placed (m.back who mv) := by
  -- whoever was back before, and does not make the step itself, stays there
  have stays : ∀ t ∈ who, (∀ ch, mv ≠ .step t ch) → ∃ mode n below, m'.stackOf t = .drive mode n .look :: below := by
    intro t ht hmv
    obtain ⟨mode, n, below, hs⟩ := hp t ht
    exact ⟨mode, n, below, (hm.keeps_stack h (by rw [hs]; nofun) hmv).trans hs⟩
  cases mv with
  | step i ch =>
    obtain ⟨th, f, below, e, s, -⟩ := hm.stepped h
    rw [back_step s]
    intro t ht
    split at ht
    · rename_i hf
      obtain rfl := Option.some.inj ht
      obtain ⟨-, mode, n, hs⟩ := s.woken hd hf
      exact ⟨mode, n, _, hs⟩
    · split at ht
      · cases ht
      · rename_i hne
        refine stays t ht fun c hc => hne ?_
        obtain rfl := (Move.step.inj hc).1
        exact ht
  | _ => exact fun t ht => stays t ht nofun

/-- a step brings at most its own loop back, and takes at most its own away -/
theorem back_count {th : Thread} {f : Frame} {below : List Frame} {e : Effect} (hm : m.Sound)
    (hd : m.shared.dispatches = true) (hp : m.Placed who) (s : m.StepOf m' t th f below e) (ch : Choice) :
    who.toList.length + [f].countP Frame.isWoken ≤
      (m.back who (.step t ch)).toList.length + [f].countP Frame.isLooking := by
  rw [back_step s, List.countP_singleton, List.countP_singleton]
  by_cases hf : f.isWoken
  · have hnone : who = none := by
      cases hw : who with
      | none => rfl
      | some u =>
        subst hw
        cases (s.woken hd hf).1.symm.trans (hp.owner hm rfl)
    simp [hf, hnone]
  · by_cases hw : who = some t
    · subst hw
      obtain ⟨mode, n, rest, hs⟩ := hp t rfl
      have htop : f.calm = .drive mode n .look := (List.cons.inj (s.before.symm.trans hs)).1
      have hlook : f.isLooking := by
        cases f with
        | drive mode n p => cases p <;> first | rfl | cases htop
        | waitPaused l x p => cases p <;> cases htop
        | worker i p => cases p <;> cases htop
        | _ => cases htop
      simp [hf, hlook]
    · simp [hf, hw]

end Machine

/-! ## What a step does for the waiting jobs -/

theorem mem_whose {m : Machine} {p : Frame → Bool} {t : ThreadId} (h : (m.whose p).contains t) :
    ∃ u, m.threads[t]? = some u ∧ u.topIs p := by
  have hmem := (List.mem_filter.1 (List.contains_iff_mem.1 h)).2
  cases ht : m.threads[t]? with
  | none => simp [ht] at hmem
  | some u => exact ⟨u, rfl, by simpa [ht] using hmem⟩

theorem whose_isEmpty {m : Machine} {p : Frame → Bool} (h : (m.whose p).isEmpty) : m.tops p = 0 := by
  rw [Machine.tops_zero]
  intro th hth htop
  obtain ⟨t, ht⟩ := List.getElem?_of_mem hth
  have hmem : t ∈ m.whose p := by
    refine List.mem_filter.2 ⟨List.mem_range.2 (List.getElem?_eq_some_iff.1 ht).1, ?_⟩
    simp [ht, htop]
  rw [List.isEmpty_iff.1 h] at hmem
  cases hmem

/-- while the dispatcher goes on, a step leaves no job behind that nobody sees to: the queue is empty, a stop is about to be
told, nobody sleeps, there are at most as many more jobs as there are more on the way, a loop back at the queue counted, or
the step tells a sleeper -/
theorem Transition.serving {m : Machine} {t : ThreadId} {f : Frame} {e : Effect} (h : Transition m t f e)
    (hd : m.shared.dispatches = true) (hs : m.shared.dispatcher.stopped = false) :
    e.shared.dispatcher.queue = [] ∨ 0 < e.own.frames.countP Frame.summons ∨
      e.own.frames.countP Frame.isIdleRunner + m.tops Frame.isIdleRunner = 0 ∨
      e.shared.dispatcher.queue.length + [f].countP Frame.serves + [f].countP Frame.isLooking ≤
        m.shared.dispatcher.queue.length + e.own.frames.countP Frame.serves + [f].countP Frame.isWoken ∨
      ∃ pick, f.isTelling ∧ e.wake = .runner pick ∧ (m.whose Frame.isIdleRunner).contains pick ∧
        e.shared.dispatcher.queue = m.shared.dispatcher.queue := by
  cases h with
  | take h =>
    refine .inr (.inr (.inr (.inl ?_)))
    cases h <;> simp [Shared.goto, Shared.setOwner, Own.frames, Frame.serves, Frame.isWoken, Frame.isTelling,
      Frame.isLooking]
  | whim _ other => exact absurd (hd.symm.trans other) (by decide)
  | lookHalted h => exact absurd (h.symm.trans hs) (by decide)
  | lookTake _ _ queue =>
    refine .inr (.inr (.inr (.inl ?_)))
    simp [Shared.call, Shared.release, Shared.setOwner, Own.frames, queue, Frame.serves, Frame.isWoken, Frame.isTelling,
      Frame.isLooking]
  | lookSleep _ empty | lookEmpty _ _ empty => exact .inl (empty hd)
  | jobCall h =>
    refine .inr (.inr (.inr (.inl ?_)))
    have hzero : ∀ {id due rest callee}, Frame.Begins callee →
        [callee, Frame.job id due rest].countP Frame.serves = 0 := by
      intro id due rest callee h
      cases h with
      | call c => cases c <;> rfl
      | meet | hold => rfl
    exact Nat.le_of_eq (by rw [Shared.call, Own.frames, hzero h]; rfl)
  | push =>
    refine .inr (.inr (.inr (.inl ?_)))
    simp [Shared.goto, Shared.release, Shared.setOwner, Own.frames, Work.Dispatcher.post, Frame.serves, Frame.isWoken,
      Frame.isTelling, Frame.isLooking]
  | tellNobody h => exact .inr (.inr (.inl (by rw [whose_isEmpty h]; rfl)))
  | tellOne h => exact .inr (.inr (.inr (.inr ⟨_, rfl, rfl, h, rfl⟩)))
  | halted => exact .inr (.inl Nat.one_pos)
  | _ => exact .inr (.inr (.inr (.inl (Nat.le_refl _))))

namespace Machine

variable {m m' : Machine} {t : ThreadId} {th : Thread} {f : Frame} {below : List Frame} {e : Effect}

/-- the wake-up of a post makes a sleeper one of those that see to a job -/
theorem tops_told {pick : ThreadId} (hm : m.Formed) (s : m.StepOf m' t th f below e)
    (threads : m'.threads = m.afterStep t th below e) (hf : f.isTelling) (hwake : e.wake = .runner pick)
    (hpick : (m.whose Frame.isIdleRunner).contains pick) :
    m.tops Frame.serves + e.own.frames.countP Frame.serves + 1 = m'.tops Frame.serves + [f].countP Frame.serves := by
  obtain ⟨u, hu, htop⟩ := mem_whose hpick
  have hne : t ≠ pick := by
    rintro rfl
    cases s.thread.symm.trans hu
    rw [topIs_top s.top] at htop
    obtain ⟨mode, n, rfl⟩ := idle_iff.1 htop
    cases hf
  -- the list of threads after the step's own change, with the one that is told at its place
  have hstep := tops_step leaf_serves hm s
  have hold : (m.threads.set t (th.after e.own below))[pick]? = some u := by rw [List.getElem?_set_ne hne, hu]
  have hnew : wakeThreads e.wake (m.threads.set t (th.after e.own below)) =
      (m.threads.set t (th.after e.own below)).set pick (u.wake (.runner pick)) := by
    rw [hwake, wakeThreads, List.modify_eq_set_getElem?, hold]
    rfl
  have hset := countP_set (p := Thread.topIs Frame.serves) hold (u.wake (.runner pick))
  have hasleep : [u].countP (Thread.topIs Frame.serves) = 0 ∧
      [u.wake (.runner pick)].countP (Thread.topIs Frame.serves) = 1 := by
    simp only [List.countP_singleton, topIs_wake]
    cases hs : u.stack with
    | nil => simp [Thread.topIs, hs] at htop
    | cons g rest =>
      rw [topIs_top hs] at htop ⊢
      rw [topIs_top hs]
      simp [serves_idle htop, serves_wake_runner htop]
  have hafter : m'.tops Frame.serves =
      ((m.threads.set t (th.after e.own below)).set pick (u.wake (.runner pick))).countP (Thread.topIs Frame.serves) := by
    rw [tops, threads, afterStep, tops_spawn leaf_serves, hnew]
  omega

/-- while somebody sleeps and nobody is about to tell of a stop, every waiting job has somebody on the way, or the loop that
is back at the queue -/
def Served (m : Machine) (who : Option ThreadId) : Prop := 0 < m.tops Frame.isIdleRunner → m.tops Frame.summons = 0 →
  m.shared.dispatcher.queue.length ≤ m.tops Frame.serves + who.toList.length

theorem served_step {who who' : Option ThreadId} (hm : m.Sound) (hd : m.shared.dispatches = true) (halert : m.Alert)
    (h : m.Served who) (s : m.StepOf m' t th f below e) (threads : m'.threads = m.afterStep t th below e)
    (hback : who.toList.length + [f].countP Frame.isWoken ≤ who'.toList.length + [f].countP Frame.isLooking) :
    m'.Served who' := by
  intro hsleep hnone
  rw [s.dispatcher]
  have hf : ¬ f.summons := fun hf => by
    -- the stop that is told leaves no sleeper
    have hwake := s.go.summoning hf
    rw [tops_wake_all leaf_idle (by rw [hwake]; exact idle_wake_runners) (by rw [hwake]; nofun)
      (by rw [hwake]; nofun) threads] at hsleep
    cases hsleep
  have hsummons := le_tops_wake leaf_summons roused_summons hm.formed s threads
  have hidle := tops_wake_le leaf_idle lulled_idle hm.formed s threads
  have hserves := le_tops_wake leaf_serves roused_serves hm.formed s threads
  rw [List.countP_singleton (a := f) (p := Frame.summons), if_neg hf, hnone] at hsummons
  rcases s.go.idling with hold | ⟨-, hempty⟩
  · have hbefore : 0 < m.tops Frame.isIdleRunner := by omega
    have hquiet : m.tops Frame.summons = 0 := by omega
    have hgoes : m.shared.dispatcher.stopped = false := (halert.idle hbefore).resolve_right (by omega)
    have hqueue := h hbefore hquiet
    rcases s.go.serving hd hgoes with hempty | hnew | hnobody | hmore | ⟨pick, htelling, hwake, hpick, hsame⟩
    · simp [hempty]
    · omega
    · omega
    · omega
    · have htold := tops_told hm.formed s threads htelling hwake hpick
      have hserved : [f].countP Frame.serves ≤ 1 := List.countP_le_length
      -- who tells is not at the queue, and comes from nowhere near it
      have haway : [f].countP Frame.isLooking = 0 := by
        cases f <;> first | rfl | cases htelling
      rw [hsame]
      omega
  · simp [hempty hd]

/-- whoever wakes up for no reason is on the way -/
theorem served_stir {who : Option ThreadId} {change : Frame → Option Frame} (h : m.Served who)
    (stirs : ∀ f g, change f = some g → f.Stirs g) (mv : m.changeTop? t change = some m') : m'.Served who := by
  obtain ⟨th, f, g, below, thread, top, hg, hm'⟩ := changeTop_eq mv
  have threads : m'.threads = m.threads.set t { th with stack := g :: below } := by rw [hm']
  have hstirs := stirs f g hg
  intro hsleep hnone
  have hidle := tops_stir (p := Frame.isIdleRunner) thread top threads
  have hsummons := tops_stir (p := Frame.summons) thread top threads
  have hserves := tops_stir (p := Frame.serves) thread top threads
  have hmono : [f].countP Frame.serves ≤ [g].countP Frame.serves := by
    rw [List.countP_singleton, List.countP_singleton]
    by_cases hf : f.serves
    · simp [hf, hstirs.serves hf]
    · simp [hf]
  simp [List.countP_singleton (p := Frame.isIdleRunner), hstirs.idle] at hidle
  simp [List.countP_singleton (p := Frame.summons), hstirs.summons] at hsummons
  have hqueue := h (by omega) (by omega)
  have hshared : m'.shared = m.shared := by rw [hm']
  rw [hshared]
  omega

/-- who sleeps, who tells and who is on the way can be seen from the innermost activations -/
theorem served_calm {who : Option ThreadId} (h : m.Served who) (dispatcher : m'.shared.dispatcher = m.shared.dispatcher)
    (tops : ∀ {p}, Leaf p → m'.tops p = m.tops p) : m'.Served who := by
  rw [Served, tops leaf_idle, tops leaf_summons, tops leaf_serves, dispatcher]
  exact h

theorem served_move {who : Option ThreadId} {mv : Move} (hm : m.Sound) (hd : m.shared.dispatches = true)
    (halert : m.Alert) (hp : m.Placed who) (h : m.Served who) (hmove : m.move mv = some m') :
    m'.Served (m.back who mv) := by
  cases mv with
  | step t ch =>
    obtain ⟨th, f, below, e, s, -, rfl, -⟩ := hm.stepped hmove
    exact served_step hm hd halert h s rfl (back_count hm hd hp s ch)
  | wake t => exact served_stir h (fun _ _ => .inl) hmove
  | expire t => exact served_stir h (fun _ _ => .inr) hmove
  | call t c =>
    obtain ⟨th, -, -, -, hm'⟩ := called hmove
    exact served_calm h (by rw [hm']) fun lf => tops_call lf hmove
  | enter => exact served_calm h (by cases hmove; rfl) fun _ => tops_enter hmove
  | openGate g =>
    cases hmove
    exact served_calm h rfl fun _ => rfl

theorem served_run {ok : Machine → Prop} {m : Machine} {hist : List (Stage × Change)} {who : Option ThreadId} {size : Nat}
    {stem : String} (r : Traced ok (fresh size stem true) hist who m) :
    m.shared.dispatches = true ∧ m.Placed who ∧ m.Served who := by
  induction r with
  | rest => exact ⟨rfl, nofun, nofun⟩
  | move r hmove hok ih =>
    obtain ⟨hd, hp, hserved⟩ := ih
    obtain ⟨hm, halert⟩ := alert_run r.run
    exact ⟨(move_settings (hm.moved hmove)).2.trans hd, placed_move hm hd hp hmove, served_move hm hd halert hp hserved hmove⟩

/-! ## The result -/

/-- a loop sleeps; another one, which slept too, is told of the job that was posted, and takes the queue lock -/
def toldAndBack : List Move :=
  [Move.enter, .enter, .enter, .call 0 .run] ++ steps 0 2 ++ [Move.call 1 .run] ++ steps 1 2 ++
    [Move.call 2 (.post ⟨"a", [], false⟩)] ++ steps 2 2 ++ [Move.step 2 { pick := 1 }, .step 1 {}]

/-- **A job can wait while a loop sleeps and nobody is on the way.** The loop that was told has the lock again, and has not
looked at the queue yet. -/
theorem job_before_told_runner : ∃ (hist : List (Stage × Change)) (m : Machine),
    Run (fun _ => true) (fresh 1 "w" true) hist m ∧ (∃ th ∈ m.threads, th.topIs Frame.isIdleRunner) ∧
      (∀ th ∈ m.threads, ¬ th.topIs Frame.summons) ∧
      (m.threads[1]?).map (fun th : Thread => th.stack) = some [.drive .run 0 .look] ∧
      m.tops Frame.isWoken + m.tops Frame.isTelling = 0 ∧ m.shared.dispatcher.queue.map (·.id) = ["a"] ∧
      ¬ m.shared.dispatcher.queue.length ≤ m.tops Frame.isWoken + m.tops Frame.isTelling := by
  have hf : ((fresh 1 "w" true).follow (fun _ => true) [] toldAndBack).map (fun p => (p.2.tops Frame.isIdleRunner,
      p.2.tops Frame.summons, (p.2.threads[1]?).map (fun th : Thread => th.stack),
      p.2.tops Frame.isWoken + p.2.tops Frame.isTelling, p.2.shared.dispatcher.queue.map (·.id))) =
        some (1, 0, some [.drive .run 0 .look], 0, ["a"]) := by cbv
  obtain ⟨⟨hist, m⟩, hf, hp⟩ := Option.map_eq_some_iff.1 hf
  simp only [Prod.mk.injEq] at hp
  obtain ⟨hidle, hsummons, hlook, hway, hqueue⟩ := hp
  have hlength : m.shared.dispatcher.queue.length = 1 := by
    simpa using congrArg List.length hqueue
  refine ⟨hist, m, run_follow .rest hf, tops_pos.1 (by omega), tops_zero.1 hsummons, hlook, hway, hqueue, ?_⟩
  omega

/-- **Enough runners are awake.** Follow any run, as each can be (`Run.traced`), with the loop beside it that woke up, has
taken the queue lock again and has not looked at the queue since. Whenever a loop sleeps on the dispatcher and was not told,
and nobody has stopped the dispatcher without having told so yet: the dispatcher goes on, and there are at most as many jobs
waiting as there are loops that woke up and have not taken the queue lock again, posts that have still to tell somebody, and
the one loop that is back. This one has the queue lock, so wherever nobody has it the others are enough by themselves; and
where nobody is on the way or back, no job waits. -/
theorem enough_runners {ok : Machine → Prop} {m : Machine} {hist : List (Stage × Change)} {who : Option ThreadId}
    {size : Nat} {stem : String} (r : Traced ok (fresh size stem true) hist who m)
    (sleeper : ∃ th ∈ m.threads, th.topIs Frame.isIdleRunner) (told : ∀ th ∈ m.threads, ¬ th.topIs Frame.summons) :
    m.shared.dispatcher.stopped = false ∧
      m.shared.dispatcher.queue.length ≤ m.tops Frame.isWoken + m.tops Frame.isTelling + who.toList.length ∧
      (∀ t ∈ who, m.shared.queueOwner = some t ∧ ∃ mode n below, m.stackOf t = .drive mode n .look :: below) ∧
      (m.shared.queueOwner = none →
        m.shared.dispatcher.queue.length ≤ m.tops Frame.isWoken + m.tops Frame.isTelling) ∧
      (m.tops Frame.isWoken = 0 → m.tops Frame.isTelling = 0 → who = none → m.shared.dispatcher.queue = []) := by
  obtain ⟨hm, halert⟩ := alert_run r.run
  obtain ⟨-, hp, hserved⟩ := served_run r
  have hsleep := tops_pos.2 sleeper
  have hquiet := tops_zero.2 told
  have hqueue := hserved hsleep hquiet
  rw [tops_serves] at hqueue
  refine ⟨(halert.idle hsleep).resolve_right (by omega), hqueue, fun t ht => ⟨hp.owner hm ht, hp t ht⟩, fun hfree => ?_,
    fun hwoken htelling hnone => ?_⟩
  · cases who with
    | none => exact hqueue
    | some t => cases hfree.symm.trans (hp.owner hm rfl)
  · rw [hwoken, htelling, hnone] at hqueue
    exact List.length_eq_zero_iff.1 (Nat.le_zero.1 hqueue)

/-- two loops sleep; one job is posted and one of the loops is told, another job is posted and nobody is told yet, and the
loop that was told takes the queue lock -/
def toldHalfway : List Move :=
  [Move.enter, .enter, .enter, .call 0 .run] ++ steps 0 2 ++ [Move.call 1 .run] ++ steps 1 2 ++
    [Move.call 2 (.post ⟨"a", [], false⟩)] ++ steps 2 2 ++ [Move.step 2 { pick := 1 }, .call 2 (.post ⟨"b", [], false⟩)] ++
    steps 2 2 ++ steps 1 1

/-- one loop is back and one post has still to tell somebody: two jobs wait, and no more could -/
theorem enough_runners_halfway : ∃ (hist : List (Stage × Change)) (m : Machine),
    Traced (fun _ => true) (fresh 1 "w" true) hist (some 1) m ∧
      (m.threads[0]?).map (fun th : Thread => th.stack) = some [.drive .run 0 (.asleep false)] ∧
      m.shared.dispatcher.queue.map (·.id) = ["a", "b"] ∧ m.tops Frame.isWoken = 0 ∧ m.tops Frame.isTelling = 1 ∧
      m.shared.dispatcher.queue.length ≤ m.tops Frame.isWoken + m.tops Frame.isTelling + 1 ∧
      m.shared.dispatcher.stopped = false := by
  have hf : ((fresh 1 "w" true).follow (fun _ => true) [] toldHalfway).map (fun p =>
      ((p.2.threads[0]?).map (fun th : Thread => th.stack), p.2.shared.dispatcher.queue.map (·.id), p.2.tops Frame.isWoken,
        p.2.tops Frame.isTelling, p.2.tops Frame.summons, p.2.shared.queueOwner)) =
          some (some [.drive .run 0 (.asleep false)], ["a", "b"], 0, 1, 0, some 1) := by cbv
  obtain ⟨⟨hist, m⟩, hf, hp⟩ := Option.map_eq_some_iff.1 hf
  simp only [Prod.mk.injEq] at hp
  obtain ⟨hstack, hqueue, hwoken, htelling, hsummons, howner⟩ := hp
  obtain ⟨th, ht, hs⟩ := Option.map_eq_some_iff.1 hstack
  obtain ⟨who, r⟩ := (run_follow .rest hf).traced
  obtain ⟨hgoes, hcount, hback, -⟩ := enough_runners r
    ⟨th, List.mem_of_getElem? ht, by rw [topIs_top hs]; rfl⟩ (tops_zero.1 hsummons)
  -- two jobs wait and only one post is on the way, so somebody is back: it is the one that has the lock
  have hlength : m.shared.dispatcher.queue.length = 2 := by simpa using congrArg List.length hqueue
  cases who with
  | none =>
    rw [Option.toList_none, List.length_nil] at hcount
    omega
  | some t =>
    obtain rfl : t = 1 := Option.some.inj ((hback t rfl).1.symm.trans howner)
    exact ⟨hist, m, r, hstack, hqueue, hwoken, htelling, hcount, hgoes⟩

end Machine

end SecureEndpoint.Workers
