/-
Sleeping and being told.

The roster forgets wake-ups. Here they count: `Machine.tops` is the number of threads whose innermost activation satisfies
a condition, as the threads are, and `Machine.Stirred` is what a move does to the threads themselves.
- `tops_step`: a step changes the number by what it does to its own activation; `tops_wake_le`, `le_tops_wake`: the
  wake-up that it gives only takes sleepers away, and only adds to those that were told.
-/
import SecureEndpoint.Proofs.Workers.Stages

namespace SecureEndpoint.Workers

/-! ## Conditions on innermost activations -/

/-- a condition that only activations satisfy that have called nobody, and none at its beginning -/
structure Leaf (p : Frame → Bool) : Prop where
  calls : ∀ {f k}, f.Calls k → p f = false
  receive : ∀ f v, p (Frame.receive v f) = p f
  born : ∀ k, p (.worker k .enter) = false
  called : ∀ c : Call, p c.frame = false

/-- a wake-up puts nobody to sleep -/
def Lulled (p : Frame → Bool) : Prop := ∀ w f, p (Frame.wake w f) → p f

/-- a wake-up is not lost on anybody -/
def Roused (p : Frame → Bool) : Prop := ∀ w f, p f → p (Frame.wake w f)

/-- the activation once its thread wakes up for no reason, or its limit passes -/
def Frame.Stirs (f g : Frame) : Prop := f.wakeAnyway? = some g ∨ f.expire? = some g

theorem Frame.Stirs.calm {f g : Frame} (h : f.Stirs g) : g.calm = f.calm :=
  h.elim Frame.calm_wakeAnyway Frame.calm_expire

/-- sleeps in a paused pool, and nobody has told it to wake up -/
def Frame.dozes : Frame → Bool
  | .worker _ (.asleep false) => true
  | _ => false

theorem dozes_iff {f : Frame} : f.dozes ↔ ∃ i, f = .worker i (.asleep false) := by
  unfold Frame.dozes
  split
  · exact ⟨fun _ => ⟨_, rfl⟩, fun _ => rfl⟩
  · rename_i h
    exact ⟨nofun, fun ⟨i, hf⟩ => absurd hf (h i)⟩

theorem leaf_dozes : Leaf Frame.dozes where
  calls h := by cases h <;> rfl
  receive f v := by unfold Frame.receive; split <;> rfl
  born _ := rfl
  called c := by cases c <;> rfl

theorem leaf_idle : Leaf Frame.isIdleRunner where
  calls h := by cases h <;> rfl
  receive f v := by unfold Frame.receive; split <;> rfl
  born _ := rfl
  called c := by cases c <;> rfl

theorem lulled_dozes : Lulled Frame.dozes := by
  intro w f h
  obtain ⟨i, hf⟩ := dozes_iff.1 h
  unfold Frame.wake at hf
  split at hf <;> first | (rw [hf]; rfl) | cases hf | (split at hf <;> cases hf)

/-- what an idle runner is -/
theorem idle_iff {f : Frame} : f.isIdleRunner ↔ ∃ mode n, f = .drive mode n (.asleep false) := by
  unfold Frame.isIdleRunner
  split
  · exact ⟨fun _ => ⟨_, _, rfl⟩, fun _ => rfl⟩
  · rename_i h
    exact ⟨nofun, fun ⟨mode, n, hf⟩ => absurd hf (h mode n)⟩

theorem lulled_idle : Lulled Frame.isIdleRunner := by
  intro w f h
  obtain ⟨mode, n, hf⟩ := idle_iff.1 h
  unfold Frame.wake at hf
  split at hf <;> first | (rw [hf]; rfl) | cases hf | (split at hf <;> cases hf)

theorem dozes_wake_parked (f : Frame) : (f.wake .parked).dozes = false := by
  cases f with
  | worker i p => cases p <;> rfl
  | _ => rfl

theorem idle_wake_runners (f : Frame) : (f.wake .runners).isIdleRunner = false := by
  cases f with
  | drive mode n p => cases p <;> rfl
  | _ => rfl

theorem Frame.Stirs.dozes {f g : Frame} (h : f.Stirs g) : g.dozes = false := by
  rcases h with h | h
  · unfold Frame.wakeAnyway? at h
    split at h <;> cases h <;> rfl
  · unfold Frame.expire? at h
    split at h <;> cases h <;> rfl

theorem Frame.Stirs.idle {f g : Frame} (h : f.Stirs g) : g.isIdleRunner = false := by
  rcases h with h | h
  · unfold Frame.wakeAnyway? at h
    split at h <;> cases h <;> rfl
  · unfold Frame.expire? at h
    split at h <;> cases h <;> rfl

/-! ## Counting threads by their innermost activation -/

theorem topIs_wake (p : Frame → Bool) (w : Wake) (th : Thread) :
    (th.wake w).topIs p = th.topIs fun f => p (f.wake w) := by
  unfold Thread.wake
  split
  · rename_i h
    simp [Thread.topIs, h]
  · rename_i h
    simp [Thread.topIs, h]

theorem topIs_top {p : Frame → Bool} {th : Thread} {f : Frame} {below : List Frame} (h : th.stack = f :: below) :
    th.topIs p = p f := by
  simp [Thread.topIs, h]

/-- a thread counts as its innermost activation does -/
theorem countP_top {p : Frame → Bool} {th : Thread} {f : Frame} {below : List Frame} (h : th.stack = f :: below) :
    [th].countP (Thread.topIs p) = [f].countP p := by
  rw [List.countP_singleton, List.countP_singleton, topIs_top h]

theorem topIs_mono {p q : Frame → Bool} (h : ∀ f, p f → q f) {th : Thread} (hp : th.topIs p) : th.topIs q := by
  unfold Thread.topIs at hp ⊢
  split at hp
  · exact h _ hp
  · cases hp

/-- a list whose entries satisfy at most what those of another one do -/
theorem countP_le_of_getElem? {α : Type} {p : α → Bool} {l k : List α}
    (h : ∀ i : Nat, ((l[i]?).any p : Bool) → (k[i]?).any p) : l.countP p ≤ k.countP p := by
  induction l generalizing k with
  | nil => exact Nat.zero_le _
  | cons a l ih =>
    cases k with
    | nil =>
      have hz : (a :: l).countP p = 0 := List.countP_eq_zero.2 fun b hb hp => by
        obtain ⟨i, hi⟩ := List.getElem?_of_mem hb
        simpa [hi, hp] using h i
      rw [hz]
      exact Nat.zero_le _
    | cons b k =>
      have htail := ih (k := k) fun i => by simpa using h (i + 1)
      have hhead : p a → p b := by simpa using h 0
      rw [List.countP_cons, List.countP_cons]
      by_cases ha : p a
      · simp only [ha, hhead ha, ite_true]
        omega
      · simp only [ha, if_false, Bool.false_eq_true]
        omega

theorem wakeThreads_getElem? (w : Wake) (l : List Thread) (i : Nat) :
    (wakeThreads w l)[i]? = l[i]? ∨ (wakeThreads w l)[i]? = (l[i]?).map (Thread.wake w) := by
  cases w with
  | nobody => exact .inl rfl
  | runner pick =>
    simp only [wakeThreads, List.getElem?_modify]
    by_cases hi : pick = i
    · simp [hi]
    · simp [hi]
  | _ => exact .inr List.getElem?_map

theorem countP_wake_le {p : Frame → Bool} (h : Lulled p) (w : Wake) (l : List Thread) :
    (wakeThreads w l).countP (Thread.topIs p) ≤ l.countP (Thread.topIs p) := by
  refine countP_le_of_getElem? fun i hi => ?_
  rcases wakeThreads_getElem? w l i with hw | hw
  · rwa [hw] at hi
  · rw [hw] at hi
    cases hl : l[i]? with
    | none => simp [hl] at hi
    | some th =>
      simp only [hl, Option.map_some, Option.any_some, topIs_wake] at hi ⊢
      exact topIs_mono (h w) hi

theorem le_countP_wake {p : Frame → Bool} (h : Roused p) (w : Wake) (l : List Thread) :
    l.countP (Thread.topIs p) ≤ (wakeThreads w l).countP (Thread.topIs p) := by
  refine countP_le_of_getElem? fun i hi => ?_
  rcases wakeThreads_getElem? w l i with hw | hw
  · rwa [hw]
  · rw [hw]
    cases hl : l[i]? with
    | none => simp [hl] at hi
    | some th =>
      simp only [hl, Option.map_some, Option.any_some, topIs_wake] at hi ⊢
      exact topIs_mono (h w) hi

/-- whoever is told by a wake-up for everybody is not among those who sleep -/
theorem countP_wake_all {p : Frame → Bool} {w : Wake} (h : ∀ f, p (Frame.wake w f) = false) (hn : w ≠ .nobody)
    (hr : ∀ pick, w ≠ .runner pick) (l : List Thread) : (wakeThreads w l).countP (Thread.topIs p) = 0 := by
  have hmap : wakeThreads w l = l.map (Thread.wake w) := by
    cases w <;> first | rfl | exact absurd rfl hn | exact absurd rfl (hr _)
  rw [hmap, List.countP_eq_zero]
  intro th hth hp
  obtain ⟨u, -, rfl⟩ := List.mem_map.1 hth
  rw [topIs_wake] at hp
  have := topIs_mono (q := fun _ => false) (fun f hf => by simp [h f] at hf) hp
  unfold Thread.topIs at this
  split at this <;> cases this

namespace Machine

/-- how many threads have an innermost activation that satisfies a condition -/
def tops (m : Machine) (p : Frame → Bool) : Nat := m.threads.countP (Thread.topIs p)

theorem tops_pos {m : Machine} {p : Frame → Bool} : 0 < m.tops p ↔ ∃ th ∈ m.threads, th.topIs p :=
  List.countP_pos_iff

theorem tops_zero {m : Machine} {p : Frame → Bool} : m.tops p = 0 ↔ ∀ th ∈ m.threads, ¬ th.topIs p :=
  List.countP_eq_zero

/-! ## What a move does to the threads -/

/-- the threads after the step of one of them -/
def afterStep (m : Machine) (t : ThreadId) (th : Thread) (below : List Frame) (e : Effect) : List Thread :=
  wakeThreads e.wake (m.threads.set t (th.after e.own below)) ++ (e.spawn.map newWorker).toList

/-- what a move does to the threads, wake-ups included -/
inductive Stirred (m m' : Machine) : Prop
  | step {t th f below e} (s : m.StepOf m' t th f below e) (threads : m'.threads = m.afterStep t th below e)
  /-- somebody wakes up for no reason, or a limit passes -/
  | stir {t th f g below} (thread : m.threads[t]? = some th) (top : th.stack = f :: below) (h : f.Stirs g)
      (shared : m'.shared = m.shared) (roster : m'.roster = m.roster)
      (threads : m'.threads = m.threads.set t { th with stack := g :: below })
  /-- a call begins, somebody comes, a gate opens -/
  | calm (gates : List String) (shared : m'.shared = { m.shared with gates := gates })
      (tops : ∀ {p}, Leaf p → m'.tops p = m.tops p) (tally : ∀ {p}, Countable p → m'.tally p = m.tally p)

theorem changeTop_stirred {m m' : Machine} {t : ThreadId} {change : Frame → Option Frame}
    (stirs : ∀ f g, change f = some g → f.Stirs g) (h : m.changeTop? t change = some m') : m.Stirred m' := by
  obtain ⟨hshared, hroster⟩ := changeTop_roster (fun f g hg => (stirs f g hg).calm) h
  obtain ⟨th, f, g, below, ht, hs, hg, rfl⟩ := changeTop_eq h
  exact .stir ht hs (stirs f g hg) hshared hroster rfl

theorem countP_set {α : Type} {p : α → Bool} {l : List α} {i : Nat} {a : α} (h : l[i]? = some a) (b : α) :
    (l.set i b).countP p + [a].countP p = l.countP p + [b].countP p := by
  simpa using countP_flatMap_set p (fun a => [a]) h b

/-- nobody has an innermost activation that counts at its beginning -/
theorem tops_call {m m' : Machine} {t : ThreadId} {c : Call} {p : Frame → Bool} (lf : Leaf p)
    (h : m.move (.call t c) = some m') : m'.tops p = m.tops p := by
  obtain ⟨th, ht, -, hs, rfl⟩ := called h
  have hc := countP_set (p := Thread.topIs p) ht { th with stack := [c.frame], outcome := none }
  simpa [tops, Thread.topIs, hs, lf.called] using hc

theorem tops_enter {m m' : Machine} {p : Frame → Bool} (h : m.move .enter = some m') : m'.tops p = m.tops p := by
  cases h
  simp [tops, Thread.topIs]

theorem move_stirred {m m' : Machine} {mv : Move} (hm : m.Sound) (h : m.move mv = some m') : m.Stirred m' := by
  cases mv with
  | step t ch =>
    cases ht : m.threads[t]? with
    | none => simp [move, ht] at h
    | some th =>
      cases hs : th.stack with
      | nil => simp [move, ht, hs] at h
      | cons f below =>
        cases he : f.step m t ch with
        | none => simp [move, ht, hs, he] at h
        | some e =>
          simp only [move, ht, hs, he, bind, pure, Option.bind_some, Option.some.injEq] at h
          subst h
          have hsees := hm.sees_top ht hs
          exact .step ⟨ht, hs, hsees, step_transition he hsees, rfl, m.apply_roster t th below e⟩ rfl
  | wake t => exact changeTop_stirred (fun _ _ => .inl) h
  | expire t => exact changeTop_stirred (fun _ _ => .inr) h
  | call t c =>
    obtain ⟨th, ht, -, hs, rfl⟩ := called h
    refine .calm m.shared.gates rfl (fun lf => tops_call lf h) fun {p} cp => ?_
    have hc := countP_flatMap_set p (fun u : Thread => u.stack) (l := m.roster) (t := t) (a := th.calm)
      (by simp [roster, ht]) (Thread.calm { th with stack := [c.frame], outcome := none })
    rw [tally, frames, roster_set, tally, frames]
    simpa [Thread.calm, hs, cp.calm, cp.called] using hc
  | enter =>
    refine .calm m.shared.gates (by cases h; rfl) (fun _ => tops_enter h) fun _ => ?_
    cases h
    exact tally_enter (by simp [roster, Thread.calm])
  | openGate g =>
    cases h
    exact .calm _ rfl (fun _ => rfl) fun _ => rfl

/-- what holds at first and is kept by every move and what it does to the threads holds after a run, of the machine and of
the changes made -/
theorem Run.keeps_moves {ok : Machine → Prop} {I : List (Stage × Change) → Machine → Prop} {m a : Machine}
    {h : List (Stage × Change)} (r : m.Run ok h a) (hm : m.Sound) (first : I [] m)
    (kept : ∀ {h a b w}, a.Sound → I h a → a.Moved b w → a.Stirred b → ok b → I (h ++ w.toList) b) : a.Sound ∧ I h a := by
  induction r with
  | rest => exact ⟨hm, first⟩
  | move _ hmove hok ih =>
    obtain ⟨hs, hi⟩ := ih
    have mv := hs.moved hmove
    exact ⟨sound_move hs mv, kept hs hi mv (move_stirred hs hmove) hok⟩

theorem Run.keeps_stirred {ok I : Machine → Prop} {m a : Machine} {h : List (Stage × Change)} (r : m.Run ok h a)
    (hm : m.Sound) (first : I m) (kept : ∀ {a b}, a.Sound → ok b → I a → a.Stirred b → I b) : a.Sound ∧ I a :=
  r.keeps_moves (I := fun _ => I) hm first fun hs hi _ st hok => kept hs hok hi st

section Step

variable {m m' : Machine} {t : ThreadId} {th : Thread} {f : Frame} {below : List Frame} {e : Effect} {p : Frame → Bool}

/-- a step changes the number by what becomes of its own activation; whoever gets an answer is not counted -/
theorem tops_step (lf : Leaf p) (hm : m.Formed) (s : m.StepOf m' t th f below e) :
    (m.threads.set t (th.after e.own below)).countP (Thread.topIs p) + [f].countP p =
      m.tops p + e.own.frames.countP p := by
  have hset := countP_set (p := Thread.topIs p) s.thread (th.after e.own below)
  have hafter : [th.after e.own below].countP (Thread.topIs p) = e.own.frames.countP p := by
    have hn := s.nested hm
    have hfit := s.go.fits
    cases how : e.own with
    | become g => exact countP_top rfl
    | call g callee =>
      rw [how] at hfit
      rw [show [th.after (.call g callee) below].countP (Thread.topIs p) = [callee].countP p from countP_top rfl]
      simp [Own.frames, List.countP_cons, lf.calls hfit.2]
    | ret v =>
      cases below with
      | nil => by_cases hw : th.worker.isSome <;> simp [Thread.after, Own.frames, Thread.topIs, hw]
      | cons b rest => simp [Thread.after, Own.frames, Thread.topIs, lf.receive, lf.calls hn.called]
    | unwind => by_cases hw : th.worker.isSome <;> simp [Thread.after, Own.frames, Thread.topIs, hw]
  rw [countP_top s.top, hafter] at hset
  exact hset

theorem tops_spawn (lf : Leaf p) (l : List Thread) (spawn : Option Nat) :
    (l ++ (spawn.map newWorker).toList).countP (Thread.topIs p) = l.countP (Thread.topIs p) := by
  cases spawn <;> simp [newWorker, Thread.topIs, lf.born]

/-- the wake-up that a step gives takes sleepers away -/
theorem tops_wake_le (lf : Leaf p) (lulled : Lulled p) (hm : m.Formed) (s : m.StepOf m' t th f below e)
    (threads : m'.threads = m.afterStep t th below e) :
    m'.tops p + [f].countP p ≤ m.tops p + e.own.frames.countP p := by
  rw [← tops_step lf hm s, tops, threads, afterStep, tops_spawn lf]
  exact Nat.add_le_add_right (countP_wake_le lulled _ _) _

/-- the wake-up that a step gives adds to those that were told -/
theorem le_tops_wake (lf : Leaf p) (roused : Roused p) (hm : m.Formed) (s : m.StepOf m' t th f below e)
    (threads : m'.threads = m.afterStep t th below e) :
    m.tops p + e.own.frames.countP p ≤ m'.tops p + [f].countP p := by
  rw [← tops_step lf hm s, tops, threads, afterStep, tops_spawn lf]
  exact Nat.add_le_add_right (le_countP_wake roused _ _) _

/-- a wake-up for everybody leaves no sleeper -/
theorem tops_wake_all (lf : Leaf p) (h : ∀ g, p (Frame.wake e.wake g) = false) (hn : e.wake ≠ .nobody)
    (hr : ∀ pick, e.wake ≠ .runner pick) (threads : m'.threads = m.afterStep t th below e) : m'.tops p = 0 := by
  rw [tops, threads, afterStep, tops_spawn lf]
  exact countP_wake_all h hn hr _

/-- somebody who stirs without cause -/
theorem tops_stir {g : Frame} (thread : m.threads[t]? = some th) (top : th.stack = f :: below)
    (threads : m'.threads = m.threads.set t { th with stack := g :: below }) :
    m'.tops p + [f].countP p = m.tops p + [g].countP p := by
  have hset := countP_set (p := Thread.topIs p) thread { th with stack := g :: below }
  have hafter : [({ th with stack := g :: below } : Thread)].countP (Thread.topIs p) = [g].countP p := countP_top rfl
  rwa [countP_top top, hafter, ← threads] at hset

end Step

end Machine

end SecureEndpoint.Workers
