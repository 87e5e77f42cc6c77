/-
What the parking counters count.

Three counters under the parking lock: the living, the parked and the workers to wait for. Workers of all generations
change them, panics take workers away from in between, and a start or a stop may still be on its way. The theorem is about
every run: any calls in any order, any number of starts and stops, drops, panics.
- `idle_move`: in a stopped pool nobody is waited for, once the stop has said so.
- `lost_run`: a worker that a panic ended stays counted for good.
- `assembled_iff`: in a paused pool the counters agree exactly when all workers of this start are parked and no panic ever
  ended a worker; whoever waits for the pause may hold the parking lock meanwhile.
- `counters_exact`: all of it, with what the counters are in every state.
-/
import Mathlib
import SecureEndpoint.Proofs.Workers.Patience

namespace SecureEndpoint.Workers

/-- the thread is a worker that has counted itself in, and has not yet counted itself out -/
def Thread.enlisted (th : Thread) : Bool := th.stack.any Frame.enlisted

/-- the thread is a worker between counting itself as parked and no longer -/
def Thread.parked (th : Thread) : Bool := th.stack.any Frame.parks

/-- whoever makes a pool stopped that was not is a stop, which has still to say that nobody is waited for -/
theorem Transition.settles {m : Machine} {t : ThreadId} {f : Frame} {e : Effect} (h : Transition m t f e)
    (before : m.shared.stage ≠ .stopped) (after : e.shared.stage = .stopped) : e.own = .become (.stop .settled) := by
  cases h with
  | take h => cases h <;> exact absurd after before
  | @whim mode n p w => cases w <;> exact absurd after before
  | settle => rfl
  | started | paused | resumed | shut => cases after
  | _ => exact absurd after before

namespace Machine

/-! ## Nobody is waited for in a stopped pool -/

/-- a stopped pool waits for no worker, once the stop has said so -/
def Idle (m : Machine) : Prop := m.shared.stage = .stopped → m.shared.spawned = 0 ∨ ∃ t, .stop .settled ∈ m.stackOf t

theorem idle_fresh (size : Nat) (stem : String) (dispatches : Bool) : (fresh size stem dispatches).Idle :=
  fun _ => .inl rfl

section Move

variable {m m' : Machine} {t : ThreadId} {th : Thread} {f : Frame} {below : List Frame} {e : Effect}
variable {w : Option (Stage × Change)}

theorem idle_step (hm : m.Sound) (h : m.Idle) (s : m.StepOf m' t th f below e) : m'.Idle := by
  intro hstop
  rw [s.writes.spawned]
  by_cases hmark : f = .start .mark
  · -- a start that remembers the number of its workers has made the pool run
    subst hmark
    have hrun : m.shared.stage = .running := s.sees
    rw [s.writes.stage] at hstop
    exact absurd (hrun.symm.trans hstop) (by decide)
  by_cases hsettled : f = .stop .settled
  · subst hsettled
    exact .inl rfl
  have hsame : f.spawnedAfter m.shared = m.shared.spawned := by
    unfold Frame.spawnedAfter
    split
    · exact absurd rfl hmark
    · exact absurd rfl hsettled
    · rfl
  rw [hsame]
  by_cases hbefore : m.shared.stage = .stopped
  · exact (h hbefore).imp_right fun ⟨i, hi⟩ => ⟨i, mem_keep s hm.formed rfl hi fun _ hf => hsettled hf.symm⟩
  · refine .inr ⟨t, ?_⟩
    rw [s.after, s.go.settles hbefore (s.stage ▸ hstop)]
    exact .head _

theorem idle_move (hm : m.Sound) (h : m.Idle) (mv : m.Moved m' w) : m'.Idle := by
  cases mv with
  | step s => exact idle_step hm h s
  | still gates hsh hr =>
    rw [Idle, hsh, funext (stackOf_still hr)]
    exact h
  | @call t th c ht hwk hs hsh hr =>
    rw [Idle, hsh]
    refine fun hstop => (h hstop).imp_right fun ⟨i, hi⟩ => ⟨i, ?_⟩
    rw [stackOf_call ht hr]
    split
    · rename_i hit
      simp [hit, stackOf, ht, hs] at hi
    · exact hi
  | enter hsh hr =>
    rw [Idle, hsh, funext (stackOf_enter hr)]
    exact h

/-! ## The dead stay dead -/

/-- a worker that a panic ended stays so: nobody who has ended makes a step or a call -/
theorem lost_move (hm : m.Sound) (mv : m.Moved m' w) {i : ThreadId} {u : Thread} (hu : m.roster[i]? = some u)
    (hlost : u.lost) : ∃ u', m'.roster[i]? = some u' ∧ u'.lost := by
  have hl : i < m.roster.length := (List.getElem?_eq_some_iff.1 hu).1
  cases mv with
  | @step t th f below e s =>
    refine ⟨u, ?_, hlost⟩
    have hi : t ≠ i := by
      rintro rfl
      cases s.entry.symm.trans hu
      simp [Thread.lost, Thread.calm, s.active hm.formed] at hlost
    rw [s.roster, List.getElem?_append_left (by simpa using hl), List.getElem?_set, if_neg hi]
    exact hu
  | still gates hsh hr => exact ⟨u, hr ▸ hu, hlost⟩
  | @call t th c ht hwk hs hsh hr =>
    rw [hr, List.getElem?_set]
    by_cases hi : t = i
    · subst hi
      cases ht.symm.trans hu
      exact ⟨{ worker := none, life := u.life, stack := [c.frame] }, by rw [if_pos rfl, if_pos hl], hlost⟩
    · exact ⟨u, by rw [if_neg hi, hu], hlost⟩
  | enter hsh hr => exact ⟨u, by rw [hr, List.getElem?_append_left hl, hu], hlost⟩

end Move

theorem lost_run {ok : Machine → Prop} {m m' : Machine} {hist : List (Stage × Change)} (hm : m.Sound)
    (r : Run ok m hist m') {t : ThreadId} {th : Thread} (ht : m.threads[t]? = some th) (hlost : th.lost) :
    ∃ th', m'.threads[t]? = some th' ∧ th'.lost := by
  have hu : ∃ u, m.roster[t]? = some u ∧ u.lost := ⟨th.calm, by simp [roster, ht], hlost⟩
  have hkept : ∃ u, m'.roster[t]? = some u ∧ u.lost := by
    refine (r.keeps (I := fun m => ∃ u, m.roster[t]? = some u ∧ u.lost) hm hu ?_).2
    rintro _ _ _ hs ⟨u, hu, hul⟩ mv -
    exact lost_move hs mv hu hul
  obtain ⟨u, hu, hul⟩ := hkept
  obtain ⟨th', ht', rfl⟩ := roster_thread hu
  exact ⟨th', ht', hul⟩

/-! ## The counts by thread -/

section Threads

variable {m : Machine}

theorem roster_any {p : Frame → Bool} (calm : ∀ f : Frame, p f.calm = p f) (m : Machine) :
    m.roster.countP (fun th => th.stack.any p) = m.threads.countP fun th => th.stack.any p := by
  rw [roster, List.countP_map]
  refine List.countP_congr fun th _ => ?_
  simp [Thread.calm, List.any_map, Function.comp_def, calm]

theorem tally_enlisted (hm : m.Formed) : m.tally Frame.enlisted = m.threads.countP Thread.enlisted := by
  rw [tally_any hm.enlisted_le_one, roster_any countable_enlisted.calm]
  rfl

theorem tally_parks (hm : m.Formed) : m.tally Frame.parks = m.threads.countP Thread.parked := by
  have hle : ∀ th ∈ m.roster, th.stack.countP Frame.parks ≤ 1 := fun th hth =>
    (List.countP_mono_left fun f _ hf => enlisted_of_parks hf).trans (hm.enlisted_le_one th hth)
  rw [tally_any hle, roster_any countable_parks.calm]
  rfl

theorem roster_lost (m : Machine) : m.roster.countP Thread.lost = m.threads.countP Thread.lost := by
  rw [roster, List.countP_map]
  rfl

end Threads

/-- in a stopped pool nobody has counted itself in -/
theorem Governed.none_enlisted {m : Machine} (hm : m.Governed) (hstop : m.shared.stage = .stopped) :
    m.tally Frame.enlisted = 0 := by
  rw [tally_any hm.sound.formed.enlisted_le_one, List.countP_eq_zero]
  intro th hth hany
  obtain ⟨t, ht⟩ := List.getElem?_of_mem hth
  exact (hm.stopped hstop).2 t (hm.sound.formed.active_of_enlisted ht hany)

/-! ## When the counters agree -/

/-- every worker of this start has its handle among the handles, and is counted as parked -/
def AllParked (m : Machine) : Prop := ∀ k < m.shared.size, ∃ t th, m.shared.handles[k]? = some t ∧
  m.threads[t]? = some th ∧ th.worker = some k ∧ th.parked

/-- a list that has a condition at each place of a roll has it as often as the roll is long -/
theorem roll_le_countP {α : Type} {p : α → Bool} {l : List α} {roll : List Nat} (nodup : roll.Nodup)
    (h : ∀ i ∈ roll, ∃ a, l[i]? = some a ∧ p a) : roll.length ≤ l.countP p := by
  obtain ⟨places, -, hlen, hmem⟩ := exists_places p l
  rw [← hlen]
  exact nodup.length_le_of_subset fun i hi => (hmem i).2 (h i hi)

/-- no two handles are those of one worker -/
theorem Custody.handles_nodup {m : Machine} (h : m.Custody) : m.shared.handles.Nodup := by
  rw [List.nodup_iff_getElem?_ne_getElem?]
  intro i j hij hj heq
  obtain ⟨u, hu, hui⟩ := h.named j _ (List.getElem?_eq_getElem hj)
  obtain ⟨v, hv, hvi⟩ := h.named i _ (heq.trans (List.getElem?_eq_getElem hj))
  cases hu.symm.trans hv
  have : j = i := Option.some.inj (hui.symm.trans hvi)
  omega

/-- where all workers of this start are parked, as many are parked as the pool is large -/
theorem Governed.size_le_parks {m : Machine} (hm : m.Governed) (hall : m.AllParked) :
    m.shared.size ≤ m.tally Frame.parks := by
  have hlen : m.shared.size ≤ m.shared.handles.length := by
    by_contra hlt
    obtain ⟨t, -, hk, -⟩ := hall m.shared.handles.length (by omega)
    simp at hk
  rw [tally_parks hm.sound.formed]
  refine hlen.trans (roll_le_countP hm.custody.handles_nodup fun t ht => ?_)
  obtain ⟨k, hk⟩ := List.getElem?_of_mem ht
  have hroom := hm.custody.room
  have hlt : k < m.shared.handles.length := (List.getElem?_eq_some_iff.1 hk).1
  obtain ⟨i, th, hi, hth, -, hparked⟩ := hall k (by omega)
  cases hk.symm.trans hi
  exact ⟨th, hth, hparked⟩

/-- **When the counters agree.** In a paused pool whose parking lock is free or held by somebody who waits for the pause:
all the living are parked and as many live as are waited for, exactly when every worker of this start is parked and no
panic ever ended a worker. -/
theorem assembled_iff {m : Machine} (hm : m.Governed) (hc : m.Census) (hu : m.Muster)
    (hlock : ∀ t, ∀ f ∈ m.stackOf t, .parking ∈ f.locks → f.kind = .waitPaused) (hstage : m.shared.stage = .paused) :
    m.shared.Assembled ↔ m.AllParked ∧ ∀ th ∈ m.threads, ¬ th.lost := by
  have hspawned : m.shared.spawned = m.shared.size := by
    refine (hc.spawned (.inr hstage)).resolve_right ?_
    rintro ⟨t, ht⟩
    cases hlock t _ ht (by simp [Frame.locks])
  have hle := hm.enlisted_le
  have hparks := m.parks_le_enlisted
  have hparked := hc.parked
  rw [Muster, roster_lost] at hu
  constructor
  · rintro ⟨hall, hlive⟩
    have halive : m.threads.countP Thread.lost = 0 := by omega
    refine ⟨fun k hk => ?_, fun th hth hl => List.countP_eq_zero.1 halive th hth hl⟩
    -- as many sleep as the pool is large, so they are the workers that have their handles
    have hsleep : m.roster.countP Thread.sleeps = m.shared.size := by
      rw [← parked_sleep hm.sound.formed fun t f hf hp hl => by
        have hkind := hlock t f hf hl
        cases f <;> cases hkind
        cases hp]
      omega
    obtain ⟨hlen, hasleep⟩ := hm.all_asleep (by rw [hstage]; decide) hsleep
    have hget := List.getElem?_eq_getElem (l := m.shared.handles) (i := k) (by omega)
    obtain ⟨u, hu, hus⟩ := hasleep _ (.inl (List.mem_of_getElem? hget))
    obtain ⟨v, hv, hname⟩ := hm.custody.named k _ hget
    cases hu.symm.trans hv
    obtain ⟨th, hth, rfl⟩ := roster_thread hu
    obtain ⟨i, b, hstack⟩ := Thread.sleeps_iff.1 (Thread.sleeps_calm hus)
    exact ⟨_, th, hget, hth, hname, by rw [Thread.parked, hstack]; rfl⟩
  · rintro ⟨hall, halive⟩
    have hnone : m.threads.countP Thread.lost = 0 := List.countP_eq_zero.2 halive
    have hsize := hm.size_le_parks hall
    exact ⟨by omega, by omega⟩

/-! ## The result -/

/-- what holds of every run, whoever gives up the pool -/
structure Counted (m : Machine) : Prop where
  muster : m.Muster
  parked : m.shared.parked = m.tally Frame.parks
  /-- nobody has escaped, or the pool was given up while it was closing -/
  course : m.Governed ∧ m.Census ∧ m.Idle ∨ m.GivenUp

theorem counted_fresh (size : Nat) (stem : String) (dispatches : Bool) : (fresh size stem dispatches).Counted where
  muster := muster_fresh size stem dispatches
  parked := (census_fresh size stem dispatches).parked
  course := .inl ⟨governed_fresh size stem dispatches, census_fresh size stem dispatches, idle_fresh size stem dispatches⟩

theorem counted_move {m m' : Machine} {w : Option (Stage × Change)} (hm : m.Sound) (h : m.Counted) (mv : m.Moved m' w) :
    m'.Counted where
  muster := muster_move hm h.muster mv
  parked := parked_move hm h.parked mv
  course := by
    rcases h.course with ⟨hg, hc, hi⟩ | hup
    · exact (governed_move hg mv).imp_left fun hg' => ⟨hg', census_move hg hc mv, idle_move hm hi mv⟩
    · exact .inr (givenUp_move hm hup mv)

theorem counted_run {ok : Machine → Prop} {m : Machine} {hist : List (Stage × Change)} {size : Nat} {stem : String}
    {dispatches : Bool} (r : Run ok (fresh size stem dispatches) hist m) : m.Sound ∧ m.Counted ∧ m.shared.size = size := by
  refine r.keeps (I := fun m => m.Counted ∧ m.shared.size = size) (sound_fresh size stem dispatches)
    ⟨counted_fresh size stem dispatches, rfl⟩ ?_
  rintro a b w hm ⟨h, hsize⟩ mv -
  exact ⟨counted_move hm h mv, (move_settings mv).1.trans hsize⟩

namespace Counted

variable {m : Machine}

/-- a pool that is not closing was not given up, so nobody has escaped from it -/
theorem governed (h : m.Counted) (hstage : m.shared.stage ≠ .closing) : m.Governed ∧ m.Census ∧ m.Idle :=
  h.course.resolve_right fun hup => hstage hup.stage

theorem live (h : m.Counted) (hm : m.Sound) :
    m.shared.live = m.threads.countP Thread.enlisted + m.threads.countP Thread.lost := by
  rw [h.muster, tally_enlisted hm.formed, roster_lost]

theorem settled (h : m.Counted) (hm : m.Sound) (hfree : m.shared.parkingOwner = none) (hstop : m.shared.stage = .stopped) :
    m.shared.parked = 0 ∧ m.shared.spawned = 0 ∧ m.shared.live = m.threads.countP Thread.lost := by
  obtain ⟨hg, -, hi⟩ := h.governed (by rw [hstop]; decide)
  have hnone := hg.none_enlisted hstop
  have hle := m.parks_le_enlisted
  have hlive := h.muster
  rw [Muster, hnone, roster_lost] at hlive
  refine ⟨by rw [h.parked]; omega, ?_, by omega⟩
  refine (hi hstop).resolve_right ?_
  rintro ⟨t, ht⟩
  -- the last step of a stop has the parking lock
  cases hfree.symm.trans (hm.owned.mine (l := .parking) ht (by simp [Frame.locks]))

end Counted

/-- a wait for the pause that compares the counters succeeds where they agree -/
theorem step_compare (m : Machine) (t : ThreadId) (ch : Choice) (limit : Nat) (expired : Bool) :
    (((Frame.waitPaused limit expired .compare).step m t ch).map Effect.own = some (.ret (.flag true))) ↔
      m.shared.Assembled := by
  unfold Shared.Assembled
  simp only [Frame.step, stepWaitPaused]
  split
  · rename_i h
    simp [h]
    rfl
  · rename_i h
    refine iff_of_false (fun hret => ?_) h
    split at hret <;> cases hret

/-- **What the parking counters count.** In every state that a pool can reach, through any calls in any order:
the living are the workers that have counted themselves in and not yet out, and those that a panic ended, which stay for
good; the parked are the workers between counting themselves as parked and no longer; the parked and the dead together are
no more than the living, and whoever is about to take one off finds at least one. While the parking lock is free: in a
stopped pool nobody is parked or waited for, and only the dead count as living; in a paused pool the counters agree exactly
when every worker of this start is parked and no panic ever ended a worker. This is also what a wait for the pause that
has the lock finds. -/
theorem counters_exact {ok : Machine → Prop} {m : Machine} {hist : List (Stage × Change)} {size : Nat} {stem : String}
    {dispatches : Bool} (r : Run ok (fresh size stem dispatches) hist m) :
    m.shared.size = size ∧
    m.shared.live = m.threads.countP Thread.enlisted + m.threads.countP Thread.lost ∧
    (∀ ok' hist' m', Run ok' m hist' m' → ∀ (t : ThreadId) th, m.threads[t]? = some th → th.lost →
      ∃ th', m'.threads[t]? = some th' ∧ th'.lost) ∧
    m.shared.parked = m.threads.countP Thread.parked ∧
    m.shared.parked + m.threads.countP Thread.lost ≤ m.shared.live ∧
    (∀ t i, .worker i .unpark ∈ m.stackOf t → 0 < m.shared.parked) ∧
    (∀ t i, .worker i .leaving ∈ m.stackOf t → 0 < m.shared.live) ∧
    (m.shared.parkingOwner = none →
      (m.shared.stage = .stopped →
        m.shared.parked = 0 ∧ m.shared.spawned = 0 ∧ m.shared.live = m.threads.countP Thread.lost) ∧
      (m.shared.stage = .paused → (m.shared.Assembled ↔ m.AllParked ∧ ∀ th ∈ m.threads, ¬ th.lost))) ∧
    ∀ (t : ThreadId) th limit expired below ch, m.threads[t]? = some th →
      th.stack = .waitPaused limit expired .compare :: below →
      m.shared.stage = .paused ∧
      ((((Frame.waitPaused limit expired .compare).step m t ch).map Effect.own = some (.ret (.flag true))) ↔
        m.AllParked ∧ ∀ th ∈ m.threads, ¬ th.lost) := by
  obtain ⟨hm, h, hsize⟩ := counted_run r
  have hlive := h.muster
  have hparked := h.parked
  have hle := m.parks_le_enlisted
  rw [Muster, roster_lost] at hlive
  refine ⟨hsize, h.live hm, fun ok' hist' m' r' t th ht hl => lost_run hm r' ht hl, ?_, by omega, ?_, ?_, ?_, ?_⟩
  · rw [hparked, tally_parks hm.formed]
  · intro t i hf
    rw [hparked]
    exact tally_pos hf rfl
  · intro t i hf
    have hpos : 0 < m.tally Frame.enlisted := tally_pos hf rfl
    omega
  · refine fun hfree => ⟨h.settled hm hfree, fun hstage => ?_⟩
    obtain ⟨hg, hc, -⟩ := h.governed (by rw [hstage]; decide)
    refine assembled_iff hg hc h.muster (fun t f hf hl => ?_) hstage
    cases hfree.symm.trans (hm.owned.mine hf hl)
  · intro t th limit expired below ch ht hs
    have hstage : m.shared.stage = .paused := hm.sees_top ht hs
    obtain ⟨hg, hc, -⟩ := h.governed (by rw [hstage]; decide)
    refine ⟨hstage, (step_compare m t ch limit expired).trans (assembled_iff hg hc h.muster (fun i f hf hl => ?_) hstage)⟩
    -- the wait has the lock
    have htop := stackOf_top ht hs
    obtain ⟨hlow, helse⟩ := hm.owned.alone (l := .parking) htop (by simp [Frame.calm, Frame.locks])
    by_cases hi : i = t
    · rw [hi, htop] at hf
      rcases List.mem_cons.1 hf with rfl | hf
      · exact kind_calm _
      · exact absurd hl (hlow f hf)
    · exact absurd hl (helse i hi f hf)

/-- a panic ends the only worker, and the pool is stopped -/
def stoppedAfterPanic : List Move :=
  [Move.enter, .enter, .call 0 .start] ++ steps 0 10 ++ [Move.call 0 (.post ⟨"a", [.panic], false⟩)] ++ steps 0 3 ++
    steps 2 6 ++ [Move.call 0 .stop] ++ steps 0 23

/-- then it is started again and paused; its new worker parks, and somebody waits for the pause -/
def pausedAfterPanic : List Move :=
  stoppedAfterPanic ++ [Move.call 0 .start] ++ steps 0 10 ++ [Move.call 0 .pause] ++ steps 0 7 ++ steps 3 8 ++
    [Move.call 1 (.waitPaused 100)] ++ steps 1 2

/-- the stopped pool counts the dead worker as living; the wait for the pause of the next start fails, though its only
worker is parked -/
theorem counters_exact_after_panic :
    (∃ hist m, Run (fun _ => True) (fresh 1 "w" true) hist m ∧ m.shared.stage = .stopped ∧ m.shared.live = 1 ∧
      m.threads.countP Thread.lost = 1 ∧ m.shared.parked = 0 ∧ m.shared.spawned = 0) ∧
    ∃ hist m, Run (fun _ => True) (fresh 1 "w" true) hist m ∧ m.shared.stage = .paused ∧ m.AllParked ∧
      m.shared.live = m.threads.countP Thread.enlisted + 1 ∧
      ((Frame.waitPaused 100 false .compare).step m 1 {}).map Effect.own ≠ some (.ret (.flag true)) := by
  constructor
  · have hf : ((fresh 1 "w" true).follow (fun _ => true) [] stoppedAfterPanic).map
        (fun (p : List (Stage × Change) × Machine) => (p.2.shared.parkingOwner, p.2.shared.stage, p.2.shared.live)) =
        some (none, Stage.stopped, 1) := by cbv
    obtain ⟨⟨hist, m⟩, hf, hp⟩ := Option.map_eq_some_iff.1 hf
    simp only [Prod.mk.injEq] at hp
    obtain ⟨hfree, hstage, hlive⟩ := hp
    have r : Run (fun _ => True) (fresh 1 "w" true) hist m := (run_follow .rest hf).weaken fun _ _ => trivial
    obtain ⟨-, -, -, -, -, -, -, hsettled, -⟩ := counters_exact r
    obtain ⟨hparked, hspawned, hlost⟩ := (hsettled hfree).1 hstage
    exact ⟨hist, m, r, hstage, hlive, hlost.symm.trans hlive, hparked, hspawned⟩
  · have hf : ((fresh 1 "w" true).follow (fun _ => true) [] pausedAfterPanic).map
        (fun (p : List (Stage × Change) × Machine) => (p.2.shared.handles, p.2.threads.countP Thread.lost,
          (p.2.threads[1]?).map Thread.stack, (p.2.threads[3]?).map fun th : Thread => (th.worker, th.stack))) =
        some ([3], 1, some [Frame.waitPaused 100 false .compare],
          some (some 0, [Frame.worker 0 (.asleep false)])) := by cbv
    obtain ⟨⟨hist, m⟩, hf, hp⟩ := Option.map_eq_some_iff.1 hf
    simp only [Prod.mk.injEq] at hp
    obtain ⟨hhandles, hlost, hwaiter, hworker⟩ := hp
    have r : Run (fun _ => True) (fresh 1 "w" true) hist m := (run_follow .rest hf).weaken fun _ _ => trivial
    obtain ⟨th, ht, hs⟩ := Option.map_eq_some_iff.1 hwaiter
    obtain ⟨u, hu, hus⟩ := Option.map_eq_some_iff.1 hworker
    simp only [Prod.mk.injEq] at hus
    obtain ⟨hsize, hlive, -, -, -, -, -, -, hwait⟩ := counters_exact r
    obtain ⟨hstage, hiff⟩ := hwait 1 th 100 false [] {} ht hs
    refine ⟨hist, m, r, hstage, fun k hk => ?_, by rw [hlive, hlost], fun hret => ?_⟩
    · obtain rfl : k = 0 := by omega
      exact ⟨3, u, by rw [hhandles]; rfl, hu, hus.1, by rw [Thread.parked, hus.2]; rfl⟩
    · rw [List.countP_eq_zero.2 (hiff.1 hret).2] at hlost
      cases hlost

end Machine

end SecureEndpoint.Workers
