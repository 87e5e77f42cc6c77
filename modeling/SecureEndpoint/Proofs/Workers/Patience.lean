/-
Who waits for the pause.

A caller that waits for the pause to take effect sleeps until it is told to look again. A worker tells it that parks or
leaves, and so does whoever moves the pool to its last stage. A resume tells the parked workers only, and a worker that a
panic ends tells nobody and stays counted among the living. So whoever waits and was not told finds the pool paused with
somebody missing, or somebody who holds the parking lock is about to tell it, or it was forgotten in one of these two ways.
- `muster_move`: the living are the workers that have counted themselves in and not yet out, and those that died.
- `watch_move`: as long as somebody waits, the pool is paused, or was resumed last, or whoever closes it is about to
  tell; and the counters differ, or whoever parked is about to tell.
- `waiters_are_told`: what both mean for the threads; `waiters_forgotten`: the two ways do happen.
-/
import Mathlib
import SecureEndpoint.Proofs.Workers.Quiescence
import SecureEndpoint.Proofs.Workers.Sleepers

namespace SecureEndpoint.Workers

/-! ## Those who wait, and those who tell them -/

/-- waits for the pause to take effect, and nobody has told it to look again -/
def Frame.awaits : Frame → Bool
  | .waitPaused _ _ (.asleep false) => true
  | _ => false

theorem awaits_iff {f : Frame} : f.awaits ↔ ∃ l x, f = .waitPaused l x (.asleep false) := by
  unfold Frame.awaits
  split
  · exact ⟨fun _ => ⟨_, _, rfl⟩, fun _ => rfl⟩
  · rename_i h
    exact ⟨nofun, fun ⟨l, x, hf⟩ => absurd hf (h l x)⟩

theorem leaf_awaits : Leaf Frame.awaits where
  calls h := by cases h <;> rfl
  receive f v := by unfold Frame.receive; split <;> rfl
  born _ := rfl
  called c := by cases c <;> rfl

theorem lulled_awaits : Lulled Frame.awaits := by
  intro w f h
  obtain ⟨l, x, hf⟩ := awaits_iff.1 h
  unfold Frame.wake at hf
  split at hf <;> first | (rw [hf]; rfl) | cases hf | (split at hf <;> cases hf)

theorem awaits_wake (f : Frame) : (f.wake .pauseWaiters).awaits = false := by
  cases f with
  | waitPaused l x p => cases p <;> rfl
  | _ => rfl

theorem Frame.Stirs.awaits {f g : Frame} (h : f.Stirs g) : g.awaits = false := by
  rcases h with h | h
  · unfold Frame.wakeAnyway? at h
    split at h <;> cases h <;> rfl
  · unfold Frame.expire? at h
    split at h
    · cases h; rfl
    · rename_i p hp
      cases h
      cases p with
      | asleep woken => exact absurd rfl (hp _)
      | _ => rfl
    · cases h

/-- has moved the pool to its last stage, and has still to tell those who wait for the pause -/
def Frame.warns : Frame → Bool
  | .shutdown p => match p with
    | .ask | .answered _ | .tellResumed | .tellParked => true
    | _ => false
  | _ => false

theorem underLock_warns : UnderLock Frame.warns where
  calm f := by unfold Frame.calm; split <;> rfl
  born _ := rfl
  called c := by cases c <;> rfl
  receive f v := by unfold Frame.receive; split <;> rfl
  hosts h := by
    unfold Frame.hosts at h
    split at h <;> first | rfl | cases h
  locks h := by
    unfold Frame.warns at h
    split at h
    · split at h <;> first | exact .head _ | cases h
    · cases h

/-- has counted itself as parked, and has still to tell those who wait for the pause -/
def Frame.reports : Frame → Bool
  | .worker _ .parkTell => true
  | _ => false

theorem underLock_reports : UnderLock Frame.reports where
  calm f := by unfold Frame.calm; split <;> rfl
  born _ := rfl
  called c := by cases c <;> rfl
  receive f v := by unfold Frame.receive; split <;> rfl
  hosts h := by
    unfold Frame.hosts at h
    split at h <;> first | rfl | cases h
  locks h := by
    unfold Frame.reports at h
    split at h
    · exact .head _
    · cases h

/-- has made the pool run, and has still to remember the number of its workers -/
def Frame.marks : Frame → Bool
  | .start .mark => true
  | _ => false

theorem underLock_marks : UnderLock Frame.marks where
  calm f := by unfold Frame.calm; split <;> rfl
  born _ := rfl
  called c := by cases c <;> rfl
  receive f v := by unfold Frame.receive; split <;> rfl
  hosts h := by
    unfold Frame.hosts at h
    split at h <;> first | rfl | cases h
  locks h := by
    unfold Frame.marks at h
    split at h
    · exact .tail _ (.head _)
    · cases h

/-- all the living are parked, and as many live as there are workers to wait for -/
def Shared.Assembled (s : Shared) : Prop := s.parked = s.live ∧ s.live = s.spawned

namespace Transition

variable {m : Machine} {t : ThreadId} {f : Frame} {e : Effect}

/-- a wait begins to sleep in a paused pool in which somebody is missing -/
theorem awaiting (h : Transition m t f e) (hs : f.Sees m.shared) : e.own.frames.countP Frame.awaits = 0 ∨
    (∃ l x, f = .waitPaused l x .compare) ∧ e.shared.stage = .paused ∧ ¬ e.shared.Assembled := by
  cases h with
  | take h => cases h <;> exact .inl rfl
  | @whim mode n p w => cases w <;> exact .inl rfl
  | jobCall h =>
    cases h with
    | call c => cases c <;> exact .inl rfl
    | meet | hold => exact .inl rfl
  | waitSleep h => exact .inr ⟨⟨_, _, rfl⟩, hs, h⟩
  | _ => exact .inl rfl

/-- whoever closes a pool has still to tell those who wait for the pause -/
theorem leaving_open (h : Transition m t f e) (hp : m.shared.stage = .running ∨ m.shared.stage = .paused) :
    (e.shared.stage = .running ∨ e.shared.stage = .paused) ∨ 0 < e.own.frames.countP Frame.warns := by
  cases h with
  | take h => cases h <;> exact .inl hp
  | @whim mode n p w => cases w <;> exact .inl hp
  | started | resumed => exact .inl (.inl rfl)
  | paused => exact .inl (.inr rfl)
  | shut => exact .inr Nat.one_pos
  | settle h => exact absurd hp (by simp [h])
  | _ => exact .inl hp

/-- a warning is given, or is still to be given -/
theorem warning (h : Transition m t f e) (hf : f.warns) :
    0 < e.own.frames.countP Frame.warns ∨ e.wake = .pauseWaiters := by
  cases h with
  | take h => cases h <;> cases hf
  | tellParked => exact .inr rfl
  | shutAsk | shutHalted | shutHalt | tellResumed => exact .inl Nat.one_pos
  | _ => cases hf

/-- whoever has parked tells those who wait for the pause at once -/
theorem reporting (h : Transition m t f e) (hf : f.reports) : e.wake = .pauseWaiters := by
  cases h with
  | take h => cases h <;> cases hf
  | parkTell => rfl
  | _ => cases hf

/-- only a start that finds the pool stopped goes on to remember the number of its workers -/
theorem marking (h : Transition m t f e) : e.own.frames.countP Frame.marks = 0 ∨
    m.shared.stage = .stopped ∧ .parking ∈ f.locks ∧ f.warns = false := by
  cases h with
  | take h => cases h <;> exact .inl rfl
  | @whim mode n p w => cases w <;> exact .inl rfl
  | jobCall h =>
    cases h with
    | call c => cases c <;> exact .inl rfl
    | meet | hold => exact .inl rfl
  | started h => exact .inr ⟨h, .tail _ (.head _), rfl⟩
  | _ => exact .inl rfl

/-- somebody is still missing after a step, or has just parked and is about to tell; a start that counts its workers, the
last step of a stop and a worker that leaves are apart -/
theorem missing (h : Transition m t f e) (before : ¬ m.shared.Assembled) (living : m.shared.parked ≤ m.shared.live)
    (hpos : f.parks → 0 < m.shared.parked) : ¬ e.shared.Assembled ∨ 0 < e.own.frames.countP Frame.reports ∨
      f = .start .mark ∨ f = .stop .settled ∨ ∃ i, f = .worker i .leaving := by
  cases h with
  | take h => cases h <;> exact .inl before
  | @whim mode n p w => cases w <;> exact .inl before
  | entered =>
    left
    rintro ⟨hparked, -⟩
    change m.shared.parked = m.shared.live + 1 at hparked
    omega
  | parkCount => exact .inr (.inl Nat.one_pos)
  | unpark =>
    have hsome := hpos rfl
    left
    rintro ⟨hparked, -⟩
    change m.shared.parked - 1 = m.shared.live at hparked
    omega
  | leaving => exact .inr (.inr (.inr (.inr ⟨_, rfl⟩)))
  | mark => exact .inr (.inr (.inl rfl))
  | settled => exact .inr (.inr (.inr (.inl rfl)))
  | _ => exact .inl before

end Transition

/-! ## The living -/

/-- a worker that has counted itself in and not yet out -/
def Frame.enlisted : Frame → Bool
  | .worker _ p => match p with
    | .enter | .entered | .leaveTell => false
    | _ => true
  | _ => false

theorem countable_enlisted : Countable Frame.enlisted where
  calm f := by
    unfold Frame.calm
    split <;> rfl
  born _ := rfl
  called c := by cases c <;> rfl

theorem enlisted_receive (f : Frame) (v : Value) : (f.receive v).enlisted = f.enlisted := by
  unfold Frame.receive
  split <;> rfl

theorem enlisted_of_parks {f : Frame} (h : f.parks) : f.enlisted := by
  unfold Frame.parks at h
  split at h
  · split at h <;> first | rfl | cases h
  · cases h

/-- a step that is no panic changes the number of the living as it changes the number of such workers -/
theorem Transition.enlists {m : Machine} {t : ThreadId} {f : Frame} {e : Effect} (h : Transition m t f e)
    (hu : e.own ≠ .unwind) (hpos : f.enlisted → 0 < m.shared.live) :
    e.shared.live + [f].countP Frame.enlisted = m.shared.live + e.own.frames.countP Frame.enlisted := by
  cases h with
  | take h => cases h <;> rfl
  | @whim mode n p w =>
    cases w with
    | panic => exact absurd rfl hu
    | _ => rfl
  | jobCall h =>
    cases h with
    | call c => cases c <;> rfl
    | meet | hold => rfl
  | leaving => exact Nat.sub_add_cancel (hpos rfl)
  | badName | jobPanic => exact absurd rfl hu
  | _ => rfl

/-- a thread has no more than one such activation, and has none if it comes from outside -/
theorem Nested.enlisted_le {w : Option Nat} {stack : List Frame} (h : Nested w stack) :
    stack.countP Frame.enlisted ≤ if w.isSome then 1 else 0 := by
  induction h with
  | idle => exact Nat.zero_le _
  | worker => exact List.countP_le_length
  | @outside f hc => cases f <;> first | exact Nat.le_refl 0 | cases hc
  | @call w f g rest lower hc ih =>
    have hf : f.enlisted = false := by
      cases f with
      | worker i p =>
        cases hc with
        | action hcall => cases hcall
      | _ => rfl
    rwa [List.countP_cons, hf, if_neg Bool.false_ne_true, Nat.add_zero]

/-- below whatever can panic on a worker lies the worker itself -/
theorem Nested.observes {i : Nat} {f : Frame} {below : List Frame} (h : Nested (some i) (f :: below)) (hk : f.kind.isWork) :
    .worker i .observe ∈ below := by
  induction below generalizing f with
  | nil =>
    cases h with
    | worker => cases hk
  | cons g rest ih =>
    cases h with
    | call lower hc =>
      obtain ⟨-, hwork | ⟨j, rfl⟩⟩ := calls_hosts hc hk
      · exact .tail _ (ih lower hwork)
      · cases lower.isWorker.1
        exact .head _

/-- a panic ended the thread -/
def Thread.lost (th : Thread) : Bool := th.life == .died

namespace Machine

/-- the living are the workers that have counted themselves in and not yet out, and those that died -/
def Muster (m : Machine) : Prop := m.shared.live = m.tally Frame.enlisted + m.roster.countP Thread.lost

theorem muster_fresh (size : Nat) (stem : String) (dispatches : Bool) : (fresh size stem dispatches).Muster := rfl

section Step

variable {m m' : Machine} {t : ThreadId} {th : Thread} {f : Frame} {below : List Frame} {e : Effect}

/-- whoever makes a step has not ended -/
theorem StepOf.active (s : m.StepOf m' t th f below e) (hm : m.Formed) : th.life = .active := by
  by_contra hne
  have hempty := ((hm.thread s.thread).ended.1 hne).2
  cases s.top.symm.trans hempty

/-- a step loses its thread where it is the panic of a worker -/
theorem lost_step (hm : m.Formed) (s : m.StepOf m' t th f below e) : m'.roster.countP Thread.lost =
    m.roster.countP Thread.lost + [e.own.entry th below].countP Thread.lost := by
  have hset := countP_set (p := Thread.lost) s.entry (e.own.entry th below)
  have hactive := s.active hm
  have hbefore : [th.calm].countP Thread.lost = 0 := by
    rw [List.countP_singleton, if_neg (by simp [Thread.lost, Thread.calm, hactive])]
  have hspawn : (e.spawn.map newWorker).toList.countP Thread.lost = 0 := by
    cases e.spawn <;> rfl
  rw [s.roster, List.countP_append, hspawn]
  omega

theorem muster_step (hm : m.Sound) (h : m.Muster) (s : m.StepOf m' t th f below e) : m'.Muster := by
  rw [Muster] at h ⊢
  have hlost := lost_step hm.formed s
  have hactive := s.active hm.formed
  have hcount := tally_step countable_enlisted s
  have hlive : m'.shared.live = e.shared.live := by
    rw [s.shared]
    cases e.own <;> rfl
  rw [hlive]
  by_cases hu : e.own = .unwind
  · -- whoever panics was counted in if it is a worker
    have hn := s.nested hm.formed
    have hfit := s.go.fits
    rw [hu] at hcount hlost hfit
    rw [(s.go.unwind hu).1]
    have hgone : (Own.unwind.stack below).countP Frame.enlisted = 0 := rfl
    cases hw : th.worker with
    | none =>
      rw [hw] at hn
      have hnone : (f :: below).countP Frame.enlisted ≤ 0 := hn.enlisted_le
      have hkept : [Own.unwind.entry th below].countP Thread.lost = 0 := by
        simp [Own.entry, Own.life, Thread.lost, hw, hactive]
      omega
    | some i =>
      rw [hw] at hn
      have hone : (f :: below).countP Frame.enlisted ≤ 1 := hn.enlisted_le
      have hpos : 0 < (f :: below).countP Frame.enlisted :=
        List.countP_pos_iff.2 ⟨_, .tail _ (hn.observes hfit), rfl⟩
      have hdied : [Own.unwind.entry th below].countP Thread.lost = 1 := by
        simp [Own.entry, Own.life, Thread.lost, hw]
      omega
  · have hgo := s.go.enlists hu fun hf => by
      have := tally_pos s.mem ((countable_enlisted.calm f).trans hf)
      omega
    have hkept : [e.own.entry th below].countP Thread.lost = 0 := by
      rw [List.countP_singleton, if_neg]
      cases hown : e.own with
      | unwind => exact absurd hown hu
      | ret v => by_cases hend : below = [] ∧ th.worker.isSome <;> simp [Own.entry, Own.life, Thread.lost, hactive, hend]
      | _ => simp [Own.entry, Own.life, Thread.lost, hactive]
    rw [countP_own enlisted_receive below hu, List.countP_cons] at hcount
    rw [List.countP_singleton] at hgo
    omega

end Step

theorem muster_move {m m' : Machine} {w : Option (Stage × Change)} (hm : m.Sound) (h : m.Muster) (mv : m.Moved m' w) :
    m'.Muster := by
  cases mv with
  | step s => exact muster_step hm h s
  | still gates hsh hr =>
    rw [Muster, tally_still hr, hsh, hr]
    exact h
  | @call t th c ht hwk hs hsh hr =>
    have hset := countP_set (p := Thread.lost) ht { worker := none, life := th.life, stack := [c.frame] }
    have hsame : [({ worker := none, life := th.life, stack := [c.frame] } : Thread)].countP Thread.lost =
        [th].countP Thread.lost := rfl
    have hlost : m'.roster.countP Thread.lost = m.roster.countP Thread.lost := by
      rw [hr]
      omega
    rw [Muster, tally_call countable_enlisted ht hs hr, hsh, hlost]
    exact h
  | enter hsh hr =>
    have hlost : m'.roster.countP Thread.lost = m.roster.countP Thread.lost := by
      rw [hr, List.countP_append]
      rfl
    rw [Muster, tally_enter hr, hsh, hlost]
    exact h

/-- whoever is counted as parked has counted itself in -/
theorem parks_le_enlisted (m : Machine) : m.tally Frame.parks ≤ m.tally Frame.enlisted :=
  List.countP_mono_left fun _ _ hf => enlisted_of_parks hf

/-- whoever is counted as parked is counted among the living -/
theorem Census.parked_le {m : Machine} (h : m.Census) (hm : m.Muster) : m.shared.parked ≤ m.shared.live := by
  rw [h.parked, hm]
  have hle := m.parks_le_enlisted
  omega

/-- where no thread has more than one such activation, the activations are as many as the threads that have one -/
theorem tally_any {m : Machine} {p : Frame → Bool} (h : ∀ th ∈ m.roster, th.stack.countP p ≤ 1) :
    m.tally p = m.roster.countP fun th => th.stack.any p := by
  refine countP_flatMap_eq fun th hth => ?_
  have hle := h th hth
  by_cases hany : th.stack.any p
  · have hpos : 0 < th.stack.countP p := List.countP_pos_iff.2 (List.any_eq_true.1 hany)
    rw [if_pos hany]
    omega
  · rw [if_neg hany]
    exact List.countP_eq_zero.2 fun f hf he => hany (List.any_eq_true.2 ⟨f, hf, he⟩)

namespace Formed

variable {m : Machine}

theorem enlisted_le_one (hm : m.Formed) : ∀ th ∈ m.roster, th.stack.countP Frame.enlisted ≤ 1 := fun th hth =>
  (hm th hth).nested.enlisted_le.trans (by split <;> omega)

/-- a thread that has counted itself in is a worker that has not ended -/
theorem active_of_enlisted (hm : m.Formed) {t : ThreadId} {th : Thread} (ht : m.roster[t]? = some th)
    (hany : th.stack.any Frame.enlisted) : m.ActiveWorker t := by
  have hpos : 0 < th.stack.countP Frame.enlisted := List.countP_pos_iff.2 (List.any_eq_true.1 hany)
  refine ⟨th, ht, ?_, fun hempty => ?_⟩
  · by_contra hout
    have hle := (hm th (List.mem_of_getElem? ht)).nested.enlisted_le
    rw [if_neg hout] at hle
    omega
  · rw [hempty] at hpos
    cases hpos

end Formed

/-- no more workers have counted themselves in than the pool is large -/
theorem Governed.enlisted_le {m : Machine} (hm : m.Governed) : m.tally Frame.enlisted ≤ m.shared.size := by
  obtain ⟨roll, hlen, hroll⟩ := hm.roll
  rw [tally_any hm.sound.formed.enlisted_le_one]
  exact (countP_le_roll fun t th ht hany => hroll t (hm.sound.formed.active_of_enlisted ht hany)).trans hlen

/-! ## What is true while somebody waits -/

/-- why somebody waits for the pause who was not told; `h` are the changes of stage up to now -/
structure Watch (h : List (Stage × Change)) (m : Machine) : Prop where
  /-- the pool was not closed, or whoever closed it is about to tell -/
  stage : (m.shared.stage = .running ∨ m.shared.stage = .paused) ∨ 0 < m.tally Frame.warns
  /-- a pool that runs was resumed, not started, since the wait began -/
  last : m.shared.stage = .running → h.getLast? = some (.paused, .resume)
  marks : m.tally Frame.marks = 0
  /-- somebody is missing, or has just parked and is about to tell -/
  missing : ¬ m.shared.Assembled ∨ 0 < m.tally Frame.reports

section Step

variable {m m' : Machine} {t : ThreadId} {th : Thread} {f : Frame} {below : List Frame} {e : Effect}
variable {h : List (Stage × Change)} {w : Option (Stage × Change)}

namespace Watch

/-- whoever holds the parking lock and did not close the pool finds it open -/
theorem opened (hw : m.Watch h) (hm : m.Sound) (s : m.StepOf m' t th f below e) (hl : .parking ∈ f.locks)
    (hf : f.warns = false) : m.shared.stage = .running ∨ m.shared.stage = .paused :=
  hw.stage.resolve_right (by rw [underLock_warns.alone hm.owned s hl hf]; exact Nat.lt_irrefl 0)

theorem stage_step (hw : m.Watch h) (hm : m.Sound) (s : m.StepOf m' t th f below e) (untold : e.wake ≠ .pauseWaiters) :
    (m'.shared.stage = .running ∨ m'.shared.stage = .paused) ∨ 0 < m'.tally Frame.warns := by
  have htally := underLock_warns.own hm.formed s
  rw [s.stage]
  by_cases hf : f.warns
  · have hpos : 0 < m.tally Frame.warns := tally_pos s.mem ((underLock_warns.calm f).trans hf)
    have hstill := (s.go.warning hf).resolve_right untold
    rw [List.countP_singleton, if_pos hf] at htally
    exact .inr (by omega)
  · rw [List.countP_singleton, if_neg hf] at htally
    rcases hw.stage with hopen | hwarned
    · exact (s.go.leaving_open hopen).imp_right fun hnew => by omega
    · exact .inr (by omega)

theorem marks_step (hw : m.Watch h) (hm : m.Sound) (s : m.StepOf m' t th f below e) : m'.tally Frame.marks = 0 := by
  have htally := underLock_marks.own hm.formed s
  have hnone := hw.marks
  rcases s.go.marking with hzero | ⟨hstop, hl, hf⟩
  · omega
  · have hopen := hw.opened hm s hl hf
    rw [hstop] at hopen
    exact absurd hopen (by simp)

/-- the pool runs after a move because it ran before, or because it was resumed -/
theorem last_move (hw : m.Watch h) (mv : m.Moved m' w)
    (unstarted : m.shared.stage = .stopped → m'.shared.stage ≠ .running) (hrun : m'.shared.stage = .running) :
    (h ++ w.toList).getLast? = some (.paused, .resume) := by
  rcases move_stage mv with ⟨rfl, hsame⟩ | ⟨c, rfl, hlegal⟩
  · simpa using hw.last (hsame.symm.trans hrun)
  · rw [hrun] at hlegal
    cases c with
    | start => exact absurd hrun (unstarted (Stage.after_start.1 hlegal).1)
    | resume => simp [(Stage.after_resume.1 hlegal).1]
    | pause => exact absurd (Stage.after_pause.1 hlegal).2 (by decide)
    | shutdown => exact absurd (Stage.after_shutdown.1 hlegal).2 (by decide)
    | settle => exact absurd (Stage.after_settle.1 hlegal).2 (by decide)

/-- a worker that leaves an open pool leaves somebody missing: with it, more would be active than the pool is large -/
theorem leaving_missing {i : Nat} (hw : m.Watch h) (hm : m.Orderly) (hc : m.Census)
    (s : m.StepOf m' t th (.worker i .leaving) below e) : ¬ m'.shared.Assembled := by
  rintro ⟨hparked, hlive⟩
  have hopen := hw.opened hm.sound s (.head _) rfl
  have hall : m.shared.parked = m.shared.spawned := by
    have hpark : m'.shared.parked = m.shared.parked := s.writes.parked
    have hspawn : m'.shared.spawned = m.shared.spawned := s.writes.spawned
    omega
  have hsize : m.shared.spawned = m.shared.size := by
    rcases hc.spawned hopen with hall | ⟨j, hj⟩
    · exact hall
    · have hpos : 0 < m.tally Frame.marks := tally_pos hj rfl
      have hnone := hw.marks
      omega
  -- nobody else holds the parking lock
  have hsleep : m.tally Frame.parks = m.roster.countP Thread.sleeps := by
    obtain ⟨hlow, helse⟩ := hm.sound.owned.alone (l := .parking) s.before (.head _)
    refine parked_sleep hm.sound.formed fun j g hg hp hl => ?_
    by_cases hj : j = t
    · rw [hj, s.before] at hg
      rcases List.mem_cons.1 hg with rfl | hg
      · cases hp
      · exact hlow g hg hl
    · exact helse j hj g hg hl
  have hcount : m.roster.countP Thread.sleeps = m.shared.size := by
    rw [← hsleep, ← hc.parked, hall, hsize]
  have hclosing : m.shared.stage ≠ .closing := by rcases hopen with ho | ho <;> rw [ho] <;> decide
  obtain ⟨hworker, rfl⟩ := (s.nested hm.sound.formed).isWorker
  have hstack : th.calm.stack = [.worker i .leaving] := by simp [Thread.calm, s.top, Frame.calm]
  obtain ⟨u, hu, hsleeps⟩ := (hm.all_asleep hclosing hcount).2 t
    (.inr ⟨th.calm, s.entry, by rw [show th.calm.worker = some i from hworker]; rfl, by simp [hstack]⟩)
  cases s.entry.symm.trans hu
  obtain ⟨j, b, heq⟩ := Thread.sleeps_iff.1 hsleeps
  cases hstack.symm.trans heq

theorem missing_step (hw : m.Watch h) (hm : m.Orderly) (hc : m.Census) (hu : m.Muster)
    (s : m.StepOf m' t th f below e) (untold : e.wake ≠ .pauseWaiters) :
    ¬ m'.shared.Assembled ∨ 0 < m'.tally Frame.reports := by
  have htally := underLock_reports.own hm.sound.formed s
  by_cases hf : f.reports
  · exact absurd (s.go.reporting hf) untold
  rw [List.countP_singleton, if_neg hf] at htally
  rcases hw.missing with hmissing | hreported
  · have hparks : f.parks → 0 < m.shared.parked := fun hp => by
      rw [hc.parked]
      exact tally_pos s.mem ((countable_parks.calm f).trans hp)
    rcases s.go.missing hmissing (hc.parked_le hu) hparks with hstill | hnew | rfl | rfl | ⟨i, rfl⟩
    · refine .inl fun hall => hstill ?_
      rw [s.shared] at hall
      cases hown : e.own <;> rw [hown] at hall <;> exact hall
    · exact .inr (by omega)
    · have hpos : 0 < m.tally Frame.marks := tally_pos s.mem rfl
      have hnone := hw.marks
      omega
    · -- a stop that settles finds the pool stopped
      have hstop : m.shared.stage = .stopped := hc.settled t _ s.mem
      have hopen := hw.opened hm.sound s (.head _) rfl
      rw [hstop] at hopen
      exact absurd hopen (by simp)
    · exact .inl (hw.leaving_missing hm hc s)
  · exact .inr (by omega)

end Watch

theorem watch_step (hm : m.Orderly) (hc : m.Census) (hu : m.Muster) (hw : 0 < m.tops Frame.awaits → m.Watch h)
    (s : m.StepOf m' t th f below e) (threads : m'.threads = m.afterStep t th below e) (mv : m.Moved m' w)
    (sleeper : 0 < m'.tops Frame.awaits) : m'.Watch (h ++ w.toList) := by
  rcases s.go.awaiting s.sees with hnone | ⟨⟨l, x, rfl⟩, hpaused, hmissing⟩
  · -- nobody new waits, so somebody waited before, and a step that tells leaves nobody
    have hcount := tops_wake_le leaf_awaits lulled_awaits hm.sound.formed s threads
    have hwatch := hw (by omega)
    have untold : e.wake ≠ .pauseWaiters := by
      intro hwake
      rw [tops_wake_all leaf_awaits (by rw [hwake]; exact awaits_wake) (by rw [hwake]; nofun)
        (by rw [hwake]; nofun) threads] at sleeper
      cases sleeper
    have hmarks := hwatch.marks_step hm.sound s
    refine ⟨hwatch.stage_step hm.sound s untold, hwatch.last_move mv fun hstop hrun => ?_, hmarks,
      hwatch.missing_step hm hc hu s untold⟩
    -- a start would have still to remember the number of its workers
    have hown := s.go.beginning (by rw [hstop]; simp) (.inl (s.stage.symm.trans hrun))
    have hpos : 0 < m'.tally Frame.marks := by
      refine tally_pos (t := t) (f := .start .mark) ?_ rfl
      rw [s.after, hown]
      exact .head _
    omega
  · have hstage : m'.shared.stage = .paused := s.stage.trans hpaused
    have hmarks := underLock_marks.own hm.sound.formed s
    rw [underLock_marks.alone hm.sound.owned s (.head _) rfl] at hmarks
    refine ⟨.inl (.inr hstage), fun hrun => absurd (hstage.symm.trans hrun) (by decide), ?_, .inl fun hall => hmissing ?_⟩
    · rcases s.go.marking with hzero | ⟨hstop, -, -⟩
      · omega
      · exact absurd (s.sees.symm.trans hstop) (by decide)
    · rw [s.shared] at hall
      cases hown : e.own <;> rw [hown] at hall <;> exact hall

end Step

/-- **One move at a time.** Whatever happens, somebody who waits for the pause and was not told has a reason -/
theorem watch_move {m m' : Machine} {h : List (Stage × Change)} {w : Option (Stage × Change)} (hm : m.Orderly)
    (hc : m.Census) (hu : m.Muster) (hw : 0 < m.tops Frame.awaits → m.Watch h) (mv : m.Moved m' w) (st : m.Stirred m')
    (sleeper : 0 < m'.tops Frame.awaits) : m'.Watch (h ++ w.toList) := by
  cases st with
  | step s threads => exact watch_step hm hc hu hw s threads mv sleeper
  | @stir t th f g below thread top stirs hsh hr threads =>
    have hcount := tops_stir (p := Frame.awaits) thread top threads
    rw [List.countP_singleton (a := g), if_neg (by simp [stirs.awaits])] at hcount
    have hwatch := hw (by omega)
    refine ⟨?_, hwatch.last_move mv fun hstop hrun => ?_, ?_, ?_⟩
    · rw [hsh, tally_still hr]
      exact hwatch.stage
    · rw [hsh, hstop] at hrun
      cases hrun
    · rw [tally_still hr]
      exact hwatch.marks
    · rw [hsh, tally_still hr]
      exact hwatch.missing
  | calm gates hsh tops tally =>
    rw [tops leaf_awaits] at sleeper
    have hwatch := hw sleeper
    refine ⟨?_, hwatch.last_move mv fun hstop hrun => ?_, ?_, ?_⟩
    · rw [hsh, tally underLock_warns.toCountable]
      exact hwatch.stage
    · rw [hsh] at hrun
      exact absurd (hstop.symm.trans hrun) (by decide)
    · rw [tally underLock_marks.toCountable]
      exact hwatch.marks
    · rw [hsh, tally underLock_reports.toCountable]
      exact hwatch.missing

/-! ## The result -/

theorem watch_run {m : Machine} {hist : List (Stage × Change)} {size : Nat} {stem : String} {dispatches : Bool}
    (r : Run (·.kept) (fresh size stem dispatches) hist m) :
    m.Orderly ∧ m.Census ∧ m.Muster ∧ (0 < m.tops Frame.awaits → m.Watch hist) := by
  refine (r.keeps_moves (I := fun hist m => m.Orderly ∧ m.Census ∧ m.Muster ∧ (0 < m.tops Frame.awaits → m.Watch hist))
    (sound_fresh size stem dispatches) ?_ ?_).2
  · exact ⟨orderly_fresh size stem dispatches, census_fresh size stem dispatches, muster_fresh size stem dispatches, nofun⟩
  · rintro h a b w - ⟨hm, hc, hu, hw⟩ mv st hk
    exact ⟨orderly_move hm mv hk, census_move hm.toGoverned hc mv, muster_move hm.sound hu mv, watch_move hm hc hu hw mv st⟩

theorem sleeps_calm (th : Thread) : th.calm.sleeps = th.sleeps := by
  refine Bool.eq_iff_iff.2 ⟨Thread.sleeps_calm, fun h => ?_⟩
  obtain ⟨i, b, hs⟩ := Thread.sleeps_iff.1 h
  exact Thread.sleeps_iff.2 ⟨i, false, by simp [Thread.calm, hs, Frame.calm]⟩

/-- the counters of a paused pool whose parking lock is free differ because a worker does not sleep, or because one died -/
theorem Orderly.not_assembled {m : Machine} (hm : m.Orderly) (hc : m.Census) (hu : m.Muster)
    (hfree : m.shared.parkingOwner = none) (hstage : m.shared.stage = .paused) (h : ¬ m.shared.Assembled) :
    m.threads.countP Thread.sleeps < m.shared.size ∨ ∃ u ∈ m.threads, u.lost := by
  by_contra hno
  obtain ⟨hall, halive⟩ := not_or.1 hno
  have hsleep : m.shared.parked = m.threads.countP Thread.sleeps := by
    have hnobody : ∀ t, ∀ f ∈ m.stackOf t, f.parks → .parking ∉ f.locks := fun t f hf _ hl => by
      cases hfree.symm.trans (hm.sound.owned.mine hf hl)
    rw [hc.parked, parked_sleep hm.sound.formed hnobody, roster, List.countP_map]
    exact List.countP_congr fun th _ => by simp [sleeps_calm]
  have hspawned : m.shared.spawned = m.shared.size := by
    rcases hc.spawned (.inr hstage) with hsize | ⟨t, ht⟩
    · exact hsize
    · have hpos : 0 < m.tally Frame.marks := tally_pos ht rfl
      rw [underLock_marks.free hm.sound.owned hfree] at hpos
      cases hpos
  have hlost : m.roster.countP Thread.lost = 0 := by
    rw [List.countP_eq_zero]
    intro u hmem hlost
    obtain ⟨th, hth, rfl⟩ := List.mem_map.1 hmem
    exact halive ⟨th, hth, hlost⟩
  -- so the living, the parked and the workers to wait for are as many as the pool is large
  have hle := hm.enlisted_le
  have hparked := hc.parked_le hu
  rw [Muster, hlost] at hu
  exact h ⟨by omega, by omega⟩

/-- **Who waits has a reason, or was forgotten.** As long as nobody gives up the pool itself: whenever the parking lock is
free and a thread sleeps in a wait for the pause and was not told to look again, either the pool is paused, and fewer
workers sleep than the pool is large or some worker was ended by a panic; or the pool runs, and the last change of its
stage was a resume. In particular nobody waits on when the pool was closed, and nobody waits for a pause that is complete
unless a worker died. -/
theorem waiters_are_told {m : Machine} {hist : List (Stage × Change)} {size : Nat} {stem : String} {dispatches : Bool}
    (r : Run (·.kept) (fresh size stem dispatches) hist m) (hfree : m.shared.parkingOwner = none) {t : ThreadId}
    {th : Thread} (ht : m.threads[t]? = some th) (hwaits : th.topIs Frame.awaits) :
    m.shared.stage = .paused ∧ (m.threads.countP Thread.sleeps < size ∨ ∃ u ∈ m.threads, u.lost) ∨
      m.shared.stage = .running ∧ hist.getLast? = some (.paused, .resume) := by
  obtain ⟨hm, hc, hu, hw⟩ := watch_run r
  have hwatch := hw (tops_pos.2 ⟨th, List.mem_of_getElem? ht, hwaits⟩)
  have hsize : m.shared.size = size := (orderly_run r).2.1
  have hmissing : ¬ m.shared.Assembled :=
    hwatch.missing.resolve_right (by rw [underLock_reports.free hm.sound.owned hfree]; exact Nat.lt_irrefl 0)
  have hopen := hwatch.stage.resolve_right (by rw [underLock_warns.free hm.sound.owned hfree]; exact Nat.lt_irrefl 0)
  rcases hopen with hrun | hpaused
  · exact .inr ⟨hrun, hwatch.last hrun⟩
  · exact .inl ⟨hpaused, hsize ▸ hm.not_assembled hc hu hfree hpaused hmissing⟩

/-- of two workers one is inside a job and the other has parked; somebody waits for the pause -/
def waitedWhileBusy : List Move :=
  [Move.enter, .enter, .call 0 .start] ++ steps 0 11 ++ [Move.call 0 (.post ⟨"a", [.other (.hold "g")], false⟩)] ++
    steps 0 3 ++ steps 2 6 ++ [Move.call 0 .pause] ++ steps 0 7 ++ steps 3 8 ++ [Move.call 1 (.waitPaused 100)] ++ steps 1 3

theorem waiters_are_told_while_busy : ∃ hist m, Run (·.kept) (fresh 2 "w" true) hist m ∧
    hist = [(.stopped, .start), (.running, .pause)] ∧ m.shared.parkingOwner = none ∧
    (m.threads[1]?).map Thread.stack = some [Frame.waitPaused 100 false (.asleep false)] ∧
    (m.threads.countP Thread.sleeps < 2 ∨ ∃ u ∈ m.threads, u.lost) := by
  have hf : ((fresh 2 "w" true).follow kept [] waitedWhileBusy).map
      (fun (p : List (Stage × Change) × Machine) => (p.1, p.2.shared.parkingOwner, (p.2.threads[1]?).map Thread.stack)) =
      some ([(Stage.stopped, Change.start), (.running, .pause)], none,
        some [Frame.waitPaused 100 false (.asleep false)]) := by cbv
  obtain ⟨⟨hist, m⟩, hf, hp⟩ := Option.map_eq_some_iff.1 hf
  have r := run_follow .rest hf
  simp only [Prod.mk.injEq] at hp
  obtain ⟨hhist, hfree, hstack⟩ := hp
  obtain ⟨th, ht, hs⟩ := Option.map_eq_some_iff.1 hstack
  refine ⟨hist, m, r, hhist, hfree, hstack, ?_⟩
  rcases waiters_are_told r hfree ht (by rw [topIs_top hs]; rfl) with ⟨-, hmissing⟩ | ⟨-, hlast⟩
  · exact hmissing
  · rw [hhist] at hlast
    cases hlast

/-- the worker is inside a job when the pool is paused; somebody waits for the pause, and the pool is resumed -/
def resumedOverhead : List Move :=
  [Move.enter, .enter, .call 0 .start] ++ steps 0 10 ++ [Move.call 0 (.post ⟨"a", [.other (.hold "g")], false⟩)] ++
    steps 0 3 ++ steps 2 6 ++ [Move.call 0 .pause] ++ steps 0 7 ++ [Move.call 1 (.waitPaused 100)] ++ steps 1 3 ++
    [Move.call 0 .resume] ++ steps 0 8

/-- a panic ends the only worker; the pool is stopped, started again and paused, its new worker parks, and somebody waits
for the pause -/
def waitedAfterPanic : List Move :=
  [Move.enter, .enter, .call 0 .start] ++ steps 0 10 ++ [Move.call 0 (.post ⟨"a", [.panic], false⟩)] ++ steps 0 3 ++
    steps 2 6 ++ [Move.call 0 .stop] ++ steps 0 23 ++ [Move.call 0 .start] ++ steps 0 10 ++ [Move.call 0 .pause] ++
    steps 0 7 ++ steps 3 8 ++ [Move.call 1 (.waitPaused 100)] ++ steps 1 3

/-- a waiter whom nobody has told sleeps on in a pool that was resumed, and in a paused pool all of whose workers sleep; in
both nobody is inside a call but the waiter -/
theorem waiters_forgotten :
    (∃ hist m, Run (·.kept) (fresh 1 "w" true) hist m ∧ m.shared.parkingOwner = none ∧ m.shared.stage = .running ∧
      (m.threads[0]?).map Thread.stack = some [] ∧
      (m.threads[1]?).map Thread.stack = some [Frame.waitPaused 100 false (.asleep false)]) ∧
    ∃ hist m, Run (·.kept) (fresh 1 "w" true) hist m ∧ m.shared.parkingOwner = none ∧ m.shared.stage = .paused ∧
      (m.threads[0]?).map Thread.stack = some [] ∧
      (m.threads[1]?).map Thread.stack = some [Frame.waitPaused 100 false (.asleep false)] ∧
      m.shared.handles = [3] ∧ (m.threads[3]?).map Thread.stack = some [Frame.worker 0 (.asleep false)] := by
  constructor
  · have hf : ((fresh 1 "w" true).follow kept [] resumedOverhead).map
        (fun (p : List (Stage × Change) × Machine) => (p.2.shared.parkingOwner, p.2.shared.stage,
          (p.2.threads[0]?).map Thread.stack, (p.2.threads[1]?).map Thread.stack)) =
        some (none, Stage.running, some [], some [Frame.waitPaused 100 false (.asleep false)]) := by cbv
    obtain ⟨⟨hist, m⟩, hf, hp⟩ := Option.map_eq_some_iff.1 hf
    simp only [Prod.mk.injEq] at hp
    exact ⟨hist, m, run_follow .rest hf, hp⟩
  · have hf : ((fresh 1 "w" true).follow kept [] waitedAfterPanic).map
        (fun (p : List (Stage × Change) × Machine) => (p.2.shared.parkingOwner, p.2.shared.stage,
          (p.2.threads[0]?).map Thread.stack, (p.2.threads[1]?).map Thread.stack, p.2.shared.handles,
          (p.2.threads[3]?).map Thread.stack)) =
        some (none, Stage.paused, some [], some [Frame.waitPaused 100 false (.asleep false)], [3],
          some [Frame.worker 0 (.asleep false)]) := by cbv
    obtain ⟨⟨hist, m⟩, hf, hp⟩ := Option.map_eq_some_iff.1 hf
    simp only [Prod.mk.injEq] at hp
    exact ⟨hist, m, run_follow .rest hf, hp⟩

end Machine

end SecureEndpoint.Workers
