/-
What a thread waits for.

A thread that cannot make its next step wants a lock, joins a thread that has not ended, sleeps until it is told, stands
before a closed gate, or meets other jobs.
- `Frame.waits_for`, `stands`: there is nothing else to wait for.
- `Sound.climbs`: the locks are taken in one order, handles before parking before queue, by every operation and by whatever
  it calls.
- `Sound.goes_on`: so whoever holds a lock, or somebody it waits for in turn, can make its next step.
-/
import Mathlib.Logic.Relation
import SecureEndpoint.Proofs.Workers.Stages

namespace SecureEndpoint.Workers

/-! ## The next step -/

theorem lockThen_isSome {s : Shared} {l : Lock} (h : s.owner l = none) (t : ThreadId) (f : Frame) :
    (s.lockThen l t f).isSome := by
  simp [Shared.lockThen, Shared.acquire?, h]

/-- a dispatcher that is not the queue can only go on where the queue would have to wait -/
theorem drive_step {m : Machine} {t : ThreadId} {ch : Choice} {mode : DriveMode} {n : Nat} {p : DrivePlace}
    (h : (stepQueue m.shared t mode n p).isSome) : ((Frame.drive mode n p).step m t ch).isSome := by
  simp only [Frame.step, stepDrive]
  split
  · split
    · rfl
    · exact h
  · exact h

namespace Machine

theorem move_isSome {m : Machine} {t : ThreadId} {ch : Choice} {th : Thread} {f : Frame} {below : List Frame}
    (ht : m.threads[t]? = some th) (hs : th.stack = f :: below) (h : (f.step m t ch).isSome) :
    (m.move (.step t ch)).isSome := by
  obtain ⟨e, he⟩ := Option.isSome_iff_exists.1 h
  simp [move, ht, hs, he]

end Machine

/-! ## What an activation waits for -/

/-- the order in which locks are taken -/
def Lock.rank : Lock → Nat
  | .handles => 0
  | .parking => 1
  | .queue => 2

theorem queue_calls {g : Frame} {k : Kind} (h : g.Calls k) : .queue ∉ g.locks := by
  cases h <;> simp [Frame.locks]

namespace Frame

variable {f g : Frame} {k l : Lock}

/-- an activation takes no lock while it holds a later one -/
theorem Takes.climbs (h : f.Takes k g) (hl : l ∈ f.locks) : l.rank < k.rank := by
  cases h with
  | startParking =>
    rw [List.mem_singleton.1 hl]
    exact Nat.one_pos
  | _ => simp [locks] at hl

/-- a call on the dispatcher takes the lock of the queue -/
theorem Takes.queue (h : f.Takes l g) (hk : f.kind = .halt ∨ f.kind = .revive ∨ f.kind = .ask .stopped) : l = .queue := by
  cases h <;> first | rfl | (rcases hk with hk | hk | hk <;> cases hk)

theorem Takes.unique {g' : Frame} (h : f.Takes l g) (h' : f.Takes k g') : k = l := by
  cases h <;> cases h' <;> rfl

theorem Takes.step (h : f.Takes l g) (m : Machine) (t : ThreadId) (ch : Choice) (free : m.shared.owner l = none) :
    (f.step m t ch).isSome := by
  cases h with
  | look | lookAgain => exact drive_step (lockThen_isSome free t _)
  | _ => exact lockThen_isSome free t _

/-- sleeps until it is told, stands before a gate, or waits for other jobs -/
def rests : Frame → Bool
  | .worker _ (.asleep false) | .drive _ _ (.asleep false) | .waitPaused _ _ (.asleep false) => true
  | .meet _ .waiting | .hold _ => true
  | _ => false

theorem rests_worker {i : Nat} {p : WorkerPlace} (h : (Frame.worker i p).rests) : p = .asleep false := by
  unfold rests at h
  split at h <;> simp_all

theorem rests_drive {mode : DriveMode} {n : Nat} {p : DrivePlace} (h : (Frame.drive mode n p).rests) : p = .asleep false := by
  unfold rests at h
  split at h <;> simp_all

theorem rests_locks (h : f.rests) : f.locks = [] := by
  unfold rests at h
  split at h <;> first | rfl | cases h

/-- **There is nothing else to wait for.** An activation takes a lock in its next step, joins a thread, rests, tells one
sleeper that there is a job, or makes its next step whatever the system decides -/
theorem waits_for (f : Frame) (m : Machine) (t : ThreadId) :
    (∃ l g, f.Takes l g) ∨ (∃ k rest, f = .stop (.join (k :: rest))) ∨ f.rests ∨ (∃ j, f = .post j .tell) ∨
      ∀ ch, (f.step m t ch).isSome := by
  have now : (∀ ch, (f.step m t ch).isSome) → (∃ l g, f.Takes l g) ∨ (∃ k rest, f = .stop (.join (k :: rest))) ∨
      f.rests ∨ (∃ j, f = .post j .tell) ∨ ∀ ch, (f.step m t ch).isSome := fun h => .inr (.inr (.inr (.inr h)))
  cases f with
  | worker i p =>
    cases p with
    | enter => exact .inl ⟨_, _, .enter⟩
    | parkWant => exact .inl ⟨_, _, .park⟩
    | leaveWant => exact .inl ⟨_, _, .leave⟩
    | asleep woken =>
      cases woken with
      | true => exact .inl ⟨_, _, .unpark⟩
      | false => exact .inr (.inr (.inl rfl))
    | observe | parkCheck =>
      refine now fun ch => ?_
      simp only [step, stepWorker]
      split <;> rfl
    | _ => exact now fun ch => rfl
  | drive mode n p =>
    cases p with
    | want => exact .inl ⟨_, _, .look⟩
    | asleep woken =>
      cases woken with
      | true => exact .inl ⟨_, _, .lookAgain⟩
      | false => exact .inr (.inr (.inl rfl))
    | look =>
      refine now fun ch => drive_step ?_
      simp only [stepQueue]
      repeat' split
      all_goals rfl
    | inJob =>
      refine now fun ch => drive_step ?_
      simp only [stepQueue]
      split <;> rfl
  | job id due rest =>
    refine now fun ch => ?_
    simp only [step, stepJob]
    repeat' split
    all_goals rfl
  | post j p =>
    cases p with
    | want => exact .inl ⟨_, _, .post⟩
    | push => exact now fun ch => rfl
    | tell => exact .inr (.inr (.inr (.inl ⟨j, rfl⟩)))
  | ask q p =>
    cases p with
    | want => exact .inl ⟨_, _, .ask⟩
    | locked => exact now fun ch => rfl
  | halt p =>
    cases p with
    | want => exact .inl ⟨_, _, .halt⟩
    | _ => exact now fun ch => rfl
  | revive p =>
    cases p with
    | want => exact .inl ⟨_, _, .revive⟩
    | locked => exact now fun ch => rfl
  | start p =>
    cases p with
    | wantHandles => exact .inl ⟨_, _, .start⟩
    | wantParking => exact .inl ⟨_, _, .startParking⟩
    | spawn i =>
      refine now fun ch => ?_
      simp only [step, stepStart]
      repeat' split
      all_goals rfl
    | _ => exact now fun ch => rfl
  | pause p =>
    cases p with
    | want => exact .inl ⟨_, _, .pause⟩
    | _ => exact now fun ch => rfl
  | resume p =>
    cases p with
    | want => exact .inl ⟨_, _, .resume⟩
    | read =>
      refine now fun ch => ?_
      simp only [step, stepResume]
      split <;> rfl
    | _ => exact now fun ch => rfl
  | shutdown p =>
    cases p with
    | want => exact .inl ⟨_, _, .shutdown⟩
    | answered stopped => cases stopped <;> exact now fun ch => rfl
    | _ => exact now fun ch => rfl
  | stop p =>
    cases p with
    | want => exact .inl ⟨_, _, .stop⟩
    | own =>
      refine now fun ch => ?_
      simp only [step, stepStop]
      split <;> rfl
    | shutDone won =>
      cases won with
      | true => exact .inl ⟨_, _, .collect⟩
      | false => exact now fun ch => rfl
    | join rest =>
      cases rest with
      | nil => exact now fun ch => rfl
      | cons k rest => exact .inr (.inl ⟨k, rest, rfl⟩)
    | settleWant => exact .inl ⟨_, _, .settle⟩
    | _ => exact now fun ch => rfl
  | waitPaused l x p =>
    cases p with
    | want => exact .inl ⟨_, _, .waitPaused⟩
    | asleep woken =>
      cases woken with
      | true => exact .inl ⟨_, _, .waitAgain⟩
      | false => exact .inr (.inr (.inl rfl))
    | check | compare =>
      refine now fun ch => ?_
      simp only [step, stepWaitPaused]
      repeat' split
      all_goals rfl
  | drop p =>
    cases p with
    | want => exact .inl ⟨_, _, .drop⟩
    | shutDone won =>
      cases won with
      | true => exact .inl ⟨_, _, .detach⟩
      | false => exact now fun ch => rfl
    | read | own =>
      refine now fun ch => ?_
      simp only [step, stepDrop]
      split <;> rfl
    | _ => exact now fun ch => rfl
  | meet n p =>
    cases p with
    | waiting => exact .inr (.inr (.inl rfl))
    | arriving =>
      refine now fun ch => ?_
      simp only [step]
      split <;> rfl
    | released => exact now fun ch => rfl
  | hold gate => exact .inr (.inr (.inl rfl))

/-- whoever holds a lock makes its next step, but for a start that has yet to take a second one -/
theorem holder_steps (hl : l ∈ f.locks) (m : Machine) (t : ThreadId) :
    (∃ k g, f.Takes k g) ∨ ∀ ch, (f.step m t ch).isSome := by
  rcases f.waits_for m t with htakes | ⟨k, rest, rfl⟩ | hrests | ⟨j, rfl⟩ | hgo
  · exact .inl htakes
  · cases hl
  · rw [rests_locks hrests] at hl
    cases hl
  · cases hl
  · exact .inr hgo

end Frame

namespace Machine

section Sound

variable {m : Machine} {t : ThreadId} {th : Thread} {f g : Frame} {below : List Frame} {k l : Lock}

/-- **Locks are taken in order.** Whoever takes a lock in its next step holds earlier ones only -/
theorem Sound.climbs (hm : m.Sound) (ht : m.threads[t]? = some th) (hs : th.stack = f :: below) (h : f.Takes k g)
    (ho : m.shared.owner l = some t) : l.rank < k.rank := by
  obtain ⟨f', below', heq, hl⟩ := hm.owned.holder hm.formed ho
  rw [stackOf_top ht hs] at heq
  cases heq
  rcases hl with hl | ⟨b, rest, -, hl, hc⟩
  · exact h.climbs (by simpa using hl)
  · -- only the dispatcher is called under a lock, and never under its own
    have hk := holder_calls hc hl
    rw [kind_calm] at hk
    obtain rfl := h.queue hk
    cases l with
    | queue => exact absurd hl (queue_calls hc)
    | _ => decide

/-- nobody waits for a lock that it holds -/
theorem Sound.waits_for_others (hm : m.Sound) (ht : m.threads[t]? = some th) (hs : th.stack = f :: below)
    (h : f.Takes l g) : m.shared.owner l ≠ some t :=
  fun ho => Nat.lt_irrefl _ (hm.climbs ht hs h ho)

/-- a thread whose innermost activation neither holds a lock nor calls on the dispatcher holds no lock at all -/
theorem Sound.empty_handed (hm : m.Sound) (ht : m.threads[t]? = some th) (hs : th.stack = f :: below)
    (holds : f.locks = []) (hk : ¬ (f.kind = .halt ∨ f.kind = .revive ∨ f.kind = .ask .stopped)) (l : Lock) :
    m.shared.owner l ≠ some t := by
  intro ho
  obtain ⟨f', below', heq, hl⟩ := hm.owned.holder hm.formed ho
  rw [stackOf_top ht hs] at heq
  cases heq
  rcases hl with hl | ⟨b, rest, -, hl, hc⟩
  · rw [locks_calm, holds] at hl
    cases hl
  · exact hk (by simpa using holder_calls hc hl)

end Sound

/-! ## Who waits for whom -/

/-- the next step of thread `t` takes lock `l` -/
def Wants (m : Machine) (t : ThreadId) (l : Lock) : Prop :=
  ∃ th f below g, m.threads[t]? = some th ∧ th.stack = f :: below ∧ f.Takes l g

/-- thread `t` cannot go on until thread `u` gives back a lock, or ends -/
inductive WaitsFor (m : Machine) (t u : ThreadId) : Prop
  /-- its next step takes a lock that `u` holds -/
  | lock {l} (wants : m.Wants t l) (held : m.shared.owner l = some u)
  /-- it joins `u`, which has not ended -/
  | join {th below rest v} (thread : m.threads[t]? = some th) (top : th.stack = .stop (.join (u :: rest)) :: below)
      (joined : m.threads[u]? = some v) (active : v.life = .active)

section Wants

variable {m : Machine} {t : ThreadId} {k l : Lock}

theorem Wants.unique (h : m.Wants t l) (h' : m.Wants t k) : k = l := by
  obtain ⟨th, f, below, g, ht, hs, htakes⟩ := h
  obtain ⟨th', f', below', g', ht', hs', htakes'⟩ := h'
  cases ht.symm.trans ht'
  cases hs.symm.trans hs'
  exact htakes.unique htakes'

/-- whoever wants a lock holds earlier ones only -/
theorem Wants.climbs (hm : m.Sound) (h : m.Wants t k) (ho : m.shared.owner l = some t) : l.rank < k.rank := by
  obtain ⟨th, f, below, g, ht, hs, htakes⟩ := h
  exact hm.climbs ht hs htakes ho

/-- nobody who joins wants a lock -/
theorem Wants.joins_not {th : Thread} {rest : List ThreadId} {below : List Frame} (h : m.Wants t l)
    (ht : m.threads[t]? = some th) : th.stack ≠ .stop (.join rest) :: below := by
  intro hs
  obtain ⟨th', f, below', g, ht', hs', htakes⟩ := h
  cases ht.symm.trans ht'
  cases hs.symm.trans hs'
  cases htakes

/-- whoever wants a lock that is free makes its next step -/
theorem Wants.step (h : m.Wants t l) (free : m.shared.owner l = none) (ch : Choice) : (m.move (.step t ch)).isSome := by
  obtain ⟨th, f, below, g, ht, hs, htakes⟩ := h
  exact move_isSome ht hs (htakes.step m t ch free)

/-- whoever holds a lock wants another one, or makes its next step -/
theorem Sound.holder_steps (hm : m.Sound) (ho : m.shared.owner l = some t) :
    (∃ k, m.Wants t k) ∨ ∀ ch, (m.move (.step t ch)).isSome := by
  obtain ⟨f', below', hstack, hl⟩ := hm.owned.holder hm.formed ho
  cases ht : m.threads[t]? with
  | none => simp [stackOf, roster, ht] at hstack
  | some th =>
    cases hs : th.stack with
    | nil => simp [stackOf, roster, ht, Thread.calm, hs] at hstack
    | cons f below =>
      rw [stackOf_top ht hs] at hstack
      cases hstack
      have wants : (∃ k g, f.Takes k g) → ∃ k, m.Wants t k := by
        rintro ⟨k, g, h⟩
        exact ⟨k, th, f, below, g, ht, hs, h⟩
      have steps : (∀ ch, (f.step m t ch).isSome) → ∀ ch, (m.move (.step t ch)).isSome :=
        fun h ch => move_isSome ht hs (h ch)
      rcases hl with hl | ⟨b, rest, -, hl, hc⟩
      · exact (Frame.holder_steps (by simpa using hl) m t).imp wants steps
      · -- it has called on the dispatcher, which neither joins nor rests
        have hk := holder_calls hc hl
        rw [kind_calm] at hk
        rcases f.waits_for m t with htakes | ⟨k, rest, rfl⟩ | hrests | ⟨j, rfl⟩ | hgo
        · exact .inl (wants htakes)
        · rcases hk with hk | hk | hk <;> cases hk
        · cases f <;> first | (rcases hk with hk | hk | hk <;> cases hk; done) | cases hrests
        · rcases hk with hk | hk | hk <;> cases hk
        · exact .inr (steps hgo)

/-- **What a thread waits for** inside a call: another thread, or until it is told -/
theorem stands {th : Thread} {f : Frame} {below : List Frame} (ht : m.threads[t]? = some th) (hs : th.stack = f :: below) :
    (∃ ch, (m.move (.step t ch)).isSome) ∨ (∃ u, m.WaitsFor t u) ∨ f.rests := by
  rcases f.waits_for m t with ⟨l, g, htakes⟩ | ⟨k, rest, rfl⟩ | hrests | ⟨j, rfl⟩ | hgo
  · have hwants : m.Wants t l := ⟨th, f, below, g, ht, hs, htakes⟩
    cases ho : m.shared.owner l with
    | none => exact .inl ⟨{}, hwants.step ho {}⟩
    | some u => exact .inr (.inl ⟨u, .lock hwants ho⟩)
  · cases hu : m.threads[k]? with
    | none => exact .inl ⟨{}, move_isSome ht hs (by simp [Frame.step, stepStop, hu])⟩
    | some u =>
      cases hlife : u.life with
      | active => exact .inr (.inl ⟨k, .join ht hs hu hlife⟩)
      | finished | died => exact .inl ⟨{}, move_isSome ht hs (by simp [Frame.step, stepStop, hu, hlife])⟩
  · exact .inr (.inr hrests)
  · -- some sleeper is picked, if there is one
    cases hidle : m.whose Frame.isIdleRunner with
    | nil => exact .inl ⟨{}, move_isSome ht hs (by simp [Frame.step, stepPost, hidle])⟩
    | cons u others => exact .inl ⟨{ pick := u }, move_isSome ht hs (by simp [Frame.step, stepPost, hidle])⟩
  · exact .inl ⟨{}, move_isSome ht hs (hgo {})⟩

end Wants

/-- **Whoever holds a lock, or somebody it waits for in turn, can make its next step**, whatever the system decides -/
theorem Sound.goes_on {m : Machine} {l : Lock} {u : ThreadId} (hm : m.Sound) (ho : m.shared.owner l = some u) :
    ∃ v, Relation.ReflTransGen m.WaitsFor u v ∧ ∀ ch, (m.move (.step v ch)).isSome := by
  rcases hm.holder_steps ho with ⟨k, hwants⟩ | hgo
  · have hclimbs := hwants.climbs hm ho
    cases hk : m.shared.owner k with
    | none => exact ⟨u, .refl, hwants.step hk⟩
    | some v =>
      obtain ⟨w, hchain, hgo⟩ := hm.goes_on hk
      exact ⟨w, .head (.lock hwants hk) hchain, hgo⟩
  · exact ⟨u, .refl, hgo⟩
termination_by 2 - l.rank
decreasing_by
  have hlast : k.rank ≤ 2 := by cases k <;> decide
  omega

end Machine

end SecureEndpoint.Workers
