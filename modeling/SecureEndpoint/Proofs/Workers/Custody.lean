/-
No worker escapes a stop.

`Custody` says where a worker is accounted for: its handle is among the handles, or in the list that the closer has still
to join. As long as nobody gives up the pool itself,
- `custody_move`: this stays so, and in a stopped pool there is neither a handle nor anybody who creates workers;
- `no_worker_escapes`: in a stopped pool no worker is active, there are never more active workers than the size of the
  pool, no worker ever sees the stopped stage, and the closer always settles.
-/
import Mathlib
import SecureEndpoint.Proofs.Workers.Enrolment

namespace SecureEndpoint.Workers

/-! ## Where every worker is accounted for -/

namespace Machine

/-- a worker that has not ended -/
def ActiveWorker (m : Machine) (t : ThreadId) : Prop := ∃ th, m.roster[t]? = some th ∧ th.worker.isSome ∧ th.stack ≠ []

/-- the handles and the workers belong together -/
structure Custody (m : Machine) : Prop where
  enrols : m.Everywhere Frame.Enrols
  /-- in a stopped pool, and after the closer has collected, there is no handle and nobody creates workers -/
  empty : (m.shared.stage = .stopped ∨ ∃ i, ∃ f ∈ m.stackOf i, f.collected) →
    m.shared.handles = [] ∧ ∀ i k, .start (.spawn k) ∉ m.stackOf i
  /-- the handles are those of the workers, by index -/
  named : ∀ k t : Nat, m.shared.handles[k]? = some t → ∃ th, m.roster[t]? = some th ∧ th.worker = some k
  room : m.shared.handles.length ≤ m.shared.size
  joining : ∀ i rest, .stop (.join rest) ∈ m.stackOf i → rest.length ≤ m.shared.size
  /-- a worker that has not ended has its handle among the others, or the closer has still to join it -/
  enrolled : ∀ t, m.ActiveWorker t → t ∈ m.shared.handles ∨ ∃ i rest, .stop (.join rest) ∈ m.stackOf i ∧ t ∈ rest

theorem custody_fresh (size : Nat) (stem : String) (dispatches : Bool) : (fresh size stem dispatches).Custody := by
  refine ⟨everywhere_fresh _ size stem dispatches, ?_, ?_, ?_, ?_, ?_⟩ <;>
    simp [fresh, stackOf, roster, ActiveWorker]

section Step

variable {m m' : Machine} {t : ThreadId} {th : Thread} {f : Frame} {below : List Frame} {e : Effect}

/-- whoever made the pool stopped was the closer -/
theorem stopped_step (hs : f.Sees m.shared) (h : f.stageAfter m.shared = .stopped) :
    m.shared.stage = .stopped ∨ f.collected := by
  rw [Frame.stageAfter] at h
  cases ha : f.attempt? with
  | none =>
    rw [ha] at h
    exact .inl h
  | some a =>
    obtain ⟨c, seen, next⟩ := a
    obtain ⟨hlegal, hseen⟩ := sees_attempt hs ha
    rw [ha] at h
    simp only [if_pos hseen] at h
    subst h
    refine .inr ?_
    unfold Frame.attempt? at ha
    split at ha <;> cases ha
    · exact absurd (Stage.after_start.1 hlegal).2 (by decide)
    · exact absurd (Stage.after_pause.1 hlegal).2 (by decide)
    · exact absurd (Stage.after_resume.1 hlegal).2 (by decide)
    · exact absurd (Stage.after_shutdown.1 hlegal).2 (by decide)
    · rfl

/-- the closer's own step -/
theorem StepOf.collected (s : m.StepOf m' t th f below e) (h : f.collected) : ∃ i, ∃ f ∈ m.stackOf i, f.collected := by
  refine ⟨t, f.calm, s.mem, ?_⟩
  rwa [calm_steady (collected_steady h).1]

theorem empty_step (hm : m.Sound) (hc : m.OneCloser) (h : m.Custody) (s : m.StepOf m' t th f below e)
    (hp : m'.shared.stage = .stopped ∨ ∃ i, ∃ f ∈ m'.stackOf i, f.collected) :
    m'.shared.handles = [] ∧ ∀ i k, .start (.spawn k) ∉ m'.stackOf i := by
  by_cases hcol : f = .stop .collect
  · -- the collector has the handles lock, so nobody else creates workers
    subst hcol
    refine ⟨s.writes.handles, fun i k hk => ?_⟩
    obtain ⟨hlow, helse⟩ := hm.owned.alone (l := .handles) s.before (by simp [Frame.calm, Frame.locks])
    rcases mem_step s rfl hk with ⟨-, hg⟩ | ⟨hg, hin⟩
    · rcases (s.go.leading _ hg).spawning k rfl with h | ⟨j, h⟩ <;> cases h
    · by_cases hi : i = t
      · exact hlow _ (hin hi) (by simp [Frame.locks])
      · exact helse i hi _ hg (by simp [Frame.locks])
  · have hbefore : m.shared.stage = .stopped ∨ ∃ i, ∃ f ∈ m.stackOf i, f.collected := by
      rcases hp with hp | ⟨i, g, hg, hgc⟩
      · rw [s.writes.stage] at hp
        exact (stopped_step s.sees hp).imp_right s.collected
      · rcases mem_step s (collected_steady hgc).1 hg with ⟨-, hg⟩ | ⟨hg, -⟩
        · exact .inr (s.collected (((s.go.leading g hg).collected hgc).resolve_left hcol))
        · exact .inr ⟨i, g, hg, hgc⟩
    obtain ⟨hnil, hnone⟩ := h.empty hbefore
    have hspawn : ∀ k, f ≠ .start (.spawn k) := by
      rintro k rfl
      exact hnone t k s.mem
    refine ⟨?_, fun i k hk => ?_⟩
    · rw [s.writes.handles]
      unfold Frame.handlesAfter
      split
      · exact absurd rfl (hspawn _)
      · rfl
      · rfl
      · exact hnil
    · rcases mem_step s rfl hk with ⟨-, hg⟩ | ⟨hg, -⟩
      · rcases (s.go.leading _ hg).spawning k rfl with rfl | ⟨j, rfl⟩
        · -- a start that goes on to create workers has just made the pool running
          have hrun : m.shared.stage = .running := s.sees.1
          rcases hbefore with hstop | ⟨j, g, hg, hgc⟩
          · exact absurd (hrun.symm.trans hstop) (by decide)
          · exact absurd (hrun.symm.trans (hc.closing hg (collected_steady hgc).2)) (by decide)
        · exact hspawn j rfl
      · exact hnone i k hg

/-- the worker that a thread is does not change -/
theorem worker_step (s : m.StepOf m' t th f below e) {i : ThreadId} {u : Thread} (hu : m.roster[i]? = some u) :
    ∃ u', m'.roster[i]? = some u' ∧ u'.worker = u.worker := by
  have hl : i < m.roster.length := (List.getElem?_eq_some_iff.1 hu).1
  rw [s.roster, List.getElem?_append_left (by simpa using hl), List.getElem?_set]
  by_cases hi : t = i
  · subst hi
    rw [s.entry] at hu
    cases hu
    exact ⟨e.own.entry th below, by simp [hl], rfl⟩
  · exact ⟨u, by simp [hi, hu], rfl⟩

/-- the worker that a thread is never changes -/
theorem move_worker {w : Option (Stage × Change)} (mv : m.Moved m' w) {i : ThreadId} {u : Thread} (hu : m.roster[i]? = some u) :
    ∃ u', m'.roster[i]? = some u' ∧ u'.worker = u.worker := by
  have hl : i < m.roster.length := (List.getElem?_eq_some_iff.1 hu).1
  cases mv with
  | step s => exact worker_step s hu
  | still gates hsh hr => exact ⟨u, hr ▸ hu, rfl⟩
  | @call t th c ht hw hs hsh hr =>
    rw [hr, List.getElem?_set]
    by_cases hi : t = i
    · subst hi
      rw [ht] at hu
      cases hu
      exact ⟨_, by rw [if_pos rfl, if_pos hl], hw.symm⟩
    · exact ⟨u, by rw [if_neg hi, hu], rfl⟩
  | enter hsh hr => exact ⟨u, by rw [hr, List.getElem?_append_left hl, hu], rfl⟩

/-- an active worker is a new one, or was active before -/
theorem active_step (s : m.StepOf m' t th f below e) {i : ThreadId} (h : m'.ActiveWorker i) :
    (∃ k, e.spawn = some k ∧ i = m.roster.length) ∨ m.ActiveWorker i := by
  obtain ⟨u, hu, hworker, hne⟩ := h
  rw [s.roster] at hu
  rcases Nat.lt_or_ge i m.roster.length with hlt | hge
  · refine .inr ?_
    rw [List.getElem?_append_left (by simpa using hlt), List.getElem?_set] at hu
    split at hu
    · rename_i hti
      subst hti
      have hu : e.own.entry th below = u := by simpa [hlt] using hu
      subst hu
      exact ⟨th.calm, s.entry, hworker, by simp [Thread.calm, s.top]⟩
    · exact ⟨u, hu, hworker, hne⟩
  · refine .inl ?_
    rw [List.getElem?_append_right (by simpa using hge)] at hu
    cases hsp : e.spawn with
    | none => simp [hsp] at hu
    | some k =>
      refine ⟨k, rfl, ?_⟩
      simp only [hsp, Option.map_some, Option.toList_some, List.length_set] at hu
      have hle : i - m.roster.length < 1 := (List.getElem?_eq_some_iff.1 hu).1
      exact Nat.le_antisymm (Nat.sub_eq_zero_iff_le.1 (Nat.lt_one_iff.1 hle)) hge

theorem named_step (h : m.Custody) (s : m.StepOf m' t th f below e) :
    (∀ k i : Nat, m'.shared.handles[k]? = some i → ∃ th, m'.roster[i]? = some th ∧ th.worker = some k) ∧
      m'.shared.handles.length ≤ m'.shared.size := by
  have hold : ∀ k i : Nat, m.shared.handles[k]? = some i → ∃ th, m'.roster[i]? = some th ∧ th.worker = some k := by
    intro k i hk
    obtain ⟨u, hu, hname⟩ := h.named k i hk
    obtain ⟨u', hu', hsame⟩ := worker_step s hu
    exact ⟨u', hu', hsame.trans hname⟩
  rw [s.writes.handles, s.writes.size]
  unfold Frame.handlesAfter
  split
  · rename_i j
    cases hsp : e.spawn with
    | none => simpa using ⟨hold, h.room⟩
    | some k =>
      obtain ⟨hf, hk⟩ := s.go.spawned hsp
      cases hf
      obtain ⟨hlen, -⟩ : m.shared.handles.length = j ∧ j ≤ m.shared.size :=
        guarded_enrols.calm.1 (h.enrols t _ s.mem)
      refine ⟨fun k i hi => ?_, by simpa [hlen] using Nat.succ_le_of_lt hk⟩
      rcases Nat.lt_or_ge k j with hlt | hge
      · exact hold k i (by rwa [List.getElem?_append_left (by omega)] at hi)
      · -- the new handle is the new thread, which comes last
        rw [Option.isSome_some, if_pos rfl, List.getElem?_append_right (by omega), List.getElem?_singleton] at hi
        split at hi
        · cases hi
          refine ⟨newWorker j, ?_, ?_⟩
          · rw [s.roster, hsp, ← roster_length, List.getElem?_append_right (by simp)]
            simp
          · have : k = j := by omega
            rw [this]
            rfl
        · cases hi
  · exact ⟨nofun, Nat.zero_le _⟩
  · exact ⟨nofun, Nat.zero_le _⟩
  · exact ⟨hold, h.room⟩

theorem joining_step (h : m.Custody) (s : m.StepOf m' t th f below e) {i : ThreadId} {rest : List ThreadId}
    (hj : .stop (.join rest) ∈ m'.stackOf i) : rest.length ≤ m.shared.size := by
  rcases mem_step s rfl hj with ⟨-, hg⟩ | ⟨hg, -⟩
  · rcases (s.go.leading _ hg).joining rest rfl with ⟨-, rfl⟩ | ⟨k, rfl⟩
    · exact h.room
    · have hlen := h.joining t (k :: rest) s.mem
      rw [List.length_cons] at hlen
      omega
  · exact h.joining i rest hg

/-- a step of the closer that joins: the worker that it waited for has ended -/
theorem join_step {k : ThreadId} {rest : List ThreadId} (hm : m.Formed)
    (go : Transition m t (.stop (.join (k :: rest))) e) :
    e.own = .become (.stop (.join rest)) ∧ ¬ m.ActiveWorker k := by
  have hended : ∀ {u}, m.threads[k]? = some u → u.life ≠ .active → ¬ m.ActiveWorker k := by
    rintro u hu hlife ⟨v, hv, -, hne⟩
    have hempty := ((hm.thread hu).ended.1 hlife).2
    have : u.calm = v := by simpa [roster, hu] using hv
    exact hne (by simp [← this, Thread.calm, hempty])
  cases go with
  | take h => cases h
  | joinNobody h =>
    refine ⟨rfl, ?_⟩
    rintro ⟨u, hu, -, -⟩
    simp [roster, h] at hu
  | joinFinished h hl => exact ⟨rfl, hended h (by simp [hl])⟩
  | joinDied h hl => exact ⟨rfl, hended h (by simp [hl])⟩

/-- as long as nobody lets the workers go, each stays where it is accounted for -/
theorem enrolled_step (hm : m.Sound) (hd : f ≠ .drop .collect)
    (h : ∀ t, m.ActiveWorker t → t ∈ m.shared.handles ∨ ∃ i rest, .stop (.join rest) ∈ m.stackOf i ∧ t ∈ rest)
    (s : m.StepOf m' t th f below e) {i : ThreadId} (hi : m'.ActiveWorker i) :
    i ∈ m'.shared.handles ∨ ∃ j rest, .stop (.join rest) ∈ m'.stackOf j ∧ i ∈ rest := by
  rcases active_step s hi with ⟨k, hsp, rfl⟩ | hold
  · -- the new worker
    obtain ⟨rfl, -⟩ := s.go.spawned hsp
    refine .inl ?_
    rw [s.writes.handles, Frame.handlesAfter, hsp, roster_length]
    simp
  · rcases h i hold with hin | ⟨j, rest, hj, hin⟩
    · by_cases hcol : f = .stop .collect
      · -- the closer takes the handle over
        subst hcol
        refine .inr ⟨t, m.shared.handles, ?_, hin⟩
        rw [s.after]
        cases s.go with
        | take h => cases h
        | collect => exact .head _
      · refine .inl ?_
        rw [s.writes.handles]
        unfold Frame.handlesAfter
        split
        · exact List.mem_append_left _ hin
        · exact absurd rfl hcol
        · exact absurd rfl hd
        · exact hin
    · by_cases hown : j = t ∧ .stop (.join rest) = f
      · obtain ⟨rfl, rfl⟩ := hown
        cases rest with
        | nil => cases hin
        | cons k rest =>
          obtain ⟨hbecome, hgone⟩ := join_step hm.formed s.go
          rcases List.mem_cons.1 hin with rfl | hin
          · exact absurd hold hgone
          · refine .inr ⟨j, rest, ?_, hin⟩
            rw [s.after, hbecome]
            exact .head _
      · exact .inr ⟨j, rest, mem_keep s hm.formed rfl hj fun hjt hf => hown ⟨hjt, hf⟩, hin⟩

end Step

/-- the other moves leave the handles, the workers and the activations of starts and stops as they are -/
theorem custody_calm {m m' : Machine} (h : m.Custody) (hen : m'.Everywhere Frame.Enrols)
    (hstage : m'.shared.stage = m.shared.stage) (hhandles : m'.shared.handles = m.shared.handles)
    (hsize : m'.shared.size = m.shared.size)
    (hstack : ∀ i, ∀ g, g.steady → g ∈ m'.stackOf i → g ∈ m.stackOf i ∨ g = .start .wantHandles ∨ g = .stop .want)
    (hkeep : ∀ i, ∀ g, g.steady → g ∈ m.stackOf i → g ∈ m'.stackOf i)
    (hworker : ∀ (i : ThreadId) (u : Thread), m.roster[i]? = some u →
      ∃ u' : Thread, m'.roster[i]? = some u' ∧ u'.worker = u.worker)
    (hactive : ∀ i, m'.ActiveWorker i → m.ActiveWorker i) : m'.Custody := by
  refine ⟨hen, ?_, ?_, ?_, ?_, ?_⟩
  · rw [hstage, hhandles]
    intro hp
    have hbefore : m.shared.stage = .stopped ∨ ∃ i, ∃ f ∈ m.stackOf i, f.collected := by
      rcases hp with hp | ⟨i, g, hg, hgc⟩
      · exact .inl hp
      · rcases hstack i g (collected_steady hgc).1 hg with hg | rfl | rfl
        · exact .inr ⟨i, g, hg, hgc⟩
        · cases hgc
        · cases hgc
    obtain ⟨hnil, hnone⟩ := h.empty hbefore
    refine ⟨hnil, fun i k hk => ?_⟩
    rcases hstack i _ rfl hk with hk | hk | hk
    · exact hnone i k hk
    · cases hk
    · cases hk
  · rw [hhandles]
    intro k i hk
    obtain ⟨u, hu, hname⟩ := h.named k i hk
    obtain ⟨u', hu', hsame⟩ := hworker i u hu
    exact ⟨u', hu', hsame.trans hname⟩
  · rw [hhandles, hsize]
    exact h.room
  · rw [hsize]
    intro i rest hj
    rcases hstack i _ rfl hj with hj | hj | hj
    · exact h.joining i rest hj
    · cases hj
    · cases hj
  · rw [hhandles]
    intro i hi
    rcases h.enrolled i (hactive i hi) with hin | ⟨j, rest, hj, hin⟩
    · exact .inl hin
    · exact .inr ⟨j, rest, hkeep j _ rfl hj, hin⟩

theorem custody_move {m m' : Machine} {w : Option (Stage × Change)} (hm : m.Sound) (hh : m.Manned) (hc : m.OneCloser)
    (h : m.Custody) (mv : m.Moved m' w) : m'.Custody := by
  have hen : m'.Everywhere Frame.Enrols :=
    everywhere_move guarded_enrols hm.owned h.enrols mv fun go _ _ hf =>
      go.enrols hf fun hstop => (h.empty (.inl hstop)).1
  have hworker := fun (i : ThreadId) (u : Thread) (hu : m.roster[i]? = some u) => move_worker mv hu
  cases mv with
  | @step t th f below e s =>
    have hd : f ≠ .drop .collect := by
      rintro rfl
      exact absurd (hh.mem s.mem) (by decide)
    obtain ⟨hnamed, hroom⟩ := named_step h s
    refine ⟨hen, empty_step hm hc h s, hnamed, hroom, fun i rest hj => ?_, fun i => enrolled_step hm hd h.enrolled s⟩
    rw [s.writes.size]
    exact joining_step h s hj
  | still gates hsh hr =>
    have hst := stackOf_still hr
    exact custody_calm h hen (by rw [hsh]) (by rw [hsh]) (by rw [hsh]) (fun i g _ hg => .inl (hst i ▸ hg))
      (fun i g _ hg => (hst i).symm ▸ hg) hworker fun i => by simp [ActiveWorker, hr]
  | @call t th c ht hwk hs hsh hr =>
    have hidle : m.stackOf t = [] := by simp [stackOf, ht, hs]
    refine custody_calm h hen (by rw [hsh]) (by rw [hsh]) (by rw [hsh]) ?_ ?_ hworker ?_
    · intro i g hg hmem
      rw [stackOf_call ht hr] at hmem
      split at hmem
      · rw [List.mem_singleton] at hmem
        subst hmem
        cases c <;> simp [Call.frame, Frame.steady] at hg ⊢
      · exact .inl hmem
    · intro i g _ hmem
      rw [stackOf_call ht hr]
      split
      · rename_i hi
        rw [hi, hidle] at hmem
        cases hmem
      · exact hmem
    · rintro i ⟨u, hu, hworker, hne⟩
      rw [hr, List.getElem?_set] at hu
      split at hu
      · split at hu <;> cases hu
        cases hworker
      · exact ⟨u, hu, hworker, hne⟩
  | enter hsh hr =>
    refine custody_calm h hen (by rw [hsh]) (by rw [hsh]) (by rw [hsh]) ?_ ?_ hworker ?_
    · exact fun i g _ hmem => .inl (stackOf_enter hr i ▸ hmem)
    · exact fun i g _ hmem => (stackOf_enter hr i).symm ▸ hmem
    · rintro i ⟨u, hu, hworker, hne⟩
      rw [hr] at hu
      rcases Nat.lt_or_ge i m.roster.length with hlt | hge
      · rw [List.getElem?_append_left hlt] at hu
        exact ⟨u, hu, hworker, hne⟩
      · rw [List.getElem?_append_right hge, List.getElem?_singleton] at hu
        split at hu <;> cases hu
        cases hworker

/-- what holds of every run until a drop lets the workers go -/
structure Governed (m : Machine) : Prop where
  sound : m.Sound
  manned : m.Manned
  closer : m.OneCloser
  custody : m.Custody

theorem governed_fresh (size : Nat) (stem : String) (dispatches : Bool) : (fresh size stem dispatches).Governed :=
  ⟨sound_fresh size stem dispatches, rfl, closing_fresh size stem dispatches, custody_fresh size stem dispatches⟩

/-- from one move to the next nobody escapes, or the pool is given up -/
theorem governed_move {m m' : Machine} {w : Option (Stage × Change)} (h : m.Governed) (mv : m.Moved m' w) :
    m'.Governed ∨ m'.GivenUp :=
  (closing_manned h.sound h.manned h.closer mv).imp_left fun ⟨hmanned, hcloser⟩ =>
    ⟨sound_move h.sound mv, hmanned, hcloser, custody_move h.sound h.manned h.closer h.custody mv⟩

/-- what holds of every run of a pool that nobody gives up -/
structure Orderly (m : Machine) : Prop extends m.Governed where
  kept : m.kept

theorem orderly_move {m m' : Machine} {w : Option (Stage × Change)} (h : m.Orderly) (mv : m.Moved m' w) (hk : m'.kept) :
    m'.Orderly :=
  ⟨⟨sound_move h.sound mv, manned_move h.kept mv, closing_move h.sound h.kept h.closer mv,
    custody_move h.sound h.manned h.closer h.custody mv⟩, hk⟩

theorem orderly_fresh (size : Nat) (stem : String) (dispatches : Bool) : (fresh size stem dispatches).Orderly :=
  ⟨governed_fresh size stem dispatches, rfl⟩

/-! ## Nobody is left behind -/

namespace Governed

variable {m : Machine}

theorem stopped (h : m.Governed) (hs : m.shared.stage = .stopped) : m.shared.handles = [] ∧ ∀ t, ¬ m.ActiveWorker t := by
  have hnil := (h.custody.empty (.inl hs)).1
  refine ⟨hnil, fun t ht => ?_⟩
  rcases h.custody.enrolled t ht with hin | ⟨i, rest, hj, -⟩
  · rw [hnil] at hin
    cases hin
  · exact absurd (hs.symm.trans (h.closer.closing hj rfl)) nofun

/-- the active workers are all on one list that is not longer than the pool is large -/
theorem roll (h : m.Governed) :
    ∃ roll : List ThreadId, roll.length ≤ m.shared.size ∧ ∀ t, m.ActiveWorker t → t ∈ roll := by
  by_cases hj : ∃ i rest, .stop (.join rest) ∈ m.stackOf i
  · -- the closer has collected the handles, and there is no other closer
    obtain ⟨i, rest, hj⟩ := hj
    have hnil := (h.custody.empty (.inr ⟨i, _, hj, rfl⟩)).1
    have hone : m.tally Frame.closes ≤ 1 := by
      rw [h.closer]
      split <;> omega
    refine ⟨rest, h.custody.joining i rest hj, fun t ht => ?_⟩
    rcases h.custody.enrolled t ht with hin | ⟨j, rest', hj', hin⟩
    · rw [hnil] at hin
      cases hin
    · cases tally_unique hone hj hj' rfl rfl
      exact hin
  · refine ⟨m.shared.handles, h.custody.room, fun t ht => ?_⟩
    rcases h.custody.enrolled t ht with hin | ⟨i, rest, hj', -⟩
    · exact hin
    · exact absurd ⟨i, rest, hj'⟩ hj

end Governed

end Machine

/-- the thread is a worker that has not ended -/
def Thread.works (th : Thread) : Bool := th.worker.isSome && th.life == .active

theorem Machine.Formed.works {m : Machine} (h : m.Formed) {t : ThreadId} {th : Thread} (ht : m.threads[t]? = some th)
    (hw : th.works) : m.ActiveWorker t := by
  obtain ⟨hsome, hlife⟩ := Bool.and_eq_true_iff.1 hw
  refine ⟨th.calm, by simp [roster, ht], hsome, fun hempty => ?_⟩
  have hnil : th.stack = [] := by simpa [Thread.calm] using hempty
  exact (h.thread ht).ended.2 ⟨hsome, hnil⟩ (by simpa using hlife)

/-- the places of a list at which a condition holds, once each -/
theorem exists_places {α : Type} (p : α → Bool) (l : List α) : ∃ places : List Nat, places.Nodup ∧
    places.length = l.countP p ∧ ∀ i, i ∈ places ↔ ∃ a, l[i]? = some a ∧ p a := by
  refine ⟨((List.finRange l.length).filter fun i => p (l.get i)).map Fin.val, ?_, ?_, fun i => ⟨fun hi => ?_, ?_⟩⟩
  · exact List.Nodup.map (fun _ _ => Fin.ext) ((List.nodup_finRange _).filter _)
  · conv_rhs => rw [← List.map_get_finRange l]
    rw [List.countP_map, List.countP_eq_length_filter, List.length_map]
    rfl
  · obtain ⟨k, hk, rfl⟩ := List.mem_map.1 hi
    exact ⟨l.get k, by simp, (List.mem_filter.1 hk).2⟩
  · rintro ⟨a, ha, hp⟩
    obtain ⟨hl, rfl⟩ := List.getElem?_eq_some_iff.1 ha
    exact List.mem_map.2 ⟨⟨i, hl⟩, List.mem_filter.2 ⟨List.mem_finRange _, hp⟩, rfl⟩

/-- a list whose places with a condition are all on a roll has no more of them than the roll is long -/
theorem countP_le_roll {α : Type} {p : α → Bool} {l : List α} {roll : List Nat}
    (h : ∀ i a, l[i]? = some a → p a → i ∈ roll) : l.countP p ≤ roll.length := by
  obtain ⟨places, hnodup, hlen, hmem⟩ := exists_places p l
  rw [← hlen]
  refine hnodup.length_le_of_subset fun i hi => ?_
  obtain ⟨a, ha, hp⟩ := (hmem i).1 hi
  exact h i a ha hp

/-! ## What the diagnostics never say -/

/-- the diagnostics of what cannot happen: a worker that sees the stopped stage, a closer that cannot settle -/
def Event.alarming : Event → Bool
  | .observedStopped | .settleFailed _ => true
  | _ => false

theorem Transition.alarms {m : Machine} {t : ThreadId} {f : Frame} {e : Effect} (h : Transition m t f e)
    (hc : f.closes → m.shared.stage = .closing) (hw : ∀ i p, f = .worker i p → m.shared.stage ≠ .stopped) :
    ∀ x ∈ e.shared.events, x ∈ m.shared.events ∨ x.2.alarming = false := by
  have tell : ∀ {ev : Event}, ev.alarming = false →
      ∀ x ∈ m.shared.events ++ [(t, ev)], x ∈ m.shared.events ∨ x.2.alarming = false := by
    intro ev hev x hx
    rcases List.mem_append.1 hx with hx | hx
    · exact .inl hx
    · rw [List.mem_singleton.1 hx]
      exact .inr hev
  cases h with
  | take h => cases h <;> exact fun x hx => .inl hx
  | @whim mode n p w => cases w <;> exact fun x hx => .inl hx
  | seeStopped h => exact absurd h (hw _ _ rfl)
  | settleRefused h => exact absurd (hc rfl) h
  | _ => first | exact fun x hx => .inl hx | exact tell rfl

namespace Machine

theorem alarms_move {m m' : Machine} {w : Option (Stage × Change)} (hm : m.Orderly) (mv : m.Moved m' w)
    (h : ∀ x ∈ m.shared.events, x.2.alarming = false) : ∀ x ∈ m'.shared.events, x.2.alarming = false := by
  cases mv with
  | @step t th f below e s =>
    have hevents : m'.shared.events = e.shared.events := by rw [s.shared]; cases e.own <;> rfl
    rw [hevents]
    intro x hx
    have hcalm : f.calm.closes = f.closes := countable_closes.calm f
    have hstep := s.go.alarms (fun hc => hm.closer.closing s.mem (hcalm.trans hc)) fun i p hf hstop => ?_
    · exact (hstep x hx).elim (h x) id
    · subst hf
      have hworker : th.calm.worker = some i := (s.nested hm.sound.formed).isWorker.1
      exact (hm.stopped hstop).2 t ⟨th.calm, s.entry, by rw [hworker]; rfl, by simp [Thread.calm, s.top]⟩
  | still gates hsh hr => rw [hsh]; exact h
  | call c ht hw hs hsh hr => rw [hsh]; exact h
  | enter hsh hr => rw [hsh]; exact h

/-! ## Whom a stop waits for -/

section

variable {m m' : Machine} {w : Option (Stage × Change)} {t : ThreadId}

/-- a stop waits for workers only -/
def Joins (m : Machine) : Prop := ∀ i rest, .stop (.join rest) ∈ m.stackOf i → ∀ k ∈ rest,
  ∃ th, m.roster[k]? = some th ∧ th.worker.isSome

theorem joins_fresh (size : Nat) (stem : String) (dispatches : Bool) : (fresh size stem dispatches).Joins := by
  intro i rest hj
  simp [fresh, stackOf, roster] at hj

theorem joins_move (hc : m.Custody) (h : m.Joins) (mv : m.Moved m' w) : m'.Joins := by
  intro i rest hj k hk
  have worker : (∃ th, m.roster[k]? = some th ∧ th.worker.isSome) →
      ∃ th, m'.roster[k]? = some th ∧ th.worker.isSome := by
    rintro ⟨u, hu, hsome⟩
    obtain ⟨u', hu', hsame⟩ := move_worker mv hu
    exact ⟨u', hu', hsame ▸ hsome⟩
  refine worker ?_
  cases mv with
  | @step t th f below e s =>
    rcases mem_step s rfl hj with ⟨-, hg⟩ | ⟨hg, -⟩
    · rcases (s.go.leading _ hg).joining rest rfl with ⟨-, rfl⟩ | ⟨b, rfl⟩
      · obtain ⟨j, hj⟩ := List.getElem?_of_mem hk
        obtain ⟨u, hu, hname⟩ := hc.named j k hj
        exact ⟨u, hu, hname ▸ rfl⟩
      · exact h t (b :: rest) s.mem k (.tail _ hk)
    · exact h i rest hg k hk
  | still gates hsh hr => exact h i rest (stackOf_still hr i ▸ hj) k hk
  | call c ht hw hs hsh hr =>
    rw [stackOf_call ht hr] at hj
    split at hj
    · cases c <;> simp [Call.frame] at hj
    · exact h i rest hj k hk
  | enter hsh hr => exact h i rest (stackOf_enter hr i ▸ hj) k hk

end

/-! ## The result -/

theorem orderly_run {m : Machine} {hist : List (Stage × Change)} {size : Nat} {stem : String} {dispatches : Bool}
    (r : Run (·.kept) (fresh size stem dispatches) hist m) :
    m.Orderly ∧ m.shared.size = size ∧ ∀ x ∈ m.shared.events, x.2.alarming = false := by
  refine (r.keeps (I := fun m => m.Orderly ∧ m.shared.size = size ∧ ∀ x ∈ m.shared.events, x.2.alarming = false)
    (sound_fresh size stem dispatches) ?_ ?_).2
  · exact ⟨orderly_fresh size stem dispatches, rfl, nofun⟩
  · rintro a b w - ⟨h, hsize, hevents⟩ mv hk
    exact ⟨orderly_move h mv hk, (move_settings mv).1.trans hsize, alarms_move h mv hevents⟩

/-- **No worker escapes a stop.** As long as nobody gives up the pool itself: a stopped pool has no handle and no active
worker; there are never more active workers than the pool is large; whoever settles finds the pool closing; and the
diagnostics never tell of a worker that saw the stopped stage, or of a closer that could not settle. -/
theorem no_worker_escapes {m : Machine} {hist : List (Stage × Change)} {size : Nat} {stem : String} {dispatches : Bool}
    (r : Run (·.kept) (fresh size stem dispatches) hist m) :
    (m.shared.stage = .stopped → m.shared.handles = [] ∧ ∀ th ∈ m.threads, ¬ th.works) ∧
      m.threads.countP Thread.works ≤ size ∧
      (∀ t, (.stop .settleRead ∈ m.stackOf t ∨ ∃ seen next, .stop (.settleSwap seen next) ∈ m.stackOf t) →
        m.shared.stage = .closing) ∧
      (∀ t, (t, Event.observedStopped) ∉ m.shared.events) ∧ ∀ t g, (t, Event.settleFailed g) ∉ m.shared.events := by
  obtain ⟨hm, hsize, hevents⟩ := orderly_run r
  refine ⟨fun hstop => ?_, ?_, ?_, ?_, ?_⟩
  · obtain ⟨hnil, hnone⟩ := hm.stopped hstop
    refine ⟨hnil, fun th hth hworks => ?_⟩
    obtain ⟨t, ht⟩ := List.getElem?_of_mem hth
    exact hnone t (hm.sound.formed.works ht hworks)
  · obtain ⟨roll, hlen, hroll⟩ := hm.roll
    calc m.threads.countP Thread.works ≤ roll.length :=
          countP_le_roll fun t th ht hworks => hroll t (hm.sound.formed.works ht hworks)
      _ ≤ m.shared.size := hlen
      _ = size := hsize
  · rintro t (hf | ⟨seen, next, hf⟩)
    · exact hm.closer.closing hf rfl
    · exact hm.closer.closing hf rfl
  · exact fun t ht => absurd (hevents _ ht) nofun
  · exact fun t g ht => absurd (hevents _ ht) nofun

/-- a pool is started and its worker enters the loop; another thread stops it, and a start in between is refused -/
def stoppedInLoop : List Move :=
  [Move.enter, .enter, .call 0 .start] ++ steps 0 10 ++ steps 2 3 ++ [Move.call 1 .stop] ++ steps 1 6 ++
    [Move.call 0 .start] ++ steps 1 11 ++ steps 0 3 ++ steps 2 6 ++ steps 1 6

theorem no_worker_escapes_in_loop : ∃ hist m, Run (·.kept) (fresh 1 "w" true) hist m ∧
    hist = [(.stopped, .start), (.running, .shutdown), (.closing, .settle)] ∧ m.threads.length = 3 ∧
    m.shared.handles = [] ∧ m.threads.countP Thread.works ≤ 1 ∧ ∀ th ∈ m.threads, ¬ th.works := by
  have hf : ((fresh 1 "w" true).follow kept [] stoppedInLoop).map
      (fun p => (p.1, p.2.threads.length, p.2.shared.stage)) =
        some ([(.stopped, .start), (.running, .shutdown), (.closing, .settle)], 3, .stopped) := by cbv
  obtain ⟨⟨hist, m⟩, hf, hp⟩ := Option.map_eq_some_iff.1 hf
  have r := run_follow .rest hf
  obtain ⟨hstopped, hcount, -⟩ := no_worker_escapes r
  simp only [Prod.mk.injEq] at hp
  obtain ⟨hnil, hnone⟩ := hstopped hp.2.2
  exact ⟨hist, m, r, hp.1, hp.2.1, hnil, hcount, hnone⟩

end Machine

end SecureEndpoint.Workers
