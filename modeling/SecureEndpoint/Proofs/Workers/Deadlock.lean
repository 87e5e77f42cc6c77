/-
No thread joins itself, and no threads wait for each other.

A stop that is called on a worker of the pool finds its own handle among the handles and is refused, or the handles were
collected; but then the closer has still to join this worker, the pool is closing, and the stop loses. Either way it goes
no further (`Frame.modest`), so whoever joins comes from outside. It holds no lock then, so nobody waits for it; and locks
are taken in order.
- `meek_move`: the commands of a worker stay where they change nothing.
- `Transition.leaves_alone`: so a step of a stop on a worker leaves the pool as it is.
- `waits_climb`, `acyclic`: along a chain of threads of which each waits for the next, the locks come later and later.
- `no_deadlock`: all of it, for every run of a pool that nobody gives up.
-/
import Mathlib
import SecureEndpoint.Proofs.Workers.Session
import SecureEndpoint.Proofs.Workers.Waiting

namespace SecureEndpoint.Workers

/-! ## Commands on a worker -/

namespace Frame

/-- not past the place at which a start, a stop or a shutdown begins to change the pool -/
def modest : Frame → Bool
  | .start p => match p with
    | .wantHandles | .wantParking | .read => true
    | _ => false
  | .stop p => match p with
    | .want | .own | .shut | .shutDone false => true
    | _ => false
  | .shutdown p => match p with
    | .want | .read => true
    | _ => false
  | _ => true

/-- part of a stop that has not found its own handle -/
def admitted : Frame → Bool
  | .stop p => match p with
    | .shut | .shutDone _ => true
    | _ => false
  | .shutdown _ => true
  | _ => false

theorem modest_calm (f : Frame) : f.calm.modest = f.modest := by
  unfold calm
  split <;> rfl

theorem admitted_calm (f : Frame) : f.calm.admitted = f.admitted := by
  unfold calm
  split <;> rfl

theorem admitted_receive (f : Frame) (v : Value) : (f.receive v).admitted = f.admitted := by
  unfold receive
  split <;> rfl

/-- only a won shutdown lets a stop go on -/
theorem modest_receive {f : Frame} {v : Value} (h : f.modest) (hv : f = .stop .shut → v ≠ .flag true) :
    (f.receive v).modest := by
  unfold receive
  split
  · rfl
  · cases h
  · rename_i b
    cases b with
    | true => exact absurd rfl (hv rfl)
    | false => rfl
  · rfl
  · exact h

theorem Begins.modest {f : Frame} (h : f.Begins) : f.modest ∧ f.admitted = false := by
  cases h with
  | call c => cases c <;> exact ⟨rfl, rfl⟩
  | meet => exact ⟨rfl, rfl⟩
  | hold => exact ⟨rfl, rfl⟩

theorem admitted_of_shutdown {f : Frame} (h : f.kind = .shutdown) : f.admitted := by
  cases f <;> first | rfl | cases h

/-- a modest stop or shutdown is not about to change the stage -/
theorem attempts_nothing {f : Frame} (h : f.modest) (hk : f.kind = .stop ∨ f.kind = .shutdown) : f.attempt? = none := by
  unfold attempt?
  split <;> first | rfl | (cases h; done) | (rcases hk with hk | hk <;> cases hk)

/-- a modest activation is on nobody's way to the settling -/
theorem closes_of_modest {f : Frame} (h : f.modest) : f.closes = false := by
  unfold modest at h
  split at h
  · rfl
  · split at h <;> first | rfl | cases h
  · split at h <;> first | rfl | cases h
  · rename_i hstart hstop hshut
    cases f with
    | stop p => exact absurd rfl (hstop p)
    | shutdown p => exact absurd rfl (hshut p)
    | _ => rfl

end Frame

namespace Transition

variable {m : Machine} {t : ThreadId} {f : Frame} {e : Effect}

/-- a command on a worker stays modest: the pool is not stopped, and it is closing once a stop did not find the handle -/
theorem meek (h : Transition m t f e) (hf : f.modest) (hd : f.kind ≠ .drop) (hstop : m.shared.stage ≠ .stopped)
    (hclosing : f.admitted → m.shared.stage = .closing) :
    ∀ g ∈ e.own.frames, g.modest ∧ (g.admitted → f.admitted ∨ t ∉ m.shared.handles) := by
  have plain : ∀ {g : Frame}, g.modest → g.admitted = false → g.modest ∧ (g.admitted → f.admitted ∨ t ∉ m.shared.handles) :=
    fun hm ha => ⟨hm, fun h => absurd h (by simp [ha])⟩
  cases h with
  | take h =>
    refine each_become ?_
    cases h with
    | shutdown => exact ⟨rfl, fun _ => .inl rfl⟩
    | collect | settle => cases hf
    | drop | detach => exact absurd rfl hd
    | _ => exact plain rfl rfl
  | @whim mode n p w =>
    cases w with
    | leave => exact each_ret
    | handOut j => exact each_call (plain rfl rfl) (plain rfl rfl)
    | panic => exact each_unwind
  | jobCall h => exact each_call (plain h.modest.1 h.modest.2) (plain rfl rfl)
  | startReady h => exact absurd h hstop
  | shutReady hs h =>
    rw [h] at hclosing
    rcases hs with rfl | rfl <;> cases hclosing rfl
  | stopElsewhere h => exact each_become ⟨rfl, fun _ => .inr h⟩
  | stopShut => exact each_call ⟨rfl, fun _ => .inl rfl⟩ ⟨rfl, fun _ => .inl rfl⟩
  | dropWant | dropOnWorker | dropElsewhere | dropShut => exact absurd rfl hd
  | _ => first
    | exact each_ret
    | exact each_unwind
    | (cases hf; done)
    | exact each_become (plain rfl rfl)
    | exact each_call (plain rfl rfl) (plain rfl rfl)

/-- a modest shutdown that returns has lost -/
theorem loses (h : Transition m t f e) (hf : f.modest) (hk : f.kind = .shutdown) {v : Value} (hv : e.own = .ret v) :
    v ≠ .flag true := by
  cases h with
  | take h => cases h <;> cases hv
  | shutIdle | shutLate =>
    cases hv
    nofun
  | tellParked => cases hf
  | _ => first | (cases hk; done) | cases hv

/-- a step of a modest stop or shutdown changes nothing but who holds the locks, and the diagnostics; it wakes nobody -/
theorem leaves_alone (h : Transition m t f e) (hf : f.modest) (hk : f.kind = .stop ∨ f.kind = .shutdown)
    (hopen : f.kind = .shutdown → m.shared.stage = .closing) :
    (∃ handles parking events, e.shared =
        { m.shared with handlesOwner := handles, parkingOwner := parking, events := events }) ∧
      e.wake = .nobody ∧ e.spawn = none ∧ e.own ≠ .unwind := by
  cases h with
  | take h =>
    cases h with
    | stop | shutdown => exact ⟨⟨_, _, _, rfl⟩, rfl, rfl, nofun⟩
    | collect | settle => cases hf
    | _ => rcases hk with hk | hk <;> cases hk
  | shutReady hs h =>
    rw [h] at hopen
    rcases hs with rfl | rfl <;> cases hopen rfl
  | shutIdle | shutLate | stopOnWorker | stopElsewhere | stopShut | stopLost =>
    exact ⟨⟨_, _, _, rfl⟩, rfl, rfl, nofun⟩
  | _ => first | (cases hf; done) | (rcases hk with hk | hk <;> cases hk)

end Transition

/-- above a modest stop there is at most its shutdown -/
theorem Nested.in_stop {w : Option Nat} {f : Frame} {below : List Frame} (h : Nested w (f :: below))
    (hf : ∀ g ∈ f :: below, g.modest) (hstop : ∃ g ∈ f :: below, g.kind = .stop) : f.kind = .stop ∨ f.kind = .shutdown := by
  induction below generalizing f with
  | nil =>
    obtain ⟨g, hg, hk⟩ := hstop
    rw [List.mem_singleton.1 hg] at hk
    exact .inl hk
  | cons b rest ih =>
    by_cases hk : f.kind = .stop
    · exact .inl hk
    · have hlow : ∃ g ∈ b :: rest, g.kind = .stop := by
        obtain ⟨g, hg, hgk⟩ := hstop
        rcases List.mem_cons.1 hg with rfl | hg
        · exact absurd hgk hk
        · exact ⟨g, hg, hgk⟩
      have hb := ih h.tail (fun g hg => hf g (.tail _ hg)) hlow
      have hmodest := hf b (.tail _ (.head _))
      have hc := h.called
      generalize f.kind = k at hc ⊢
      cases hc with
      | shut => exact .inr rfl
      | ask | halt => cases hmodest
      | _ => rcases hb with hb | hb <;> cases hb

namespace Machine

/-- thread `t` is a worker -/
def IsWorker (m : Machine) (t : ThreadId) : Prop := ∃ th, m.roster[t]? = some th ∧ th.worker.isSome

/-- whatever a worker commands stays modest, and a stop goes on only if it did not find the worker's own handle -/
def Meek (m : Machine) : Prop := ∀ t, m.IsWorker t → ∀ f ∈ m.stackOf t,
  f.modest ∧ (f.admitted → t ∉ m.shared.handles)

theorem IsWorker.of_thread {m : Machine} {t : ThreadId} {th : Thread} (ht : m.threads[t]? = some th)
    (hw : th.worker.isSome) : m.IsWorker t :=
  ⟨th.calm, by simp [roster, ht], hw⟩

theorem Meek.frame {m : Machine} (h : m.Meek) {t : ThreadId} {th : Thread} (ht : m.threads[t]? = some th)
    (hw : th.worker.isSome) {f : Frame} (hf : f ∈ th.stack) : f.modest ∧ (f.admitted → t ∉ m.shared.handles) := by
  have := h t (.of_thread ht hw) f.calm (by simpa [stackOf, roster, ht, Thread.calm] using ⟨f, hf, rfl⟩)
  rwa [Frame.modest_calm, Frame.admitted_calm] at this

theorem meek_fresh (size : Nat) (stem : String) (dispatches : Bool) : (fresh size stem dispatches).Meek := by
  intro t _ f hf
  simp [fresh, stackOf, roster] at hf

section Step

variable {m m' : Machine} {t i : ThreadId} {th : Thread} {f : Frame} {below : List Frame} {e : Effect}

/-- a worker whose handle was collected has still to be joined, so the pool is closing -/
theorem Orderly.closing_of_collected (hm : m.Orderly) (ht : m.ActiveWorker t) (hout : t ∉ m.shared.handles) :
    m.shared.stage = .closing := by
  rcases hm.custody.enrolled t ht with hin | ⟨i, rest, hj, -⟩
  · exact absurd hin hout
  · exact hm.closer.closing hj rfl

/-- the handles after a step: a new one is that of a new thread -/
theorem outside_step (s : m.StepOf m' t th f below e) (hi : i ≠ m.roster.length) (hout : i ∉ m.shared.handles) :
    i ∉ m'.shared.handles := by
  rw [s.writes.handles]
  unfold Frame.handlesAfter
  split
  · rw [List.mem_append]
    rintro (hin | hin)
    · exact hout hin
    · split at hin
      · rw [List.mem_singleton, ← roster_length] at hin
        exact hi hin
      · cases hin
  · nofun
  · nofun
  · exact hout

/-- a thread that is a worker after a step was one before, unless the step created it -/
theorem StepOf.isWorker (s : m.StepOf m' t th f below e) (hi : i ≠ m.roster.length) (h : m'.IsWorker i) : m.IsWorker i := by
  obtain ⟨u, hu, hworker⟩ := h
  have hlt : i < m.roster.length := by
    have hone : (e.spawn.map newWorker).toList.length ≤ 1 := by cases e.spawn <;> simp
    have hl : i < m'.roster.length := (List.getElem?_eq_some_iff.1 hu).1
    rw [s.roster, List.length_append, List.length_set] at hl
    exact Nat.lt_of_le_of_ne (Nat.le_of_lt_succ (Nat.lt_of_lt_of_le hl (Nat.add_le_add_left hone _))) hi
  obtain ⟨u', hu', hsame⟩ := worker_step s (List.getElem?_eq_getElem hlt)
  cases hu.symm.trans hu'
  exact ⟨_, List.getElem?_eq_getElem hlt, hsame ▸ hworker⟩

theorem meek_step (hm : m.Orderly) (h : m.Meek) (s : m.StepOf m' t th f below e) : m'.Meek := by
  intro i hi g hg
  rw [s.stackAt] at hg
  by_cases hit : i = t
  · -- the thread that made the step
    subst hit
    have hlen : i ≠ m.roster.length := Nat.ne_of_lt (List.getElem?_eq_some_iff.1 s.entry).1
    have hw : th.worker.isSome := by
      obtain ⟨u, hu, hworker⟩ := s.isWorker hlen hi
      cases s.entry.symm.trans hu
      exact hworker
    have hbefore : ∀ g ∈ f :: below, g.modest ∧ (g.admitted → i ∉ m.shared.handles) := fun g hg =>
      h.frame s.thread hw (by rwa [s.top])
    obtain ⟨hmodest, hout⟩ := hbefore f (.head _)
    have hactive : m.ActiveWorker i := ⟨_, s.entry, hw, by simp [Thread.calm, s.top]⟩
    have hd : f.kind ≠ .drop := kept_stack hm.kept s.thread f (by rw [s.top]; exact .head _)
    have hown := s.go.meek hmodest hd (fun hstop => (hm.stopped hstop).2 i hactive)
      fun ha => hm.closing_of_collected hactive (hout ha)
    rw [if_pos rfl] at hg
    obtain ⟨k, hk, rfl⟩ := List.mem_map.1 hg
    rw [Frame.modest_calm, Frame.admitted_calm]
    rcases stack_cases hk with hk | hk | ⟨v, b, rest, hv, rfl, rfl⟩
    · obtain ⟨hkm, hka⟩ := hown k hk
      exact ⟨hkm, fun ha => outside_step s hlen ((hka ha).elim hout id)⟩
    · obtain ⟨hkm, hka⟩ := hbefore k (.tail _ hk)
      exact ⟨hkm, fun ha => outside_step s hlen (hka ha)⟩
    · obtain ⟨hbm, hba⟩ := hbefore b (.tail _ (.head _))
      refine ⟨Frame.modest_receive hbm fun hshut => ?_, fun ha => outside_step s hlen (hba ?_)⟩
      · -- the answer comes from a shutdown, which has lost
        have hc := (s.nested hm.sound.formed).called
        rw [hshut] at hc
        refine s.go.loses hmodest ?_ hv
        generalize f.kind = k at hc
        cases hc
        rfl
      · rwa [Frame.admitted_receive] at ha
  · rw [if_neg hit] at hg
    by_cases hlen : i = m.roster.length
    · -- a new worker
      rw [if_pos hlen] at hg
      cases hsp : e.spawn with
      | none => simp [hsp] at hg
      | some k =>
        simp only [hsp, Option.map_some, Option.toList_some, List.mem_singleton] at hg
        subst hg
        exact ⟨rfl, fun h => by cases h⟩
    · rw [if_neg hlen] at hg
      obtain ⟨hgm, hga⟩ := h i (s.isWorker hlen hi) g hg
      exact ⟨hgm, fun ha => outside_step s hlen (hga ha)⟩

end Step

theorem meek_move {m m' : Machine} {w : Option (Stage × Change)} (hm : m.Orderly) (h : m.Meek) (mv : m.Moved m' w) :
    m'.Meek := by
  cases mv with
  | step s => exact meek_step hm h s
  | still gates hsh hr =>
    intro i hi g hg
    rw [IsWorker, hr] at hi
    rw [stackOf_still hr] at hg
    rw [hsh]
    exact h i hi g hg
  | @call t th c ht hw hs hsh hr =>
    rintro i ⟨u, hu, hworker⟩ g hg
    rw [hr, List.getElem?_set] at hu
    rw [stackOf_call ht hr] at hg
    split at hu
    · split at hu <;> cases hu
      cases hworker
    · rename_i hti
      rw [if_neg fun hit => hti hit.symm] at hg
      rw [hsh]
      exact h i ⟨u, hu, hworker⟩ g hg
  | enter hsh hr =>
    rintro i ⟨u, hu, hworker⟩ g hg
    rw [hr, List.getElem?_append] at hu
    rw [stackOf_enter hr] at hg
    rw [hsh]
    split at hu
    · exact h i ⟨u, hu, hworker⟩ g hg
    · obtain rfl : { worker := none, stack := [] } = u := by
        simpa using (List.mem_singleton.1 (List.mem_of_getElem? hu)).symm
      cases hworker

/-! ## Chains of those who wait -/

/-- what holds of every run of a pool that nobody gives up, with its workers' commands -/
structure Peaceful (m : Machine) : Prop where
  orderly : m.Orderly
  meek : m.Meek
  joins : m.Joins

namespace Peaceful

variable {m : Machine} {t u v : ThreadId} {th : Thread} {f : Frame} {below : List Frame} {rest : List ThreadId} {l : Lock}

/-- **Who joins** comes from outside, joins workers only, not itself, and holds no lock -/
theorem joiner (h : m.Peaceful) (ht : m.threads[t]? = some th) (hs : th.stack = .stop (.join rest) :: below) :
    th.worker = none ∧ t ∉ rest ∧ ∀ l, m.shared.owner l ≠ some t := by
  have hmem : .stop (.join rest) ∈ m.stackOf t := by
    rw [stackOf_top ht hs]
    exact .head _
  have hout : ¬ m.IsWorker t := fun hw => by cases (h.meek t hw _ hmem).1
  refine ⟨?_, fun hin => ?_, h.orderly.sound.empty_handed ht hs rfl (by simp [Frame.kind])⟩
  · exact Option.not_isSome_iff_eq_none.1 fun hw => hout (.of_thread ht hw)
  · exact hout (h.joins t rest hmem t hin)

/-- nobody waits for a thread that joins others -/
theorem waited_joins_not (h : m.Peaceful) (hw : m.WaitsFor t u) (ht : m.threads[u]? = some th) :
    th.stack ≠ .stop (.join rest) :: below := by
  intro hs
  obtain ⟨hout, -, hempty⟩ := h.joiner ht hs
  cases hw with
  | lock wants held => exact hempty _ held
  | join thread top joined active =>
    obtain ⟨u', hu', hworker⟩ := h.joins t _ (by rw [stackOf_top thread top]; exact .head _) u (.head _)
    obtain ⟨v, hv, rfl⟩ := roster_thread hu'
    cases ht.symm.trans hv
    rw [show th.calm.worker = none from hout] at hworker
    cases hworker

/-- whom somebody waits for waits for a later lock only -/
theorem waits_climb (h : m.Peaceful) (htu : m.WaitsFor t u) (huv : m.WaitsFor u v) :
    ∃ k, m.Wants u k ∧ ∀ l, m.Wants t l → l.rank < k.rank := by
  cases huv with
  | @lock k wants held =>
    refine ⟨k, wants, fun l hl => ?_⟩
    cases htu with
    | @lock l' wants' held' =>
      obtain rfl := hl.unique wants'
      exact wants.climbs h.orderly.sound held'
    | join thread top joined active => exact absurd top (hl.joins_not thread)
  | join thread top joined active => exact absurd top (h.waited_joins_not htu thread)

/-- so does everybody along a chain -/
theorem chain_climbs (h : m.Peaceful) (htu : Relation.TransGen m.WaitsFor t u) (huv : m.WaitsFor u v) :
    ∃ k, m.Wants u k ∧ ∀ l, m.Wants t l → l.rank < k.rank := by
  induction htu generalizing v with
  | single htu => exact h.waits_climb htu huv
  | tail _ hstep ih =>
    obtain ⟨j, hj, hfirst⟩ := ih hstep
    obtain ⟨k, hk, hlast⟩ := h.waits_climb hstep huv
    exact ⟨k, hk, fun l hl => (hfirst l hl).trans (hlast j hj)⟩

theorem acyclic (h : m.Peaceful) (t : ThreadId) : ¬ Relation.TransGen m.WaitsFor t t := by
  intro hcycle
  obtain ⟨s, hts, -⟩ := Relation.TransGen.head'_iff.1 hcycle
  obtain ⟨k, hk, hclimbs⟩ := h.chain_climbs hcycle hts
  exact Nat.lt_irrefl _ (hclimbs k hk)

end Peaceful

/-! ## A stop on a worker -/

/-- after a step of thread `t` the pool is as it was, but for that thread, who holds the locks, and the diagnostics -/
structure LeftAlone (m m' : Machine) (t : ThreadId) : Prop where
  shared : ∃ handles parking events, m'.shared =
    { m.shared with handlesOwner := handles, parkingOwner := parking, events := events }
  threads : ∃ th, m'.threads = m.threads.set t th

/-- **A stop on a worker** is on nobody's way to the settling, and no step of it changes the stage or anything else -/
theorem Peaceful.stop_on_worker {m : Machine} {t : ThreadId} {th : Thread} (h : m.Peaceful)
    (ht : m.threads[t]? = some th) (hw : th.worker.isSome) (hstop : ∃ f ∈ th.stack, f.kind = .stop) :
    (∀ f ∈ th.stack, f.closes = false) ∧ ∀ ch m', m.move (.step t ch) = some m' →
      m.wins? (.step t ch) = none ∧ m.LeftAlone m' t := by
  have hcommand : ∀ f ∈ th.stack, f.modest ∧ (f.admitted → t ∉ m.shared.handles) := fun f hf =>
    h.meek.frame ht hw hf
  refine ⟨fun f hf => Frame.closes_of_modest (hcommand f hf).1, fun ch m' hmove => ?_⟩
  obtain ⟨th', f, below, e, s, he, rfl, -⟩ := h.orderly.sound.stepped hmove
  cases ht.symm.trans s.thread
  obtain ⟨hmodest, hout⟩ := hcommand f (by rw [s.top]; exact .head _)
  have hk : f.kind = .stop ∨ f.kind = .shutdown := by
    refine (s.nested h.orderly.sound.formed).in_stop (fun g hg => (hcommand g (by rwa [s.top])).1) ?_
    rwa [s.top] at hstop
  have hactive : m.ActiveWorker t := ⟨_, s.entry, hw, by simp [Thread.calm, s.top]⟩
  obtain ⟨⟨handles, parking, events, hshared⟩, hwake, hspawn, hown⟩ := s.go.leaves_alone hmodest hk fun hshut =>
    h.orderly.closing_of_collected hactive (hout (Frame.admitted_of_shutdown hshut))
  refine ⟨?_, ⟨handles, parking, events, ?_⟩, th.after e.own below, ?_⟩
  · simp [wins?, s.thread, s.top, Frame.wins?, Frame.attempts_nothing hmodest hk]
  · rw [s.shared, unlocks_of_ne hown, hshared]
  · simp [apply, hwake, hspawn, wakeThreads]

/-! ## The result -/

theorem peaceful_run {m : Machine} {hist : List (Stage × Change)} {size : Nat} {stem : String} {dispatches : Bool}
    (r : Run (·.kept) (fresh size stem dispatches) hist m) : m.Peaceful := by
  refine (r.keeps (I := Peaceful) (sound_fresh size stem dispatches) ?_ ?_).2
  · exact ⟨orderly_fresh size stem dispatches, meek_fresh size stem dispatches, joins_fresh size stem dispatches⟩
  · rintro a b w - h mv hk
    exact ⟨orderly_move h.orderly mv hk, meek_move h.orderly h.meek mv, joins_move h.orderly.custody h.joins mv⟩

/-- **No thread joins itself, and no threads wait for each other.** As long as nobody gives up the pool itself: whoever
joins holds no lock and does not join itself; a stop that is called on a worker is never on the way to the settling, so it
joins nobody, and none of its steps changes the stage or anything else in the pool; there is no cycle of threads of which
each waits for a lock or the end of the next; whoever holds a lock, or somebody it waits for in turn, can go on; and a
thread inside a call can make its next step, waits for another thread, or rests until it is told. -/
theorem no_deadlock {m : Machine} {hist : List (Stage × Change)} {size : Nat} {stem : String} {dispatches : Bool}
    (r : Run (·.kept) (fresh size stem dispatches) hist m) :
    (∀ t th rest below, m.threads[t]? = some th → th.stack = .stop (.join rest) :: below →
      t ∉ rest ∧ ∀ l, m.shared.owner l ≠ some t) ∧
    (∀ t th, m.threads[t]? = some th → th.worker.isSome → (∃ f ∈ th.stack, f.kind = .stop) →
      (∀ f ∈ th.stack, f.closes = false) ∧
        ∀ ch m', m.move (.step t ch) = some m' → m.wins? (.step t ch) = none ∧ m.LeftAlone m' t) ∧
    (∀ t, ¬ Relation.TransGen m.WaitsFor t t) ∧
    (∀ l u, m.shared.owner l = some u →
      ∃ v, Relation.ReflTransGen m.WaitsFor u v ∧ ∀ ch, (m.move (.step v ch)).isSome) ∧
    ∀ t th f below, m.threads[t]? = some th → th.stack = f :: below →
      (∃ ch, (m.move (.step t ch)).isSome) ∨ (∃ u, m.WaitsFor t u) ∨ f.rests := by
  have h := peaceful_run r
  refine ⟨fun t th rest below ht hs => ?_, fun t th ht hw hstop => h.stop_on_worker ht hw hstop, h.acyclic,
    fun l u ho => h.orderly.sound.goes_on ho, fun t th f below ht hs => stands ht hs⟩
  obtain ⟨-, hself, hempty⟩ := h.joiner ht hs
  exact ⟨hself, hempty⟩

/-- the only worker is inside a job that stops the pool, while another thread has collected its handle and joins it -/
def stoppedTwice : List Move :=
  [Move.enter, .enter, .call 0 .start] ++ steps 0 10 ++ [Move.call 0 (.post ⟨"a", [.other .stop], false⟩)] ++ steps 0 3 ++
    steps 2 6 ++ [Move.call 1 .stop] ++ steps 1 17 ++ steps 2 4

theorem no_deadlock_while_stopping : ∃ hist m, Run (·.kept) (fresh 1 "w" true) hist m ∧
    hist = [(.stopped, .start), (.running, .shutdown)] ∧ m.WaitsFor 1 2 ∧ (∀ l, m.shared.owner l ≠ some 1) ∧
    m.shared.owner .parking = some 2 ∧ (∃ m', m.move (.step 2 {}) = some m' ∧ m.LeftAlone m' 2) ∧
    (¬ Relation.TransGen m.WaitsFor 2 2) ∧ ∃ v, Relation.ReflTransGen m.WaitsFor 2 v ∧ (m.move (.step v {})).isSome := by
  have hf : ((fresh 1 "w" true).follow kept [] stoppedTwice).map
      (fun (p : List (Stage × Change) × Machine) => (p.1, (p.2.threads[1]?).map Thread.stack,
        (p.2.threads[2]?).map fun (th : Thread) => (th.worker, th.life, th.stack.map Frame.kind),
        p.2.shared.owner .parking, (p.2.move (.step 2 {})).isSome)) =
      some ([(Stage.stopped, Change.start), (.running, .shutdown)], some [Frame.stop (.join [2])],
        some (some 0, Life.active, [Kind.shutdown, .stop, .job, .drive .run, .worker 0]), some 2, true) := by cbv
  obtain ⟨⟨hist, m⟩, hf, hp⟩ := Option.map_eq_some_iff.1 hf
  have r := run_follow .rest hf
  simp only [Prod.mk.injEq] at hp
  obtain ⟨hhist, hjoins, hworker, howner, hstep⟩ := hp
  obtain ⟨th, ht, hs⟩ := Option.map_eq_some_iff.1 hjoins
  obtain ⟨u, hu, hstack⟩ := Option.map_eq_some_iff.1 hworker
  simp only [Prod.mk.injEq] at hstack
  obtain ⟨hindex, hlife, hkinds⟩ := hstack
  obtain ⟨m', hmove⟩ := Option.isSome_iff_exists.1 hstep
  obtain ⟨hjoiner, hcommand, hcycle, hgo, -⟩ := no_deadlock r
  have hstop : ∃ f ∈ u.stack, f.kind = .stop := List.mem_map.1 (by simp [hkinds])
  obtain ⟨v, hchain, hv⟩ := hgo .parking 2 howner
  exact ⟨hist, m, r, hhist, .join ht hs hu hlife, (hjoiner 1 th [2] [] ht hs).2, howner,
    ⟨m', hmove, ((hcommand 2 u hu (by simp [hindex]) hstop).2 {} m' hmove).2⟩, hcycle 2, v, hchain, hv {}⟩

end Machine

end SecureEndpoint.Workers
