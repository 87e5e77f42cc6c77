/-
A paused pool is quiet.

A caller that waits for the pause holds the parking lock when it compares the counters. The count of the parked is the
number of workers that sleep then (`Census`), the number of workers to wait for is the size of the pool, and an active
worker has its handle among the others (`Custody`). So if as many are parked as there are to wait for, they are all there.
- `wait_finds_all_asleep`: when the wait succeeds, the stage is paused and every worker of the pool sleeps; until the next
  start or resume none of them drives the dispatcher.
-/
import SecureEndpoint.Proofs.Workers.Custody

namespace SecureEndpoint.Workers

/-! ## Counting the parked -/

/-- a worker that is counted as parked -/
def Frame.parks : Frame → Bool
  | .worker _ p => match p with
    | .parkTell | .parkSleep | .asleep _ | .unpark => true
    | _ => false
  | _ => false

theorem countable_parks : Countable Frame.parks where
  calm f := by
    unfold Frame.calm
    split <;> rfl
  born _ := rfl
  called c := by cases c <;> rfl

theorem parks_receive (f : Frame) (v : Value) : (f.receive v).parks = f.parks := by
  unfold Frame.receive
  split <;> rfl

theorem parks_hosts {f : Frame} (h : f.hosts) : f.parks = false := by
  unfold Frame.hosts at h
  split at h <;> first | rfl | cases h

/-- a step changes the counter as it changes the number of parked workers -/
theorem Transition.parks {m : Machine} {t : ThreadId} {f : Frame} {e : Effect} (h : Transition m t f e)
    (hpos : f.parks → 0 < m.shared.parked) :
    e.shared.parked + [f].countP Frame.parks = m.shared.parked + e.own.frames.countP Frame.parks := by
  cases h with
  | take h => cases h <;> rfl
  | @whim mode n p w => cases w <;> rfl
  | jobCall h =>
    cases h with
    | call c => cases c <;> rfl
    | meet | hold => rfl
  | unpark => exact Nat.sub_add_cancel (hpos rfl)
  | _ => rfl

/-! ## The number of workers to wait for -/

/-- what the last step of a stop says about the stage -/
def Frame.Settled (s : Shared) : Frame → Prop
  | .stop .settled => s.stage = .stopped
  | _ => True

theorem guarded_settled : Guarded .parking Frame.Settled where
  free {s f} h := by
    unfold Frame.Settled
    split
    · exact absurd (by simp [Frame.locks]) h
    · trivial
  same {s s' f} hs h := by
    unfold Frame.Settled at h ⊢
    rw [hs.2.1]
    exact h
  calm {s f} := by
    unfold Frame.calm
    split <;> exact Iff.rfl
  receive {s f} v h := by
    unfold Frame.receive
    split <;> exact h

theorem Transition.settling {m : Machine} {t : ThreadId} {f : Frame} {e : Effect} (h : Transition m t f e)
    (hc : f.closes → m.shared.stage = .closing) : ∀ g ∈ e.own.frames, g.Settled e.shared := by
  cases h with
  | take h => exact each_become (by cases h <;> trivial)
  | @whim mode n p w =>
    cases w with
    | leave => exact each_ret
    | handOut j => exact each_call trivial trivial
    | panic => exact each_unwind
  | jobCall h => exact each_call (guarded_settled.free (by simp [h.locks])) trivial
  | settle => exact each_become rfl
  | settleRefused h => exact absurd (hc rfl) h
  | _ => first
    | exact each_ret
    | exact each_unwind
    | exact each_become trivial
    | exact each_call trivial trivial

/-- whoever makes a pool run that did not is a start, which has still to remember the number of its workers -/
theorem Transition.beginning {m : Machine} {t : ThreadId} {f : Frame} {e : Effect} (h : Transition m t f e)
    (before : ¬ (m.shared.stage = .running ∨ m.shared.stage = .paused))
    (after : e.shared.stage = .running ∨ e.shared.stage = .paused) : e.own = .become (.start .mark) := by
  cases h with
  | take h => cases h <;> exact absurd after before
  | @whim mode n p w => cases w <;> exact absurd after before
  | started => rfl
  | paused h => exact absurd (.inl h) before
  | resumed h => exact absurd (.inr h) before
  | shut hs h => exact absurd (h ▸ hs) before
  | settle => exact absurd after (by simp [Shared.goto])
  | _ => exact absurd after before

namespace Machine

/-- the counters are what they stand for -/
structure Census (m : Machine) : Prop where
  parked : m.shared.parked = m.tally Frame.parks
  settled : m.Everywhere Frame.Settled
  /-- a started pool waits for all its workers, once the start has said so -/
  spawned : m.shared.stage = .running ∨ m.shared.stage = .paused →
    m.shared.spawned = m.shared.size ∨ ∃ t, .start .mark ∈ m.stackOf t

theorem census_fresh (size : Nat) (stem : String) (dispatches : Bool) : (fresh size stem dispatches).Census := by
  refine ⟨?_, everywhere_fresh _ size stem dispatches, ?_⟩
  · simp [fresh, tally, frames, roster]
  · simp [fresh]

section Step

variable {m m' : Machine} {t : ThreadId} {th : Thread} {f : Frame} {below : List Frame} {e : Effect}

theorem parked_step (hm : m.Sound) (h : m.shared.parked = m.tally Frame.parks) (s : m.StepOf m' t th f below e) :
    e.shared.parked = m'.tally Frame.parks := by
  have hcount := tally_own countable_parks parks_receive (fun _ => parks_hosts) hm.formed s
  have hstep := s.go.parks fun hp => by
    rw [h]
    exact tally_pos s.mem ((countable_parks.calm f).trans hp)
  omega

theorem spawned_step (hm : m.Governed) (h : m.Census) (s : m.StepOf m' t th f below e)
    (hstage : m'.shared.stage = .running ∨ m'.shared.stage = .paused) :
    m'.shared.spawned = m'.shared.size ∨ ∃ t, .start .mark ∈ m'.stackOf t := by
  rw [s.writes.spawned, s.writes.size]
  by_cases hmark : f = .start .mark
  · subst hmark
    exact .inl rfl
  by_cases hsettled : f = .stop .settled
  · subst hsettled
    have hstop : m.shared.stage = .stopped := h.settled t _ s.mem
    rw [s.writes.stage] at hstage
    change m.shared.stage = _ ∨ m.shared.stage = _ at hstage
    rw [hstop] at hstage
    exact absurd hstage (by simp)
  have hsame : f.spawnedAfter m.shared = m.shared.spawned := by
    unfold Frame.spawnedAfter
    split
    · exact absurd rfl hmark
    · exact absurd rfl hsettled
    · rfl
  rw [hsame]
  by_cases hbefore : m.shared.stage = .running ∨ m.shared.stage = .paused
  · rcases h.spawned hbefore with hall | ⟨i, hi⟩
    · exact .inl hall
    · exact .inr ⟨i, mem_keep s hm.sound.formed rfl hi fun _ hf => hmark hf.symm⟩
  · rw [s.stage] at hstage
    refine .inr ⟨t, ?_⟩
    rw [s.after, s.go.beginning hbefore hstage]
    exact .head _

end Step

/-- whatever happens, the counter of the parked stays what it stands for -/
theorem parked_move {m m' : Machine} {w : Option (Stage × Change)} (hm : m.Sound)
    (h : m.shared.parked = m.tally Frame.parks) (mv : m.Moved m' w) : m'.shared.parked = m'.tally Frame.parks := by
  cases mv with
  | @step t th f below e s =>
    rw [← parked_step hm h s, s.shared]
    cases e.own <;> rfl
  | still gates hsh hr =>
    rw [tally_still hr, hsh]
    exact h
  | call c ht hwk hs hsh hr =>
    rw [tally_call countable_parks ht hs hr, hsh]
    exact h
  | enter hsh hr =>
    rw [tally_enter hr, hsh]
    exact h

theorem census_move {m m' : Machine} {w : Option (Stage × Change)} (hm : m.Governed) (h : m.Census) (mv : m.Moved m' w) :
    m'.Census := by
  refine ⟨parked_move hm.sound h.parked mv, ?_, ?_⟩
  · exact everywhere_move guarded_settled hm.sound.owned h.settled mv fun {t f e} go _ hmem _ =>
      go.settling fun hc => hm.closer.closing hmem ((countable_closes.calm f).trans hc)
  cases mv with
  | step s => exact spawned_step hm h s
  | still gates hsh hr =>
    rw [hsh, funext (stackOf_still hr)]
    exact h.spawned
  | @call t th c ht hwk hs hsh hr =>
    rw [hsh]
    intro hp
    rcases h.spawned hp with hall | ⟨i, hi⟩
    · exact .inl hall
    · refine .inr ⟨i, ?_⟩
      rw [stackOf_call ht hr]
      split
      · rename_i hit
        simp [hit, stackOf, ht, hs] at hi
      · exact hi
  | enter hsh hr =>
    rw [hsh, funext (stackOf_enter hr)]
    exact h.spawned

end Machine

/-! ## Who is counted sleeps -/

/-- a worker that is not in its loop lies there alone -/
theorem Nested.alone {w : Option Nat} {stack : List Frame} {i : Nat} {p : WorkerPlace} (h : Nested w stack)
    (hmem : .worker i p ∈ stack) (hp : p ≠ .observe) : w = some i ∧ stack = [.worker i p] := by
  induction h with
  | idle => cases hmem
  | worker =>
    cases List.mem_singleton.1 hmem
    exact ⟨rfl, rfl⟩
  | outside hc =>
    rw [← List.mem_singleton.1 hmem] at hc
    cases hc
  | call lower hc ih =>
    rcases List.mem_cons.1 hmem with rfl | hmem
    · cases hc with
      | action hc => cases hc
    · obtain ⟨rfl, heq⟩ := ih hmem
      cases heq
      generalize Frame.kind _ = k at hc
      cases hc
      exact absurd rfl hp

/-- the thread is inside the wait of a parked worker -/
def Thread.sleeps (th : Thread) : Bool :=
  match th.stack with
  | [.worker _ (.asleep _)] => true
  | _ => false

theorem Thread.sleeps_iff {th : Thread} : th.sleeps ↔ ∃ i b, th.stack = [.worker i (.asleep b)] := by
  unfold sleeps
  split
  · rename_i i b h
    exact ⟨fun _ => ⟨i, b, h⟩, fun _ => rfl⟩
  · rename_i h
    exact ⟨nofun, fun ⟨i, b, hs⟩ => absurd hs (h i b)⟩

theorem calm_asleep {f : Frame} {i : Nat} {b : Bool} (h : f.calm = .worker i (.asleep b)) :
    ∃ b, f = .worker i (.asleep b) := by
  unfold Frame.calm at h
  split at h <;> first | (cases h; exact ⟨_, rfl⟩) | cases h

theorem Thread.sleeps_calm {th : Thread} (h : th.calm.sleeps) : th.sleeps := by
  obtain ⟨i, b, hs⟩ := sleeps_iff.1 h
  obtain ⟨f, hf, hfc⟩ := List.map_eq_singleton_iff.1 hs
  obtain ⟨b, rfl⟩ := calm_asleep hfc
  exact sleeps_iff.2 ⟨i, b, hf⟩

/-- whoever is counted as parked but does not sleep holds the parking lock -/
theorem parks_cases {f : Frame} (h : f.parks) : (∃ i b, f = .worker i (.asleep b)) ∨ .parking ∈ f.locks := by
  unfold Frame.parks at h
  split at h
  · split at h
    · exact .inr (.head _)
    · exact .inr (.head _)
    · exact .inl ⟨_, _, rfl⟩
    · exact .inr (.head _)
    · cases h
  · cases h

/-- where each entry contributes one or nothing, the count is that of the entries that do -/
theorem countP_flatMap_eq {α β : Type} {p : β → Bool} {g : α → List β} {q : α → Bool} {l : List α}
    (h : ∀ a ∈ l, (g a).countP p = if q a then 1 else 0) : (l.flatMap g).countP p = l.countP q := by
  induction l with
  | nil => rfl
  | cons a l ih =>
    rw [List.flatMap_cons, List.countP_append, List.countP_cons, h a (.head _), ih fun b hb => h b (.tail _ hb),
      Nat.add_comm]

namespace Machine

variable {m : Machine}

/-- while no parked worker holds the parking lock, the parked workers are those that sleep -/
theorem parked_sleep (hm : m.Formed) (hfree : ∀ t, ∀ f ∈ m.stackOf t, f.parks → .parking ∉ f.locks) :
    m.tally Frame.parks = m.roster.countP Thread.sleeps := by
  refine countP_flatMap_eq fun th hth => ?_
  obtain ⟨t, ht⟩ := List.getElem?_of_mem hth
  have hstack : m.stackOf t = th.stack := by simp [stackOf, ht]
  by_cases hs : th.sleeps
  · obtain ⟨i, b, heq⟩ := Thread.sleeps_iff.1 hs
    rw [if_pos hs, heq]
    rfl
  · rw [if_neg hs, List.countP_eq_zero]
    intro f hf hp
    rcases parks_cases hp with ⟨i, b, rfl⟩ | hl
    · exact hs (Thread.sleeps_iff.2 ⟨i, b, ((hm th hth).nested.alone hf (by simp)).2⟩)
    · exact hfree t f (hstack ▸ hf) hp hl

/-- **Everybody sleeps.** If as many workers sleep as the pool is large, then these are all its workers, and each has its
handle among the handles. -/
theorem Governed.all_asleep (hm : m.Governed) (hstage : m.shared.stage ≠ .closing)
    (hall : m.roster.countP Thread.sleeps = m.shared.size) : m.shared.handles.length = m.shared.size ∧
      ∀ t, t ∈ m.shared.handles ∨ m.ActiveWorker t → ∃ th, m.roster[t]? = some th ∧ th.sleeps := by
  obtain ⟨places, hnodup, hlen, hmem⟩ := exists_places Thread.sleeps m.roster
  -- nobody is being joined
  have henrolled : ∀ t, m.ActiveWorker t → t ∈ m.shared.handles := fun t ht => by
    rcases hm.custody.enrolled t ht with hin | ⟨i, rest, hj, -⟩
    · exact hin
    · exact absurd (hm.closer.closing hj rfl) hstage
  have hsub : places ⊆ m.shared.handles := by
    intro t ht
    obtain ⟨th, hth, hs⟩ := (hmem t).1 ht
    obtain ⟨i, b, heq⟩ := Thread.sleeps_iff.1 hs
    have hn := (hm.sound.formed th (List.mem_of_getElem? hth)).nested
    rw [heq] at hn
    exact henrolled t ⟨th, hth, by rw [hn.isWorker.1]; rfl, by rw [heq]; nofun⟩
  have hroom := hm.custody.room
  have hperm : places.Perm m.shared.handles := (List.subperm_of_subset hnodup hsub).perm_of_length_le (by omega)
  refine ⟨by rw [← hperm.length_eq]; omega, fun t ht => (hmem t).1 (hperm.mem_iff.2 ?_)⟩
  exact ht.elim id (henrolled t)

end Machine

/-! ## Nobody begins to work -/

/-- the thread is no worker, or one that does nothing but its own loop -/
def Thread.Resting (th : Thread) : Prop := th.worker.isSome → ∀ f ∈ th.stack, ∃ i, f.kind = .worker i

namespace Machine

/-- the pool does not run, and no worker drives the dispatcher -/
structure Quiet (m : Machine) : Prop where
  stage : m.shared.stage ≠ .running
  resting : ∀ th ∈ m.roster, th.Resting

/-- a worker calls nobody while the pool does not run -/
theorem step_rests {m : Machine} {t : ThreadId} {i : Nat} {p : WorkerPlace} {e : Effect}
    (h : Transition m t (.worker i p) e) (hstage : m.shared.stage ≠ .running) :
    ∀ g ∈ e.own.stack [], g.kind = .worker i := by
  have hfit := h.fits
  cases hw : e.own with
  | become g =>
    rw [hw] at hfit
    intro k hk
    rw [List.mem_singleton.1 hk]
    exact hfit
  | call g callee =>
    cases h with
    | run h => exact absurd h hstage
    | _ => cases hw
  | ret v => nofun
  | unwind => nofun

theorem quiet_move {m m' : Machine} {w : Option (Stage × Change)} (hm : m.Sound) (h : m.Quiet) (mv : m.Moved m' w)
    (hw : ∀ x ∈ w, x.2 ≠ .start ∧ x.2 ≠ .resume) : m'.Quiet := by
  have hstage : m'.shared.stage ≠ .running := by
    rcases move_stage mv with ⟨-, hsame⟩ | ⟨c, rfl, hlegal⟩
    · rw [hsame]
      exact h.stage
    · obtain ⟨hstart, hresume⟩ := hw _ rfl
      intro hrun
      rw [hrun] at hlegal
      cases c with
      | start => exact hstart rfl
      | pause => exact absurd (Stage.after_pause.1 hlegal).2 (by decide)
      | resume => exact hresume rfl
      | shutdown => exact absurd (Stage.after_shutdown.1 hlegal).2 (by decide)
      | settle => exact absurd (Stage.after_settle.1 hlegal).2 (by decide)
  refine ⟨hstage, fun u hu => ?_⟩
  cases mv with
  | @step t th f below e s =>
    rw [s.roster, List.mem_append] at hu
    rcases hu with hu | hu
    · rcases List.mem_or_eq_of_mem_set hu with hu | rfl
      · exact h.resting u hu
      · intro hworker g hg
        obtain ⟨i, hkind⟩ := h.resting th.calm (List.mem_of_getElem? s.entry) hworker f.calm
          (by simp [Thread.calm, s.top])
        rw [kind_calm] at hkind
        cases f <;> cases hkind
        obtain ⟨k, hk, rfl⟩ := List.mem_map.1 hg
        rw [(s.nested hm.formed).isWorker.2] at hk
        exact ⟨i, (kind_calm k).trans (step_rests s.go h.stage k hk)⟩
    · obtain ⟨k, -, rfl⟩ : ∃ k, _ ∧ newWorker k = u := by simpa using hu
      intro _ f hf
      rw [List.mem_singleton.1 hf]
      exact ⟨k, rfl⟩
  | still gates hsh hr => exact h.resting u (hr ▸ hu)
  | call c ht hwk hs hsh hr =>
    rw [hr] at hu
    rcases List.mem_or_eq_of_mem_set hu with hu | rfl
    · exact h.resting u hu
    · intro hworker
      cases hworker
  | enter hsh hr =>
    rw [hr, List.mem_append] at hu
    rcases hu with hu | hu
    · exact h.resting u hu
    · rw [List.mem_singleton.1 hu]
      intro hworker
      cases hworker

theorem quiet_run {ok : Machine → Prop} {m m' : Machine} {hist : List (Stage × Change)} (hm : m.Sound) (h : m.Quiet)
    (r : Run ok m hist m') (hh : ∀ x ∈ hist, x.2 ≠ .start ∧ x.2 ≠ .resume) : m'.Quiet := by
  refine (r.keeps_hist (I := fun hist m => (∀ x ∈ hist, x.2 ≠ .start ∧ x.2 ≠ .resume) → m.Quiet) hm
    (fun _ => h) ?_).2 hh
  intro hist a b w ha hq mv _ hall
  refine quiet_move ha (hq fun x hx => hall x (List.mem_append_left _ hx)) mv fun x hx => hall x ?_
  exact List.mem_append_right _ (by simpa using hx)

/-! ## The result -/

theorem census_run {m : Machine} {hist : List (Stage × Change)} {size : Nat} {stem : String} {dispatches : Bool}
    (r : Run (·.kept) (fresh size stem dispatches) hist m) : m.Orderly ∧ m.Census := by
  refine (r.keeps (I := fun m => m.Orderly ∧ m.Census) (sound_fresh size stem dispatches) ?_ ?_).2
  · exact ⟨orderly_fresh size stem dispatches, census_fresh size stem dispatches⟩
  · rintro a b w - ⟨h, hc⟩ mv hk
    exact ⟨orderly_move h mv hk, census_move h.toGoverned hc mv⟩

/-- a wait for the pause succeeds where it compares the counters and finds them equal -/
theorem step_waited {m : Machine} {t : ThreadId} {limit : Nat} {expired : Bool} {p : WaitPlace} {e : Effect}
    (h : Transition m t (.waitPaused limit expired p) e) (hv : e.own = .ret (.flag true)) :
    p = .compare ∧ m.shared.parked = m.shared.live ∧ m.shared.live = m.shared.spawned := by
  cases h with
  | waitDone h => exact ⟨rfl, h⟩
  | _ => cases hv

/-- whoever compares the counters and finds as many parked as there are to wait for finds the whole pool asleep -/
theorem Census.compared {m : Machine} {t : ThreadId} {limit : Nat} {below : List Frame} (hm : m.Orderly) (h : m.Census)
    (htop : m.stackOf t = .waitPaused limit false .compare :: below) (heq : m.shared.parked = m.shared.spawned) :
    m.shared.stage = .paused ∧ m.roster.countP Thread.sleeps = m.shared.size := by
  have hsees : (Frame.waitPaused limit false .compare).Sees m.shared :=
    hm.sound.sees t _ (by rw [htop]; exact .head _)
  have hpaused : m.shared.stage = .paused := hsees
  -- the parking lock is here, so no worker holds it and no start is about to remember its number
  have hlock : ∀ i, ∀ f ∈ m.stackOf i, .parking ∈ f.locks → f = .waitPaused limit false .compare := by
    obtain ⟨hlow, helse⟩ := hm.sound.owned.alone (l := .parking) htop (by simp [Frame.locks])
    intro i f hf hl
    by_cases hi : i = t
    · rw [hi, htop] at hf
      rcases List.mem_cons.1 hf with rfl | hf
      · rfl
      · exact absurd hl (hlow f hf)
    · exact absurd hl (helse i hi f hf)
  have hspawned : m.shared.spawned = m.shared.size := by
    rcases h.spawned (.inr hpaused) with hall | ⟨i, hi⟩
    · exact hall
    · cases hlock i _ hi (by simp [Frame.locks])
  refine ⟨hpaused, ?_⟩
  calc m.roster.countP Thread.sleeps = m.tally Frame.parks :=
        (parked_sleep hm.sound.formed fun i f hf hp hl => by cases hlock i f hf hl; cases hp).symm
    _ = m.shared.parked := h.parked.symm
    _ = m.shared.size := heq.trans hspawned

/-- where everybody sleeps, every worker has ended or sleeps -/
theorem Orderly.asleep_or_ended {m : Machine} (hm : m.Orderly) (hstage : m.shared.stage ≠ .closing)
    (hall : m.roster.countP Thread.sleeps = m.shared.size) {u : Thread} (hu : u ∈ m.roster) (hworker : u.worker.isSome) :
    u.stack = [] ∨ u.sleeps := by
  obtain ⟨i, hi⟩ := List.getElem?_of_mem hu
  by_cases hempty : u.stack = []
  · exact .inl hempty
  · obtain ⟨v, hv, hsleeps⟩ := (hm.all_asleep hstage hall).2 i (.inr ⟨u, hi, hworker, hempty⟩)
    cases hi.symm.trans hv
    exact .inr hsleeps

/-- where everybody sleeps, nobody drives the dispatcher -/
theorem Orderly.quiet {m : Machine} (hm : m.Orderly) (hstage : m.shared.stage = .paused)
    (hall : m.roster.countP Thread.sleeps = m.shared.size) : m.Quiet := by
  refine ⟨by rw [hstage]; nofun, fun u hu hworker f hf => ?_⟩
  rcases hm.asleep_or_ended (by rw [hstage]; nofun) hall hu hworker with hempty | hsleeps
  · rw [hempty] at hf
    cases hf
  · obtain ⟨j, b, hstack⟩ := Thread.sleeps_iff.1 hsleeps
    rw [hstack, List.mem_singleton] at hf
    exact ⟨j, by rw [hf]; rfl⟩

/-- **A successful wait finds everybody asleep.** Whenever a wait for the pause is about to return `true`: the stage is
paused; there are as many handles as the pool is large, and each is that of a worker that sleeps; every other worker that
there ever was has ended; and from here on, until the next start or resume, no worker leaves its own loop. -/
theorem wait_finds_all_asleep {m : Machine} {hist : List (Stage × Change)} {size : Nat} {stem : String}
    {dispatches : Bool} (r : Run (·.kept) (fresh size stem dispatches) hist m) {t : ThreadId} {ch : Choice} {th : Thread}
    {limit : Nat} {expired : Bool} {p : WaitPlace} {below : List Frame} {e : Effect} (ht : m.threads[t]? = some th)
    (hs : th.stack = .waitPaused limit expired p :: below) (he : (Frame.waitPaused limit expired p).step m t ch = some e)
    (hv : e.own = .ret (.flag true)) :
    m.shared.stage = .paused ∧ m.shared.handles.length = size ∧
      (∀ k i : Nat, m.shared.handles[k]? = some i →
        ∃ u b, m.threads[i]? = some u ∧ u.worker = some k ∧ u.stack = [.worker k (.asleep b)]) ∧
      (∀ u ∈ m.threads, u.worker.isSome → u.stack = [] ∨ ∃ k b, u.stack = [.worker k (.asleep b)]) ∧
      ∀ ok hist' m', Run ok m hist' m' → (∀ x ∈ hist', x.2 ≠ .start ∧ x.2 ≠ .resume) →
        m'.shared.stage ≠ .running ∧ ∀ u ∈ m'.threads, u.Resting := by
  obtain ⟨hm, hcensus⟩ := census_run r
  have hsize := (orderly_run r).2.1
  obtain ⟨rfl, hparked, hlive⟩ := step_waited (step_transition he (hm.sound.sees_top ht hs)) hv
  obtain ⟨hpaused, hcount⟩ := hcensus.compared hm (stackOf_top ht hs) (hparked.trans hlive)
  have hopen : m.shared.stage ≠ .closing := by rw [hpaused]; nofun
  obtain ⟨hlen, hasleep⟩ := hm.all_asleep hopen hcount
  refine ⟨hpaused, hlen.trans hsize, fun k i hk => ?_, fun u hu hworker => ?_, fun ok hist' m' r' hh => ?_⟩
  · obtain ⟨v, hv, hsleeps⟩ := hasleep i (.inl (List.mem_of_getElem? hk))
    obtain ⟨v', hv', hname⟩ := hm.custody.named k i hk
    cases hv.symm.trans hv'
    obtain ⟨u, hu, rfl⟩ := roster_thread hv
    obtain ⟨j, b, hstack⟩ := Thread.sleeps_iff.1 (Thread.sleeps_calm hsleeps)
    have hn := (hm.sound.formed.thread hu).nested
    rw [hstack] at hn
    have hj : u.worker = some j := hn.isWorker.1
    cases hj.symm.trans hname
    exact ⟨u, b, hu, hname, hstack⟩
  · rcases hm.asleep_or_ended hopen hcount (List.mem_map_of_mem hu) hworker with hempty | hsleeps
    · exact .inl (by simpa [Thread.calm] using hempty)
    · exact .inr (Thread.sleeps_iff.1 (Thread.sleeps_calm hsleeps))
  · obtain ⟨hstage, hrest⟩ := quiet_run hm.sound (hm.quiet hpaused hcount) r' hh
    refine ⟨hstage, fun u hu hworker f hf => ?_⟩
    obtain ⟨i, hkind⟩ := hrest u.calm (List.mem_map_of_mem hu) hworker f.calm (List.mem_map_of_mem hf)
    exact ⟨i, (kind_calm f).symm.trans hkind⟩

/-- one worker already sleeps for a job when the pool is paused, the other has not begun; both park, and the first is
woken for no reason while somebody waits for the pause -/
def pausedHalfway : List Move :=
  [Move.enter, .enter, .call 0 .start] ++ steps 0 11 ++ steps 2 5 ++ [Move.call 1 .pause] ++ steps 1 7 ++ steps 2 8 ++
    steps 3 8 ++ [Move.wake 2, .call 0 (.waitPaused 100)] ++ steps 0 2

theorem wait_finds_all_asleep_halfway : ∃ hist m, Run (·.kept) (fresh 2 "w" true) hist m ∧
    hist = [(.stopped, .start), (.running, .pause)] ∧ m.shared.stage = .paused ∧ m.shared.handles = [2, 3] ∧
    (∃ u b, m.threads[2]? = some u ∧ u.stack = [.worker 0 (.asleep b)]) ∧
    ∃ u b, m.threads[3]? = some u ∧ u.stack = [.worker 1 (.asleep b)] := by
  have hf : ((fresh 2 "w" true).follow kept [] pausedHalfway).map
      (fun p => (p.1, (p.2.threads[0]?).map (·.stack), p.2.shared.parked, p.2.shared.live, p.2.shared.spawned,
        p.2.shared.handles)) =
      some ([(.stopped, .start), (.running, .pause)], some [.waitPaused 100 false .compare], 2, 2, 2, [2, 3]) := by cbv
  obtain ⟨⟨hist, m⟩, hf, hp⟩ := Option.map_eq_some_iff.1 hf
  have r := run_follow .rest hf
  simp only [Prod.mk.injEq] at hp
  obtain ⟨hhist, hstack, hparked, hlive, hspawned, hhandles⟩ := hp
  obtain ⟨th, ht, hs⟩ := Option.map_eq_some_iff.1 hstack
  have he : (Frame.waitPaused 100 false .compare).step m 0 {} = some ((m.shared.release .parking).ret (.flag true)) := by
    simp [Frame.step, stepWaitPaused, hparked, hlive, hspawned]
  obtain ⟨hstage, -, hasleep, -, -⟩ := wait_finds_all_asleep r ht hs he rfl
  obtain ⟨u, b, hu, -, hus⟩ := hasleep 0 2 (by rw [hhandles]; rfl)
  obtain ⟨v, c, hv, -, hvs⟩ := hasleep 1 3 (by rw [hhandles]; rfl)
  exact ⟨hist, m, r, hhist, hstage, hhandles, ⟨u, b, hu, hus⟩, v, c, hv, hvs⟩

end Machine

end SecureEndpoint.Workers
