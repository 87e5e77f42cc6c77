/-
Nobody sleeps through a change of stage.

A worker of a paused pool sleeps until it is told that the stage has changed; a worker without a job sleeps until it is
told that there is one, or that the dispatcher was stopped. Whoever makes the change tells the sleepers afterwards, and
between the two it stands at a place that says so (`Frame.announces`, `Frame.summons`). A worker falls asleep under the
lock under which the change is made, so it is either told, or the change is still to be announced (`Alert`).
- `alert_move`: this stays so.
- `Alert.poised`: in a pool that does not run and whose parking lock is free, every worker is parked, inside a job, gone,
  or needs at most a lock to go on.
- `nobody_oversleeps`: both, and what it means for whoever pauses the pool or shuts it down.
-/
import Mathlib
import SecureEndpoint.Proofs.Workers.Dispatch
import SecureEndpoint.Proofs.Workers.Enrolment
import SecureEndpoint.Proofs.Workers.Reactor
import SecureEndpoint.Proofs.Workers.Sleepers
import SecureEndpoint.Proofs.Workers.Waiting

namespace SecureEndpoint.Workers

/-! ## Changes that are still to be announced -/

/-- has made the pool leave the paused stage, and has still to tell the parked workers -/
def Frame.announces : Frame → Bool
  | .resume .tell => true
  | .shutdown p => match p with
    | .ask | .answered _ | .tellResumed => true
    | _ => false
  | _ => false

theorem underLock_announces : UnderLock Frame.announces where
  calm f := by unfold Frame.calm; split <;> rfl
  born _ := rfl
  called c := by cases c <;> rfl
  receive f v := by unfold Frame.receive; split <;> rfl
  hosts h := by
    unfold Frame.hosts at h
    split at h <;> first | rfl | cases h
  locks h := by
    unfold Frame.announces at h
    split at h
    · exact .head _
    · split at h <;> first | exact .head _ | cases h
    · cases h

/-- has stopped the dispatcher, and has still to tell the idle runners -/
def Frame.summons : Frame → Bool
  | .halt .tell => true
  | _ => false

theorem summons_iff {f : Frame} : f.summons ↔ f = .halt .tell := by
  unfold Frame.summons
  split
  · exact ⟨fun _ => rfl, fun _ => rfl⟩
  · rename_i h
    exact ⟨nofun, fun hf => absurd hf h⟩

theorem leaf_summons : Leaf Frame.summons where
  calls h := by cases h <;> rfl
  receive f v := by unfold Frame.receive; split <;> rfl
  born _ := rfl
  called c := by cases c <;> rfl

theorem roused_summons : Roused Frame.summons := by
  intro w f h
  rw [summons_iff.1 h]
  cases w <;> rfl

theorem Frame.Stirs.summons {f g : Frame} (h : f.Stirs g) : f.summons = false := by
  cases f with
  | halt p => rcases h with h | h <;> cases h
  | _ => rfl

namespace Transition

variable {m : Machine} {t : ThreadId} {f : Frame} {e : Effect}

/-- a worker parks in a paused pool only -/
theorem parking (h : Transition m t f e) (hs : f.Sees m.shared) :
    e.own.frames.countP Frame.dozes = 0 ∨ e.shared.stage = .paused := by
  cases h with
  | take h => cases h <;> exact .inl rfl
  | @whim mode n p w => cases w <;> exact .inl rfl
  | jobCall h =>
    cases h with
    | call c => cases c <;> exact .inl rfl
    | meet | hold => exact .inl rfl
  | parkSleep => exact .inr hs
  | _ => exact .inl rfl

/-- whoever makes a paused pool leave this stage has still to announce it -/
theorem leaving_pause (h : Transition m t f e) (hp : m.shared.stage = .paused) :
    e.shared.stage = .paused ∨ 0 < e.own.frames.countP Frame.announces := by
  cases h with
  | take h => cases h <;> exact .inl hp
  | @whim mode n p w => cases w <;> exact .inl hp
  | started h | paused h | settle h => exact absurd (hp.symm.trans h) (by decide)
  | resumed | shut => exact .inr Nat.one_pos
  | _ => exact .inl hp

/-- an announcement is made, or is still to be made -/
theorem announcing (h : Transition m t f e) (hf : f.announces) :
    0 < e.own.frames.countP Frame.announces ∨ e.wake = .parked := by
  cases h with
  | take h => cases h <;> cases hf
  | resumeTell | tellResumed => exact .inr rfl
  | shutAsk | shutHalted | shutHalt => exact .inl Nat.one_pos
  | _ => cases hf

/-- a loop falls asleep on a dispatcher that goes on and has no job -/
theorem idling (h : Transition m t f e) : e.own.frames.countP Frame.isIdleRunner = 0 ∨
    e.shared.dispatcher.stopped = false ∧ (m.shared.dispatches = true → e.shared.dispatcher.queue = []) := by
  cases h with
  | take h => cases h <;> exact .inl rfl
  | @whim mode n p w => cases w <;> exact .inl rfl
  | jobCall h =>
    cases h with
    | call c => cases c <;> exact .inl rfl
    | meet | hold => exact .inl rfl
  | lookSleep h empty => exact .inr ⟨h, empty⟩
  | _ => exact .inl rfl

/-- whoever stops the dispatcher has still to tell the idle runners -/
theorem halting (h : Transition m t f e) (hs : m.shared.dispatcher.stopped = false) :
    e.shared.dispatcher.stopped = false ∨ 0 < e.own.frames.countP Frame.summons := by
  cases h with
  | take h => cases h <;> exact .inl hs
  | @whim mode n p w => cases w <;> exact .inl hs
  | halted => exact .inr Nat.one_pos
  | revived => exact .inl rfl
  | _ => exact .inl hs

theorem summoning (h : Transition m t f e) (hf : f.summons) : e.wake = .runners := by
  obtain rfl := summons_iff.1 hf
  cases h with
  | take h => cases h
  | haltTell => rfl

end Transition

/-! ## Nobody sleeps through -/

namespace Machine

/-- whoever sleeps has no reason to wake up, or somebody is about to tell it -/
structure Alert (m : Machine) : Prop where
  parked : 0 < m.tops Frame.dozes → m.shared.stage = .paused ∨ 0 < m.tally Frame.announces
  idle : 0 < m.tops Frame.isIdleRunner → m.shared.dispatcher.stopped = false ∨ 0 < m.tops Frame.summons

theorem alert_fresh (size : Nat) (stem : String) (dispatches : Bool) : (fresh size stem dispatches).Alert :=
  ⟨nofun, nofun⟩

section Step

variable {m m' : Machine} {t : ThreadId} {th : Thread} {f : Frame} {below : List Frame} {e : Effect}

theorem alert_parked (hm : m.Sound) (h : m.Alert) (s : m.StepOf m' t th f below e)
    (threads : m'.threads = m.afterStep t th below e) (sleeper : 0 < m'.tops Frame.dozes) :
    m'.shared.stage = .paused ∨ 0 < m'.tally Frame.announces := by
  have hcount := tops_wake_le leaf_dozes lulled_dozes hm.formed s threads
  have htally := underLock_announces.own hm.formed s
  rw [s.stage]
  rcases s.go.parking s.sees with hnone | hpaused
  · -- nobody new sleeps, so somebody slept before
    rcases h.parked (by omega) with hpaused | hannounced
    · refine (s.go.leaving_pause hpaused).imp_right fun hnew => ?_
      have : [f].countP Frame.announces ≤ 1 := List.countP_le_length
      by_cases hf : f.announces
      · have hpos : 0 < m.tally Frame.announces := tally_pos s.mem ((underLock_announces.calm f).trans hf)
        omega
      · rw [List.countP_singleton, if_neg hf] at htally
        omega
    · by_cases hf : f.announces
      · rcases s.go.announcing hf with hnew | hwake
        · rw [List.countP_singleton, if_pos hf] at htally
          exact .inr (by omega)
        · -- the announcement leaves no sleeper
          rw [tops_wake_all leaf_dozes (by rw [hwake]; exact dozes_wake_parked) (by rw [hwake]; nofun)
            (by rw [hwake]; nofun) threads] at sleeper
          cases sleeper
      · rw [List.countP_singleton, if_neg hf] at htally
        exact .inr (by omega)
  · exact .inl hpaused

theorem alert_idle (hm : m.Sound) (h : m.Alert) (s : m.StepOf m' t th f below e)
    (threads : m'.threads = m.afterStep t th below e) (sleeper : 0 < m'.tops Frame.isIdleRunner) :
    m'.shared.dispatcher.stopped = false ∨ 0 < m'.tops Frame.summons := by
  by_cases hf : f.summons
  · -- the stop that is told leaves no sleeper
    have hwake := s.go.summoning hf
    rw [tops_wake_all leaf_idle (by rw [hwake]; exact idle_wake_runners) (by rw [hwake]; nofun)
      (by rw [hwake]; nofun) threads] at sleeper
    cases sleeper
  · have hcount := tops_wake_le leaf_idle lulled_idle hm.formed s threads
    have htold := le_tops_wake leaf_summons roused_summons hm.formed s threads
    rw [List.countP_singleton (a := f) (p := Frame.summons), if_neg hf] at htold
    rw [s.dispatcher]
    rcases s.go.idling with hnone | ⟨hfree, -⟩
    · rcases h.idle (by omega) with hfree | htell
      · exact (s.go.halting hfree).imp_right fun hnew => by omega
      · exact .inr (by omega)
    · exact .inl hfree

end Step

theorem alert_move {m m' : Machine} (hm : m.Sound) (h : m.Alert) (mv : m.Stirred m') : m'.Alert := by
  cases mv with
  | step s threads => exact ⟨alert_parked hm h s threads, alert_idle hm h s threads⟩
  | @stir t th f g below thread top stirs hsh hr threads =>
    have hdozes := tops_stir (p := Frame.dozes) thread top threads
    have hidle := tops_stir (p := Frame.isIdleRunner) thread top threads
    have hsummons := tops_stir (p := Frame.summons) thread top threads
    simp [List.countP_singleton, stirs.dozes, stirs.idle, stirs.summons] at hdozes hidle hsummons
    refine ⟨fun hs => ?_, fun hs => ?_⟩
    · rw [hsh, tally_still hr]
      exact h.parked (by omega)
    · rw [hsh]
      exact (h.idle (by omega)).imp_right fun htell => by omega
  | calm gates hsh tops tally =>
    refine ⟨fun hs => ?_, fun hs => ?_⟩
    · rw [tops leaf_dozes] at hs
      rw [hsh, tally underLock_announces.toCountable]
      exact h.parked hs
    · rw [tops leaf_idle] at hs
      rw [hsh, tops leaf_summons]
      exact h.idle hs

theorem alert_run {ok : Machine → Prop} {m : Machine} {hist : List (Stage × Change)} {size : Nat} {stem : String}
    {dispatches : Bool} (r : Run ok (fresh size stem dispatches) hist m) : m.Sound ∧ m.Alert :=
  r.keeps_stirred (sound_fresh size stem dispatches) (alert_fresh size stem dispatches) fun hm _ h mv =>
    alert_move hm h mv

/-- a dispatcher that only the pool stops is stopped under the parking lock -/
theorem Sound.summoned {m : Machine} (hm : m.Sound) (hp : m.poolOnly) (hfree : m.shared.parkingOwner = none) :
    m.tops Frame.summons = 0 := by
  rw [tops_zero]
  intro th hth htop
  obtain ⟨t, ht⟩ := List.getElem?_of_mem hth
  cases hs : th.stack with
  | nil => simp [Thread.topIs, hs] at htop
  | cons f below =>
    rw [topIs_top hs] at htop
    obtain rfl := summons_iff.1 htop
    have hn := (hm.formed.thread ht).nested
    have hd := List.all_eq_true.1 hp th hth
    rw [hs] at hn hd
    obtain ⟨g, hg, hl⟩ := pool_calls hn hd (.inl rfl)
    have hmem : g.calm ∈ m.stackOf t := by
      rw [stackOf_top ht hs]
      exact .tail _ (List.mem_map_of_mem hg)
    have howner := hm.owned.mine hmem (l := .parking) (by simpa using hl)
    cases hfree.symm.trans howner

/-! ## Before the first start -/

/-- a pool that was never started has no workers, and nobody creates any -/
structure Unstarted (m : Machine) : Prop where
  stage : m.shared.stage = .stopped
  workers : ∀ th ∈ m.roster, th.worker = none
  spawning : ∀ t k, .start (.spawn k) ∉ m.stackOf t

theorem unstarted_move {m m' : Machine} (h : m.Unstarted) (mv : m.Moved m' none) : m'.Unstarted := by
  have hstage : m'.shared.stage = .stopped := by
    rcases move_stage mv with ⟨-, hsame⟩ | ⟨c, hc, -⟩
    · rw [hsame]
      exact h.stage
    · cases hc
  generalize (none : Option (Stage × Change)) = w at mv
  cases mv with
  | @step t th f below e s =>
    refine ⟨hstage, fun u hu => ?_, fun i k hk => ?_⟩
    · rw [s.roster, List.mem_append] at hu
      rcases hu with hu | hu
      · rcases List.mem_or_eq_of_mem_set hu with hu | rfl
        · exact h.workers u hu
        · exact h.workers th.calm (List.mem_of_getElem? s.entry)
      · obtain ⟨k, hk, -⟩ : ∃ k, e.spawn = some k ∧ newWorker k = u := by simpa using hu
        obtain ⟨rfl, -⟩ := s.go.spawned hk
        exact absurd s.mem (h.spawning t k)
    · rcases mem_step s rfl hk with ⟨-, hg⟩ | ⟨hg, -⟩
      · rcases (s.go.leading _ hg).spawning k rfl with rfl | ⟨j, rfl⟩
        · -- a start that goes on to create workers has made the pool running
          exact absurd (h.stage.symm.trans s.sees.1) (by decide)
        · exact h.spawning t j s.mem
      · exact h.spawning i k hg
  | still gates hsh hr => exact ⟨hstage, fun u hu => h.workers u (hr ▸ hu), fun i k hk => h.spawning i k (stackOf_still hr i ▸ hk)⟩
  | call c ht hwk hs hsh hr =>
    refine ⟨hstage, fun u hu => ?_, fun i k hk => ?_⟩
    · rw [hr] at hu
      rcases List.mem_or_eq_of_mem_set hu with hu | rfl
      · exact h.workers u hu
      · rfl
    · rw [stackOf_call ht hr] at hk
      split at hk
      · cases c <;> simp [Call.frame] at hk
      · exact h.spawning i k hk
  | enter hsh hr =>
    refine ⟨hstage, fun u hu => ?_, fun i k hk => h.spawning i k (stackOf_enter hr i ▸ hk)⟩
    rw [hr, List.mem_append] at hu
    rcases hu with hu | hu
    · exact h.workers u hu
    · rw [List.mem_singleton.1 hu]

/-- no change of stage means that there was no start -/
theorem unstarted_run {ok : Machine → Prop} {m : Machine} {size : Nat} {stem : String} {dispatches : Bool}
    (r : Run ok (fresh size stem dispatches) [] m) : m.Unstarted := by
  refine (r.keeps_hist (I := fun h m => h = [] → m.Unstarted) (sound_fresh size stem dispatches) ?_ ?_).2 rfl
  · exact fun _ => ⟨rfl, nofun, fun t k hk => by simp [fresh, stackOf, roster] at hk⟩
  · intro h a b w _ hi mv _ hnil
    obtain ⟨hh, hw⟩ := List.append_eq_nil_iff.1 hnil
    obtain rfl : w = none := by simpa using hw
    exact unstarted_move (hi hh) mv

end Machine

/-! ## What a worker needs to go on -/

/-- where a worker without a job stands -/
theorem Nested.worker_cases {i : Nat} {stack : List Frame} (h : Nested (some i) stack) :
    stack = [] ∨ (∃ p, stack = [.worker i p]) ∨ (∃ n p, stack = [.drive .run n p, .worker i .observe]) ∨
      ∃ f ∈ stack, f.isJob := by
  generalize hw : some i = w at h
  induction h with
  | idle => exact .inl rfl
  | @worker j p =>
    cases hw
    exact .inr (.inl ⟨p, rfl⟩)
  | outside _ => cases hw
  | @call w f g rest lower hc ih =>
    rcases ih hw with hnil | ⟨p, hs⟩ | ⟨n, p, hs⟩ | ⟨b, hb, hjob⟩
    · cases hnil
    · cases hs
      cases hk : f.kind <;> rw [hk] at hc <;> cases hc
      cases f <;> cases hk
      exact .inr (.inr (.inl ⟨_, _, rfl⟩))
    · cases hs
      refine .inr (.inr (.inr ⟨f, .head _, ?_⟩))
      cases hk : f.kind <;> rw [hk] at hc <;> cases hc
      simp [Frame.isJob, hk]
    · exact .inr (.inr (.inr ⟨b, .tail _ hb, hjob⟩))

namespace Machine

/-- the machine with a lock given back by whoever holds it -/
def unlock (m : Machine) (l : Lock) : Machine := { m with shared := m.shared.release l }

/-- whatever the system decides, thread `t` can make its next step at once, or as soon as another thread gives a lock
back; it needs no wake-up -/
def Ready (m : Machine) (t : ThreadId) : Prop :=
  ∀ ch, (m.move (.step t ch)).isSome ∨
    ∃ l u, m.shared.owner l = some u ∧ u ≠ t ∧ ((m.unlock l).move (.step t ch)).isSome

/-- every worker is parked in a paused pool, inside a job, gone, or ready -/
def Poised (m : Machine) : Prop := ∀ t th i, m.threads[t]? = some th → th.worker = some i →
  m.shared.stage = .paused ∧ th.stack = [.worker i (.asleep false)] ∨ (∃ f ∈ th.stack, f.isJob) ∨ th.life ≠ .active ∨
    m.Ready t

/-- a worker outside of a job that does not rest needs at most a lock -/
theorem Sound.ready {m : Machine} (hm : m.Sound) {t : ThreadId} {th : Thread} {f : Frame} {below : List Frame}
    (ht : m.threads[t]? = some th) (hs : th.stack = f :: below)
    (hk : (∃ i, f.kind = .worker i) ∨ ∃ mode, f.kind = .drive mode) (hrests : f.rests = false) : m.Ready t := by
  intro ch
  rcases f.waits_for m t with ⟨l, g, htakes⟩ | ⟨k, rest, rfl⟩ | h | ⟨j, rfl⟩ | hgo
  · cases ho : m.shared.owner l with
    | none => exact .inl (move_isSome ht hs (htakes.step m t ch ho))
    | some u =>
      refine .inr ⟨l, u, ho, fun hut => hm.waits_for_others ht hs htakes (hut ▸ ho), ?_⟩
      exact move_isSome (m := m.unlock l) ht hs (htakes.step _ t ch (by simp [unlock, Shared.release]))
  · rcases hk with ⟨i, hk⟩ | ⟨mode, hk⟩ <;> cases hk
  · cases hrests.symm.trans h
  · rcases hk with ⟨i, hk⟩ | ⟨mode, hk⟩ <;> cases hk
  · exact .inl (move_isSome ht hs (hgo ch))

/-- where nobody sleeps who should not, every worker is parked, inside a job, gone or ready -/
theorem Sound.poised {m : Machine} (hm : m.Sound) (parked : 0 < m.tops Frame.dozes → m.shared.stage = .paused)
    (idle : ∀ th ∈ m.threads, th.worker.isSome → ¬ th.topIs Frame.isIdleRunner) : m.Poised := by
  intro t th i ht hworker
  have hth := hm.formed.thread ht
  have hmem := List.mem_of_getElem? ht
  have hn := hth.nested
  rw [hworker] at hn
  rcases hn.worker_cases with hs | ⟨p, hs⟩ | ⟨n, p, hs⟩ | hjob
  · exact .inr (.inr (.inl (hth.ended.2 ⟨by rw [hworker]; rfl, hs⟩)))
  · cases hrests : (Frame.worker i p).rests with
    | true =>
      obtain rfl := Frame.rests_worker hrests
      exact .inl ⟨parked (tops_pos.2 ⟨th, hmem, by simp [topIs_top hs, Frame.dozes]⟩), hs⟩
    | false => exact .inr (.inr (.inr (hm.ready ht hs (.inl ⟨i, rfl⟩) hrests)))
  · cases hrests : (Frame.drive .run n p).rests with
    | true =>
      obtain rfl := Frame.rests_drive hrests
      exact absurd (by simp [topIs_top hs, Frame.isIdleRunner]) (idle th hmem (by rw [hworker]; rfl))
    | false => exact .inr (.inr (.inr (hm.ready ht hs (.inr ⟨.run, rfl⟩) hrests)))
  · exact .inr (.inl hjob)

/-- with the parking lock free, nobody is left to be told -/
theorem Alert.poised {m : Machine} {hist : List (Stage × Change)} (hm : m.Sound) (h : m.Alert) (hb : m.Books hist)
    (hp : m.poolOnly) (unstarted : hist = [] → m.Unstarted) (hfree : m.shared.parkingOwner = none)
    (hstage : m.shared.stage ≠ .running) : m.Poised := by
  refine hm.poised (fun hs => ?_) fun th hth hworker htop => ?_
  · exact (h.parked hs).resolve_right (by simp [underLock_announces.free hm.owned hfree])
  · have hgoes : m.shared.dispatcher.stopped = false :=
      (h.idle (tops_pos.2 ⟨th, hth, htop⟩)).resolve_right (by simp [hm.summoned hp hfree])
    have hcalls : m.shared.calls = hist.flatMap effectOf := by
      have hbal := hb.balanced
      simpa [Balanced, holding, hfree, owed, ahead] using hbal
    obtain ⟨-, hstopped, hsettled⟩ := hb.halted hcalls
    have hhalted : m.shared.dispatcher.stopped = true := by
      cases hg : m.shared.stage with
      | running => exact absurd hg hstage
      | paused => exact hstopped (.inl hg)
      | closing => exact hstopped (.inr hg)
      | stopped =>
        refine hsettled hg fun hnil => ?_
        have hnone := (unstarted hnil).workers th.calm (List.mem_map_of_mem hth)
        have hno : th.worker = none := hnone
        rw [hno] at hworker
        cases hworker
    cases hgoes.symm.trans hhalted

/-! ## The end of a pause and of a shutdown -/

/-- the next step of thread `t` ends an activation of kind `k` -/
def Ends (m : Machine) (t : ThreadId) (ch : Choice) (k : Kind) : Prop :=
  ∃ th f below e v, m.threads[t]? = some th ∧ th.stack = f :: below ∧ f.step m t ch = some e ∧ e.own = .ret v ∧ f.kind = k

/-- a pause and the step to the last stage end with the parking lock free and a pool that does not run -/
theorem step_ends {m : Machine} {t : ThreadId} {f : Frame} {e : Effect} {v : Value} (h : Transition m t f e)
    (hs : f.Sees m.shared) (hv : e.own = .ret v) (hk : f.kind = .pause ∨ f.kind = .shutdown) :
    e.shared.parkingOwner = none ∧ e.shared.stage ≠ .running := by
  cases h with
  | pauseIgnored h => exact ⟨rfl, h⟩
  | pauseRelease => exact ⟨rfl, fun h => absurd (h.symm.trans hs) (by decide)⟩
  | shutIdle h => exact ⟨rfl, fun hr => absurd (hr.symm.trans h) (by decide)⟩
  | shutLate h => exact ⟨rfl, fun hr => absurd (hr.symm.trans h) (by decide)⟩
  | tellParked => exact ⟨rfl, fun h => absurd (h.symm.trans hs) (by decide)⟩
  | _ => first | (rcases hk with hk | hk <;> cases hk; done) | cases hv

theorem directed_tail {k : Kind} {below : List Kind} (h : directed (k :: below)) (hk : k ≠ .halt ∧ k ≠ .revive) :
    directed below := by
  obtain ⟨hhalt, hrevive⟩ := hk
  unfold directed at h
  split at h <;> simp_all

theorem poolOnly_of_stacks {m : Machine} (h : ∀ t, directed ((m.stackOf t).map Frame.kind)) : m.poolOnly := by
  refine List.all_eq_true.2 fun th hth => ?_
  obtain ⟨t, ht⟩ := List.getElem?_of_mem hth
  simpa [stackOf, roster, ht, Thread.calm] using h t

/-- whatever ends, the dispatcher stays with the pool -/
theorem poolOnly_ends {m m' : Machine} {t : ThreadId} {th : Thread} {f : Frame} {below : List Frame} {e : Effect} {v : Value}
    (hp : m.poolOnly) (s : m.StepOf m' t th f below e) (hv : e.own = .ret v)
    (hk : f.kind ≠ .halt ∧ f.kind ≠ .revive) : m'.poolOnly := by
  refine poolOnly_of_stacks fun i => ?_
  have hd := poolOnly_stack hp
  rw [s.stackAt]
  split
  · rw [kinds_stack s.go.fits, hv]
    have hbefore := hd t
    rw [s.before, List.map_cons, kind_calm, List.map_map, kind_comp_calm] at hbefore
    exact directed_tail hbefore hk
  · split
    · cases e.spawn <;> rfl
    · exact hd i

/-! ## The result -/

/-- **Nobody oversleeps.** As long as only the pool stops and restarts its dispatcher: whenever the parking lock is free, a
worker that sleeps in the wait of a paused pool and was not told to wake up finds the pool paused; a loop that sleeps on the
dispatcher and was not told finds it going on, or whoever stopped it is about to tell; and in a pool that does not run,
every worker is parked, inside a job, gone, or needs at most a lock for its next step. A pause and a shutdown leave the pool
like this. -/
theorem nobody_oversleeps {m : Machine} {hist : List (Stage × Change)} {size : Nat} {stem : String} {dispatches : Bool}
    (r : Run (·.poolOnly) (fresh size stem dispatches) hist m) :
    (m.shared.parkingOwner = none → ∀ th ∈ m.threads, th.topIs Frame.dozes → m.shared.stage = .paused) ∧
      (∀ th ∈ m.threads, th.topIs Frame.isIdleRunner →
        m.shared.dispatcher.stopped = false ∨ ∃ u ∈ m.threads, u.topIs Frame.summons) ∧
      (m.shared.parkingOwner = none → m.shared.stage ≠ .running → m.Poised) ∧
      ∀ t ch m', (m.Ends t ch .pause ∨ m.Ends t ch .shutdown) → m.move (.step t ch) = some m' →
        m'.shared.parkingOwner = none ∧ m'.shared.stage ≠ .running ∧ m'.Poised := by
  have poised : ∀ {a hist}, Run (·.poolOnly) (fresh size stem dispatches) hist a → a.poolOnly →
      a.shared.parkingOwner = none → a.shared.stage ≠ .running → a.Poised := by
    intro a hist r hp hfree hstage
    obtain ⟨hm, halert⟩ := alert_run r
    refine halert.poised hm (books_run r).2 hp (fun hnil => ?_) hfree hstage
    subst hnil
    exact unstarted_run r
  have hp : m.poolOnly := by
    cases r with
    | rest => rfl
    | move _ _ hok => exact hok
  obtain ⟨hm, halert⟩ := alert_run r
  refine ⟨fun hfree th hth htop => ?_, fun th hth htop => ?_, poised r hp, fun t ch m' hends hmove => ?_⟩
  · exact (halert.parked (tops_pos.2 ⟨th, hth, htop⟩)).resolve_right (by simp [underLock_announces.free hm.owned hfree])
  · exact (halert.idle (tops_pos.2 ⟨th, hth, htop⟩)).imp_right tops_pos.1
  · obtain ⟨th, f, below, e, v, ht, hs, he, hv, hk⟩ : ∃ th f below e v, m.threads[t]? = some th ∧ th.stack = f :: below ∧
        f.step m t ch = some e ∧ e.own = .ret v ∧ (f.kind = .pause ∨ f.kind = .shutdown) := by
      rcases hends with ⟨th, f, below, e, v, ht, hs, he, hv, hk⟩ | ⟨th, f, below, e, v, ht, hs, he, hv, hk⟩
      · exact ⟨th, f, below, e, v, ht, hs, he, hv, .inl hk⟩
      · exact ⟨th, f, below, e, v, ht, hs, he, hv, .inr hk⟩
    have hm' : m' = m.apply t th below e := by simpa [move, ht, hs, he] using hmove.symm
    have hsees := hm.sees_top ht hs
    have hgo := step_transition he hsees
    have s : m.StepOf m' t th f below e := by
      rw [hm']
      exact ⟨ht, hs, hsees, hgo, rfl, m.apply_roster t th below e⟩
    obtain ⟨hfree, hstage⟩ := step_ends hgo hsees hv hk
    have hp' : m'.poolOnly := poolOnly_ends hp s hv (by rcases hk with hk | hk <;> rw [hk] <;> decide)
    have hfree' : m'.shared.parkingOwner = none := by
      rw [s.shared, hv]
      exact hfree
    have hstage' : m'.shared.stage ≠ .running := by rwa [s.stage]
    exact ⟨hfree', hstage', poised (r.move hmove hp') hp' hfree' hstage'⟩

/-- of two workers one has taken a job that does not end and the other sleeps when the pool is paused -/
def pausedWhileBusy : List Move :=
  [Move.enter, .enter, .call 0 .start] ++ steps 0 11 ++ [Move.call 0 (.post ⟨"a", [.other (.hold "g")], false⟩)] ++
    steps 0 3 ++ steps 2 6 ++ steps 3 5 ++ [Move.call 1 .pause] ++ steps 1 6

/-- the pause has told the one that sleeps, which waits for nothing any more; the other one still has its job -/
theorem nobody_oversleeps_while_busy : ∃ hist m m', Run (·.poolOnly) (fresh 2 "w" true) hist m ∧
    m.move (.step 1 {}) = some m' ∧ m.Ends 1 {} .pause ∧ m'.shared.stage = .paused ∧
    (m'.threads[3]?).map (·.stack) = some [.drive .run 0 (.asleep true), .worker 1 .observe] ∧ m'.Poised ∧ m'.Ready 3 := by
  have hf : ((fresh 2 "w" true).follow poolOnly [] pausedWhileBusy).bind (fun p => (p.2.move (.step 1 {})).map fun m' =>
      ((p.2.threads[1]?).map (·.stack), m'.shared.stage, (m'.threads[3]?).map fun th => (th.worker, th.life, th.stack))) =
      some (some [.pause .release], .paused,
        some (some 1, .active, [.drive .run 0 (.asleep true), .worker 1 .observe])) := by cbv
  obtain ⟨⟨hist, m⟩, hf, hp⟩ := Option.bind_eq_some_iff.1 hf
  obtain ⟨m', hmove, hp⟩ := Option.map_eq_some_iff.1 hp
  simp only [Prod.mk.injEq] at hp
  obtain ⟨hstack, hstage, hthread⟩ := hp
  obtain ⟨th, ht, hs⟩ := Option.map_eq_some_iff.1 hstack
  obtain ⟨u, hu, hw⟩ := Option.map_eq_some_iff.1 hthread
  simp only [Prod.mk.injEq] at hw
  obtain ⟨hworker, hlife, hus⟩ := hw
  have r := run_follow .rest hf
  have hends : m.Ends 1 {} .pause := ⟨th, .pause .release, [], _, .unit, ht, hs, rfl, rfl, rfl⟩
  obtain ⟨-, -, hpoised⟩ := (nobody_oversleeps r).2.2.2 1 {} m' (.inl hends) hmove
  refine ⟨hist, m, m', r, hmove, hends, hstage, by rw [hu]; exact congrArg some hus, hpoised, ?_⟩
  rcases hpoised 3 u 1 hu hworker with ⟨-, hparked⟩ | ⟨f, hf, hjob⟩ | hgone | hready
  · cases hus.symm.trans hparked
  · rw [hus] at hf
    rcases List.mem_cons.1 hf with rfl | hf
    · cases hjob
    · rw [List.mem_singleton.1 hf] at hjob
      cases hjob
  · exact absurd hlife hgone
  · exact hready

end Machine

end SecureEndpoint.Workers
