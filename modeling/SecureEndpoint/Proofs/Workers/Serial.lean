/-
A pool that one thread commands.

One thread starts, pauses, resumes and stops the pool, in any order and as often as it likes, while the workers go their
way and the system may refuse to create any thread.
- `session_run`: this is a run in which only the pool calls its dispatcher, so everything known of those holds here.
- `Course.goes_on`: as long as a call is under way and there are no jobs, somebody can make a step. Whoever holds a lock
  that the call wants can go on, and a worker that a stop waits for was told to leave.
- `session_returns`: so a call returns, whatever the order of the steps.
- `serial_contract`: what the calls come to, one after the other.
- `unsettled_run`: with more callers, how long a failed start takes down nothing but its own.
-/
import SecureEndpoint.Proofs.Workers.Returning

namespace SecureEndpoint.Workers

namespace Machine

/-! ## A session is a run -/

section

variable {m : Machine} {t : ThreadId} {size : Nat} {stem : String} {dispatches : Bool} {done : List Finished}
  {doing : Option Pending}

/-- nobody but the pool calls its dispatcher, and a stop waits for workers only -/
theorem session_run (name : stem.contains '\x00' = false) (s : Session t (fresh size stem dispatches) done doing m) :
    (∃ hist, Run (·.poolOnly) (fresh size stem dispatches) hist m) ∧ m.Joins := by
  -- every step of a session is a move between two machines on their course
  have move : ∀ {a b : Machine} {mv : Move} {done done' : List Finished} {doing doing' : Option Pending},
      a.Course size stem t (fresh size stem dispatches).shared.core done doing →
      b.Course size stem t (fresh size stem dispatches).shared.core done' doing' → a.move mv = some b →
      (∃ hist, Run (·.poolOnly) (fresh size stem dispatches) hist a) ∧ a.Joins →
      (∃ hist, Run (·.poolOnly) (fresh size stem dispatches) hist b) ∧ b.Joins := by
    rintro a b mv done done' doing doing' ha hb hmove ⟨⟨hist, r⟩, hj⟩
    exact ⟨⟨_, r.move hmove (kept_of_ruled hb.ruled hb.commanding).2⟩,
      joins_move ha.orderly.custody hj (ha.orderly.sound.moved hmove)⟩
  induction s with
  | rest => exact ⟨⟨[], .rest⟩, joins_fresh size stem dispatches⟩
  | others s hmove hmv hr ih => exact move (session_course name s) (session_course name (.others s hmove hmv hr)) hmove ih
  | call s hmove ih => exact move (session_course name s) (session_course name (.call s hmove)) hmove ih
  | step s hmove hbusy ih => exact move (session_course name s) (session_course name (.step s hmove hbusy)) hmove ih
  | ret s hmove hidle ih => exact move (session_course name s) (session_course name (.ret s hmove hidle)) hmove ih

end

end Machine

/-! ## What a call waits for -/

/-- a worker outside of a job rests only where it is parked or waits for a job -/
theorem plain_rests {f : Frame} (h : f.plain) (hr : f.rests) : f.dozes ∨ f.isIdleRunner := by
  cases f with
  | worker i p =>
    obtain rfl := Frame.rests_worker hr
    exact .inl rfl
  | drive mode n p =>
    obtain rfl := Frame.rests_drive hr
    exact .inr rfl
  | _ => cases h

namespace Machine

section

variable {m : Machine} {t i : ThreadId} {th : Thread} {f g : Frame} {below : List Frame} {l : Lock}

/-- where the call does not hold the parking lock, the books are closed -/
theorem Undisturbed.settled {hist : List (Stage × Change)} (h : m.Undisturbed t) (hb : m.Books hist)
    (ho : m.shared.parkingOwner ≠ some t) : m.shared.calls = hist.flatMap effectOf := by
  have hquiet : owed m.shared.dispatcher.stopped m.holding = [] ∧ ahead m.holding = [] := by
    rw [holding]
    cases hown : m.shared.parkingOwner with
    | none => exact ⟨rfl, rfl⟩
    | some i =>
      have hplain := h.plain i fun hi => ho (hi ▸ hown)
      simp only
      cases hs : m.stackOf i with
      | nil => exact ⟨rfl, rfl⟩
      | cons f below =>
        rw [hs] at hplain
        have hf := hplain f (.head _)
        cases f <;> first | exact ⟨rfl, rfl⟩ | cases hf
  have hbal := hb.balanced
  rw [Balanced, hquiet.1, hquiet.2, List.append_nil, List.append_nil] at hbal
  exact hbal

end

end Machine

/-- whoever holds the parking lock of a running pool that has workers has made all its calls -/
theorem owes_nothing {s : Shared} {f : Frame} {below : List Frame} (halted : Bool)
    (holds : .parking ∈ f.locks ∨ ∃ g rest, below = g :: rest ∧ .parking ∈ g.locks ∧ g.Calls f.kind)
    (sees : ∀ g ∈ f :: below, g.Sees s) (enrols : ∀ g ∈ f :: below, g.Enrols s) (running : s.stage = .running)
    (workers : s.handles ≠ []) : owed halted (f :: below) = [] ∧ ahead (f :: below) = [] := by
  have elsewhere : ∀ {g : Stage}, g ≠ .running → s.stage ≠ g := fun hg hs => hg (hs.symm.trans running)
  rcases holds with hl | ⟨g, rest, rfl, hl, hc⟩
  · have hsees := sees f (.head _)
    have henrols := enrols f (.head _)
    cases f with
    | start p =>
      cases p with
      | mark => exact absurd henrols workers
      | _ => exact ⟨rfl, rfl⟩
    | shutdown p =>
      cases p with
      | ask | answered stopped => exact absurd hsees (elsewhere nofun)
      | _ => exact ⟨rfl, rfl⟩
    | resume p =>
      cases p with
      | reread => exact absurd hsees (elsewhere nofun)
      | swap seen next =>
        obtain ⟨rfl, rfl⟩ := Stage.after_resume.1 hsees.1
        exact absurd hsees.2 (elsewhere nofun)
      | _ => exact ⟨rfl, rfl⟩
    | halt p | ask q p | revive p => cases p <;> simp [Frame.locks] at hl
    | _ => exact ⟨rfl, rfl⟩
  · -- the one below has called the dispatcher, which a running pool with workers does not ask for
    have hsees := sees g (.tail _ (.head _))
    have henrols := enrols g (.tail _ (.head _))
    generalize f.kind = k at hc
    cases hc with
    | restart => exact absurd henrols workers
    | pause | resume | ask | halt => exact absurd hsees (elsewhere nofun)
    | unresume => exact hsees.elim
    | _ => simp [Frame.locks] at hl

namespace Machine

section

variable {m : Machine} {t i : ThreadId} {th : Thread} {f : Frame} {below : List Frame} {size : Nat} {stem : String} {k₀ : Core}
  {done : List Finished} {doing : Option Pending} {hist : List (Stage × Change)}

/-- a running pool that has workers has a dispatcher that goes on -/
theorem Course.keeps_going (c : m.Course size stem t k₀ done doing) (h : m.Undisturbed t) (hb : m.Books hist)
    (active : m.ActiveWorker i) (running : m.shared.stage = .running) : m.shared.dispatcher.stopped = false := by
  refine (hb.halted ?_).1 running
  by_cases ho : m.shared.parkingOwner = some t
  · have hworkers : m.shared.handles ≠ [] := by
      rcases c.orderly.custody.enrolled i active with hin | ⟨j, rest, hj, -⟩
      · exact List.ne_nil_of_mem hin
      · cases running.symm.trans (c.orderly.closer.closing hj rfl)
    obtain ⟨f, below, heq, hl⟩ := c.orderly.sound.owned.holder (l := .parking) c.orderly.sound.formed ho
    have hquiet := owes_nothing m.shared.dispatcher.stopped hl (fun g hg => c.orderly.sound.sees t g (heq ▸ hg))
      (fun g hg => c.orderly.custody.enrols t g (heq ▸ hg)) running hworkers
    have hbal := hb.balanced
    rw [Balanced, holding, ho] at hbal
    simp only [heq, hquiet.1, hquiet.2, List.append_nil] at hbal
    exact hbal
  · exact h.settled hb ho

/-- while a stop waits for a worker, somebody can make a step: that worker, or whoever it waits for in turn -/
theorem Course.worker_goes_on {k : ThreadId} {rest : List ThreadId} {u : Thread} (c : m.Course size stem t k₀ done doing)
    (h : m.Undisturbed t) (halert : m.Alert) (hb : m.Books hist) (hj : m.Joins) (ht : m.threads[t]? = some th)
    (hs : th.stack = .stop (.join (k :: rest)) :: below) (hu : m.threads[k]? = some u) (active : u.life = .active) :
    ∃ i ch, (m.move (.step i ch)).isSome := by
  have hm := c.orderly.sound
  have hmem : .stop (.join (k :: rest)) ∈ m.stackOf t := by
    rw [stackOf_top ht hs]
    exact .head _
  have hclosing : m.shared.stage = .closing := c.orderly.closer.closing hmem rfl
  have hempty := hm.empty_handed ht hs rfl (by simp [Frame.kind])
  -- the worker has an activation, and it is not the thread that waits
  obtain ⟨v, hv, hworker⟩ := hj t _ hmem k (.head _)
  have hentry : m.roster[k]? = some u.calm := by simp [roster, hu]
  obtain rfl : u.calm = v := Option.some.inj (hentry.symm.trans hv)
  have hformed := hm.formed.thread hu
  have hk : k ≠ t := by
    rintro rfl
    have hn := hm.formed.nested hentry
    rw [outside_of_commanding hn (List.ne_nil_of_mem hmem) c.commanding] at hworker
    cases hworker
  cases hstack : u.stack with
  | nil => exact absurd active (hformed.ended.2 ⟨hworker, hstack⟩)
  | cons f low =>
    have hplain := h.stack hk hu f (by rw [hstack]; exact .head _)
    have hin := List.mem_of_getElem? hu
    rcases stands hu hstack with ⟨ch, hgo⟩ | ⟨j, hwaits⟩ | hrests
    · exact ⟨k, ch, hgo⟩
    · cases hwaits with
      | lock wants held =>
        obtain ⟨v, -, hgo⟩ := hm.goes_on held
        exact ⟨v, {}, hgo {}⟩
      | join thread top joined active =>
        cases hu.symm.trans thread
        cases hstack.symm.trans top
        cases hplain
    · rcases plain_rests hplain hrests with hdozes | hidle
      · -- nobody parks in a closing pool
        rcases halert.parked (tops_pos.2 ⟨u, hin, (topIs_top hstack).trans hdozes⟩) with hpaused | hannounced
        · cases hclosing.symm.trans hpaused
        · obtain ⟨g, hg, hann⟩ := List.countP_pos_iff.1 hannounced
          obtain ⟨j, hgj⟩ := exists_mem_stackOf hg
          have howner := hm.owned.mine hgj (underLock_announces.locks hann)
          have hjt : j ≠ t := by
            rintro rfl
            exact hempty .parking howner
          have := h.plain j hjt g hgj
          cases g <;> first | (cases this; done) | cases hann
      · -- nobody waits for a job of a stopped dispatcher
        rcases halert.idle (tops_pos.2 ⟨u, hin, (topIs_top hstack).trans hidle⟩) with hfree | hsummons
        · have hhalted := (hb.halted (h.settled hb (hempty .parking))).2.1 (.inr hclosing)
          cases hfree.symm.trans hhalted
        · obtain ⟨v, hv, htop⟩ := tops_pos.1 hsummons
          obtain ⟨j, hv⟩ := List.getElem?_of_mem hv
          cases hvs : v.stack with
          | nil => simp [Thread.topIs, hvs] at htop
          | cons g rest =>
            rw [topIs_top hvs] at htop
            obtain rfl := summons_iff.1 htop
            by_cases hjt : j = t
            · subst hjt
              rw [ht] at hv
              cases hv
              cases hs.symm.trans hvs
            · exact absurd (h.stack hjt hv _ (by rw [hvs]; exact .head _)) (by simp [Frame.plain])

/-- **As long as a call is under way and there are no jobs, somebody can make a step.** -/
theorem Course.goes_on {u : Pending} (c : m.Course size stem t k₀ done (some u)) (h : m.Undisturbed t) (halert : m.Alert)
    (hb : m.Books hist) (hj : m.Joins) : ∃ i ch, (m.move (.step i ch)).isSome := by
  have hbusy : m.stackOf t ≠ [] := fun hnil => by
    have := c.busy u rfl
    rw [hnil] at this
    exact this
  cases ht : m.threads[t]? with
  | none => exact absurd (by simp [stackOf, roster, ht]) hbusy
  | some th =>
    cases hs : th.stack with
    | nil => exact absurd (by simp [stackOf, roster, ht, Thread.calm, hs]) hbusy
    | cons f below =>
      rcases stands ht hs with ⟨ch, hgo⟩ | ⟨j, hwaits⟩ | hrests
      · exact ⟨t, ch, hgo⟩
      · cases hwaits with
        | lock wants held =>
          obtain ⟨v, -, hgo⟩ := c.orderly.sound.goes_on held
          exact ⟨v, {}, hgo {}⟩
        | join thread top joined active => exact c.worker_goes_on h halert hb hj thread top joined active
      · -- a command never rests
        have hk := commanding_mem c.commanding f.kind (by rw [stackOf_top ht hs, List.map_cons, kind_calm]; exact .head _)
        cases f <;> first | (rcases hk with hk | hk <;> cases hk; done) | cases hrests

end

/-! ## Every call returns -/

/-- whatever steps the threads make, in whatever order and whatever the system decides about them, the goal is reached -/
inductive Inevitable (goal : Machine → Prop) : Machine → Prop
  | now {m} (h : goal m) : Inevitable goal m
  | later {m} (possible : ∃ i ch, (m.move (.step i ch)).isSome)
      (h : ∀ i ch m', m.move (.step i ch) = some m' → Inevitable goal m') : Inevitable goal m

section

variable {m m' : Machine} {t : ThreadId} {size : Nat} {stem : String} {k₀ : Core} {dispatches : Bool} {done : List Finished}
  {u : Pending}

/-- a step of the call itself brings it nearer to its end, and leaves the others alone -/
theorem Course.nearer {ch : Choice} (c : m.Course size stem t k₀ done (some u)) (name : stem.contains '\x00' = false)
    (h : m.Undisturbed t) (hmove : m.move (.step t ch) = some m') :
    m'.Undisturbed t ∧ distance size (m'.stackOf t) < distance size (m.stackOf t) := by
  obtain ⟨th, f, below, e, s, he, -, hrefusal⟩ := c.orderly.sound.stepped hmove
  have hcommanding := c.commanding
  rw [s.before, ← List.map_cons, List.map_map, kind_comp_calm] at hcommanding
  have hgoes := c.yields name s he hrefusal
  refine ⟨undisturbed_own h s (commanding_cons hcommanding).1, ?_⟩
  rw [s.after, s.before, ← List.map_cons, distance_calm, distance_calm]
  refine distance_own s.go (s.nested c.orderly.sound.formed) hcommanding c.settings.1 ?_ fun hu => ?_
  · rw [← c.settings.1]
    exact c.orderly.custody.room
  · rw [hu] at hgoes
    exact hgoes

end

/-- **Every call returns**, as long as there are no jobs. -/
theorem session_returns {m : Machine} {t : ThreadId} {size : Nat} {stem : String} {dispatches : Bool}
    {done : List Finished} {u : Pending} (name : stem.contains '\x00' = false)
    (s : Session t (fresh size stem dispatches) done (some u) m) (h : m.Undisturbed t) :
    Inevitable (fun m' => ∃ r, Session t (fresh size stem dispatches) (done ++ [⟨{ u with refusal := r }, m'⟩]) none m') m := by
  have c := session_course name s
  obtain ⟨⟨hist, r⟩, hjoins⟩ := session_run name s
  obtain ⟨-, hbooks⟩ := books_run r
  refine .later ?_ fun i ch m' hmove => ?_
  · exact c.goes_on h (alert_run r).2 hbooks hjoins
  by_cases hi : i = t
  · rw [hi] at hmove
    obtain ⟨hund, hnear⟩ := c.nearer name h hmove
    cases hidle : m'.isIdle t with
    | true => exact .now ⟨_, .ret s hmove hidle⟩
    | false => exact session_returns (u := u.met (m.refusal? t ch)) name (.step s hmove hidle) hund
  · -- the step of another thread, which brings that thread nearer to its sleep or its end
    obtain ⟨th, f, below, e, hs, -, hm', -⟩ := c.orderly.sound.stepped hmove
    have hmover : (Move.step i ch).mover? ≠ some t := fun he => hi (Option.some.inj he)
    obtain ⟨hund, hless⟩ := undisturbed_other h c.orderly.sound hs hi hm' fun hactive hrun =>
      c.keeps_going h hbooks hactive hrun
    have hsame := (c.orderly.sound.others c.ruled hmove hmover).1
    exact session_returns name (.others s hmove hmover hund.ruled) hund
termination_by (distance size (m.stackOf t), m.burden)
decreasing_by
  · exact Prod.Lex.left _ _ hnear
  · rw [hsame]
    exact Prod.Lex.right _ hless

/-! ## The result -/

/-- when a start returns what -/
theorem start_outcome {n : Nat} {k k' : Core} {r : Option Host.OsError} {v : Value} (h : Control.start.Comes n k r v k') :
    (v = .started (.ok ()) ↔ k.stage = .stopped ∧ r = none) ∧
      ((∃ g, v = .started (.error (.notStopped g))) ↔ k.stage ≠ .stopped) ∧
      ((∃ cause, v = .started (.error (.spawn cause))) ↔ k.stage = .stopped ∧ r.isSome) := by
  obtain rfl := h.answer
  by_cases hstage : k.stage = .stopped
  · cases r with
    | none => simp [Control.answer, hstage]
    | some cause => simp [Control.answer, hstage]
  · simp [Control.answer, hstage]

/-- **The contract of a pool that one thread commands.** Whatever the thread calls and whichever threads the system refuses
to create: each call begins with the stage, the counter, the handles and the dispatcher as the one before has left them, and
comes to what the table says, after which the pool is stopped without workers or has all of them (`Chain`, `Control.Comes`).
A start returns well exactly from a stopped pool with nothing refused, and says what was wrong otherwise. Between two calls
the stage is where the table leads to from all that was attempted. A stopped pool has no active worker; no step of a call
touches the counters of the workers or the jobs; and without jobs every call returns. -/
theorem serial_contract {m : Machine} {t : ThreadId} {size : Nat} {stem : String} {dispatches : Bool} {done : List Finished}
    {doing : Option Pending} (name : stem.contains '\x00' = false)
    (s : Session t (fresh size stem dispatches) done doing m) :
    Chain size t (fresh size stem dispatches).shared.core done (doing.elim m.shared.core (·.before.shared.core)) ∧
      (∀ u ∈ done, u.control = .start →
        (u.after.outcome t = some (.started (.ok ())) ↔ u.before.shared.stage = .stopped ∧ u.refusal = none) ∧
        ((∃ g, u.after.outcome t = some (.started (.error (.notStopped g)))) ↔ u.before.shared.stage ≠ .stopped) ∧
        ((∃ cause, u.after.outcome t = some (.started (.error (.spawn cause)))) ↔
          u.before.shared.stage = .stopped ∧ u.refusal.isSome)) ∧
      (doing = none → m.shared.core.Rested size ∧
        m.shared.stage = Stage.follow .stopped (done.flatMap fun u => u.control.attempts u.refusal)) ∧
      (m.shared.stage = .stopped → ∀ th ∈ m.threads, ¬ th.works) ∧
      (∀ ch m', doing.isSome → m.move (.step t ch) = some m' → m'.shared.parked = m.shared.parked ∧
        m'.shared.live = m.shared.live ∧ m'.shared.dispatcher.queue = m.shared.dispatcher.queue) ∧
      ∀ u, doing = some u → m.Undisturbed t → Inevitable
        (fun m' => ∃ r, Session t (fresh size stem dispatches) (done ++ [⟨{ u with refusal := r }, m'⟩]) none m') m := by
  have c := session_course name s
  refine ⟨c.chain, fun u hu hstart => ?_, ?_, fun hstop th hth hworks => ?_, fun ch m' hbusy hmove => ?_, ?_⟩
  · obtain ⟨v, hv, hcomes⟩ := c.chain.comes u hu
    rw [hstart] at hcomes
    simpa [hv, Shared.core] using start_outcome hcomes
  · rintro rfl
    exact ⟨c.chain.rested (Core.rested_fresh size), c.chain.stage⟩
  · obtain ⟨i, hi⟩ := List.getElem?_of_mem hth
    exact (c.orderly.stopped hstop).2 i (c.orderly.sound.formed.works hi hworks)
  · obtain ⟨th, f, below, e, hs, -⟩ := c.orderly.sound.stepped hmove
    have hk := commanding_mem c.commanding f.kind (by rw [hs.before, List.map_cons, kind_calm]; exact .head _)
    obtain ⟨hparked, hlive, hqueue⟩ := hs.go.aside hk
    have hcounts : m'.shared.parked = e.shared.parked ∧ m'.shared.live = e.shared.live := by
      rw [hs.shared]
      cases e.own <;> exact ⟨rfl, rfl⟩
    exact ⟨hcounts.1.trans hparked, hcounts.2.trans hlive, by rw [hs.dispatcher, hqueue]⟩
  · rintro u rfl hund
    exact session_returns name s hund

/-- a thread starts a pool of one worker, which the system refuses to create; it starts it again, pauses it, tries to start
it once more, and is about to stop it -/
def startedAgain : List Beat :=
  let own (n : Nat) : List Beat := List.replicate n (.step {})
  [.other .enter, .call .start] ++ own 8 ++ [.step { refuse := some .again }] ++ own 24 ++ [.call .start] ++ own 10 ++
    [.call .pause] ++ own 7 ++ [.call .start] ++ own 3 ++ [.call .stop]

theorem serial_contract_again : ∃ done u m, Session 0 (fresh 1 "w" true) done (some u) m ∧
    done.map (fun u => (u.control, u.refusal, u.after.shared.stage)) = [(.start, some .again, .stopped),
      (.start, none, .running), (.pause, none, .paused), (.start, none, .paused)] ∧
    Chain 1 0 (fresh 1 "w" true).shared.core done u.before.shared.core ∧ m.Undisturbed 0 ∧ Inevitable
      (fun m' => ∃ r, Session 0 (fresh 1 "w" true) (done ++ [⟨{ u with refusal := r }, m'⟩]) none m') m := by
  have hf : (startedAgain.foldlM (Beat.play 0) (([] : List Finished), (none : Option Pending), fresh 1 "w" true)).map
      (fun p => (p.1.map fun u => (u.control, u.refusal, u.after.shared.stage), p.2.1.map (·.control),
        p.2.2.threads.map (·.stack), p.2.2.shared.dispatches, p.2.2.shared.dispatcher.queue)) =
      some ([(.start, some .again, .stopped), (.start, none, .running), (.pause, none, .paused), (.start, none, .paused)],
        some .stop, [[.stop .want], [.worker 0 .enter]], true, []) := by cbv
  obtain ⟨⟨done, doing, m⟩, hf, hp⟩ := Option.map_eq_some_iff.1 hf
  simp only [Prod.mk.injEq] at hp
  obtain ⟨hdone, hdoing, hstacks, hdispatches, hqueue⟩ := hp
  obtain ⟨u, rfl, -⟩ := Option.map_eq_some_iff.1 hdoing
  have s : Session 0 (fresh 1 "w" true) done (some u) m := session_play .rest hf
  have hund : m.Undisturbed 0 := by
    refine ⟨hdispatches, hqueue, fun i hi f hf => ?_⟩
    have hstack : m.stackOf i = (((m.threads.map (·.stack))[i]?).getD []).map Frame.calm := by
      cases ht : m.threads[i]? <;> simp [stackOf, roster, ht, Thread.calm]
    rw [hstack, hstacks] at hf
    rcases i with _ | _ | i
    · exact absurd rfl hi
    · rw [List.mem_singleton.1 hf]
      rfl
    · cases hf
  obtain ⟨hchain, -, -, -, -, hreturns⟩ := serial_contract (by simp) s
  exact ⟨done, u, m, s, hdone, hchain, hund, hreturns u rfl hund⟩

/-! ## More than one caller -/

/-- Until somebody settles a pool that was started, nobody can start it again: whatever the clean-up of a failed start takes
down by then is its own. -/
theorem unsettled_run {ok : Machine → Prop} {m a : Machine} {hist : List (Stage × Change)} (hm : m.Sound)
    (started : m.shared.stage ≠ .stopped) (r : Run ok m hist a) (unsettled : ∀ g, (g, Change.settle) ∉ hist) :
    a.shared.stage ≠ .stopped ∧ ∀ g, (g, Change.start) ∉ hist := by
  refine (r.keeps_hist (I := fun hist a => (∀ g, (g, Change.settle) ∉ hist) →
    a.shared.stage ≠ .stopped ∧ ∀ g, (g, Change.start) ∉ hist) hm ?_ ?_).2 unsettled
  · exact fun _ => ⟨started, fun g hg => absurd hg List.not_mem_nil⟩
  · intro hist a b w _ ih mv _ hnot
    obtain ⟨hstage, hstart⟩ := ih fun g hg => hnot g (List.mem_append_left _ hg)
    rcases move_stage mv with ⟨rfl, hsame⟩ | ⟨c, rfl, hlegal⟩
    · rw [Option.toList_none, List.append_nil, hsame]
      exact ⟨hstage, hstart⟩
    · have hsettle : c ≠ .settle := by
        rintro rfl
        exact hnot _ (List.mem_append_right _ (.head _))
      -- only settling leads to the stopped stage, and only from there a start is legal
      have hnext : b.shared.stage ≠ .stopped ∧ c ≠ .start := by
        cases c with
        | start => exact absurd (Stage.after_start.1 hlegal).1 hstage
        | pause => exact ⟨by rw [(Stage.after_pause.1 hlegal).2]; decide, by decide⟩
        | resume => exact ⟨by rw [(Stage.after_resume.1 hlegal).2]; decide, by decide⟩
        | shutdown => exact ⟨by rw [(Stage.after_shutdown.1 hlegal).2]; decide, by decide⟩
        | settle => exact absurd rfl hsettle
      refine ⟨hnext.1, fun g hg => ?_⟩
      rcases List.mem_append.1 hg with hg | hg
      · exact hstart g hg
      · cases List.mem_singleton.1 hg
        exact hnext.2 rfl

/-- after that it may be somebody else's: between the refusal that the first start meets and its clean-up, a second thread
stops the pool and a third one starts it again -/
def undoneByAnother : List Move :=
  [Move.enter, .enter, .enter, .call 0 .start] ++ steps 0 8 ++ [Move.step 0 { refuse := some .again }, .call 1 .stop] ++
    steps 1 22 ++ [Move.call 2 .start] ++ steps 2 10 ++ steps 0 18 ++ steps 3 6 ++ steps 0 7

/-- the clean-up makes the second shutdown, and the worker of the start that went well ends -/
example : ((fresh 1 "w" true).follow (fun _ => true) [] undoneByAnother).map
    (fun p => (p.1, p.2.outcome 0, p.2.outcome 2, p.2.threads.map fun th => (th.worker, th.life))) =
    some ([(.stopped, .start), (.running, .shutdown), (.closing, .settle), (.stopped, .start), (.running, .shutdown),
      (.closing, .settle)], some (.started (.error (.spawn .again))), some (.started (.ok ())),
      [(none, .active), (none, .active), (none, .active), (some 0, .finished)]) := by cbv

end Machine

end SecureEndpoint.Workers
