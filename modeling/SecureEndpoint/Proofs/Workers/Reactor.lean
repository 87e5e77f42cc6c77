/-
The stage and the dispatcher never drift apart.

Every change of the stage asks for calls on the dispatcher (`effectOf`): a start and a resume for a restart, a pause and a
shutdown of a running pool for a stop. They are made by whoever made the change, under the parking lock, some after the
change and one, the restart of a resume, before it. `owed` and `ahead` are what the holder of the lock has still to call,
and what it has called too early; the books are balanced by that (`books_run`).
- `reactor_in_step`: if nobody but the pool stops or restarts the dispatcher, the calls follow the changes, restart and stop
  by turns, and whenever nobody holds the parking lock the dispatcher is stopped exactly as the stage says.
-/
import SecureEndpoint.Proofs.Workers.Stages

namespace SecureEndpoint.Workers

/-! ## Changes and their calls -/

/-- the calls on the dispatcher that a change of stage asks for -/
def effectOf : Stage × Change → List DispatcherCall
  | (_, .start) | (_, .resume) => [.restart]
  | (_, .pause) | (.running, .shutdown) => [.stop]
  | _ => []

/-- the changes lead from a pool that was never started to this stage -/
inductive Leads : List (Stage × Change) → Stage → Prop
  | nowhere : Leads [] .stopped
  | change {h a b c} (before : Leads h a) (legal : a.after? c = some b) : Leads (h ++ [(a, c)]) b

/-- the calls are restart and stop by turns, beginning with a restart -/
def Alternate (calls : List DispatcherCall) : Prop := ∀ i c, calls[i]? = some c → (c = .restart ↔ i % 2 = 0)

theorem Alternate.nil : Alternate [] := nofun

theorem Alternate.left {a b : List DispatcherCall} (h : Alternate (a ++ b)) : Alternate a := by
  intro i c hc
  refine h i c ?_
  rw [List.getElem?_append_left (List.getElem?_eq_some_iff.1 hc).1]
  exact hc

theorem Alternate.snoc {calls : List DispatcherCall} {c : DispatcherCall} (h : Alternate calls)
    (hc : c = .restart ↔ calls.length % 2 = 0) : Alternate (calls ++ [c]) := by
  intro i d hd
  rcases Nat.lt_trichotomy i calls.length with hlt | heq | hgt
  · rw [List.getElem?_append_left hlt] at hd
    exact h i d hd
  · subst heq
    rw [List.getElem?_concat_length] at hd
    cases hd
    exact hc
  · rw [List.getElem?_eq_none (by simpa using Nat.succ_le_of_lt hgt)] at hd
    cases hd

/-- what the calls that were asked for look like in a stage -/
structure Turn (calls : List DispatcherCall) (g : Stage) : Prop where
  alternate : Alternate calls
  odd : calls.length % 2 = 1 ↔ g = .running
  last : g = .paused ∨ g = .closing → calls.getLast? = some .stop

theorem Turn.restarted {calls : List DispatcherCall} {g : Stage} (h : Turn calls g) (hg : g ≠ .running) :
    Turn (calls ++ [.restart]) .running := by
  have heven : calls.length % 2 = 0 := by
    have := mt h.odd.1 hg
    omega
  refine ⟨h.alternate.snoc (by simp [heven]), ?_, nofun⟩
  simp only [List.length_append, List.length_singleton, iff_true]
  omega

theorem Turn.stopped {calls : List DispatcherCall} {g : Stage} (h : Turn calls .running) (hg : g ≠ .running) :
    Turn (calls ++ [.stop]) g := by
  have hodd := h.odd.2 rfl
  refine ⟨h.alternate.snoc (by simp [hodd]), ?_, fun _ => by simp⟩
  simp only [List.length_append, List.length_singleton, hg, iff_false]
  omega

theorem Turn.same {calls : List DispatcherCall} {a b : Stage} (h : Turn calls a) (ha : a ≠ .running) (hb : b ≠ .running)
    (hl : calls.getLast? = some .stop) : Turn calls b :=
  ⟨h.alternate, by simp [h.odd, ha, hb], fun _ => hl⟩

theorem leads_turn {h : List (Stage × Change)} {g : Stage} (hg : Leads h g) :
    Turn (h.flatMap effectOf) g ∧ (h ≠ [] → g = .stopped → (h.flatMap effectOf).getLast? = some .stop) := by
  induction hg with
  | nowhere => exact ⟨⟨.nil, by simp, by simp⟩, fun h => absurd rfl h⟩
  | @change h a b c before legal ih =>
    obtain ⟨ih, -⟩ := ih
    rw [List.flatMap_append, List.flatMap_singleton]
    cases c with
    | start =>
      obtain ⟨rfl, rfl⟩ := Stage.after_start.1 legal
      exact ⟨ih.restarted nofun, nofun⟩
    | resume =>
      obtain ⟨rfl, rfl⟩ := Stage.after_resume.1 legal
      exact ⟨ih.restarted nofun, nofun⟩
    | pause =>
      obtain ⟨rfl, rfl⟩ := Stage.after_pause.1 legal
      exact ⟨ih.stopped nofun, nofun⟩
    | shutdown =>
      obtain ⟨rfl | rfl, rfl⟩ := Stage.after_shutdown.1 legal
      · exact ⟨ih.stopped nofun, nofun⟩
      · have hl := ih.last (.inl rfl)
        simp only [effectOf, List.append_nil]
        exact ⟨ih.same nofun nofun hl, fun _ _ => hl⟩
    | settle =>
      obtain ⟨rfl, rfl⟩ := Stage.after_settle.1 legal
      have hl := ih.last (.inr rfl)
      simp only [effectOf, List.append_nil]
      exact ⟨ih.same nofun nofun hl, fun _ _ => hl⟩

/-! ## The books -/

/-- the calls that the holder of the parking lock has still to make, by its innermost activations; `halted` says whether
the dispatcher is stopped -/
def owed (halted : Bool) : List Frame → List DispatcherCall
  | .start .mark :: _ => [.restart]
  | .revive _ :: g :: _ => if g.kind = .start then [.restart] else []
  | .halt .want :: _ | .halt .locked :: _ => [.stop]
  | .shutdown .ask :: _ | .ask .. :: _ => if halted then [] else [.stop]
  | .shutdown (.answered stopped) :: _ => if stopped then [] else [.stop]
  | _ => []

/-- the calls that it made before the change that asks for them -/
def ahead : List Frame → List DispatcherCall
  | .resume .reread :: _ | .resume (.swap ..) :: _ => [.restart]
  | _ => []

/-- the calls made and those owed are the calls asked for and those made ahead -/
def Balanced (s : Shared) (h : List (Stage × Change)) (stack : List Frame) : Prop :=
  s.calls ++ owed s.dispatcher.stopped stack = h.flatMap effectOf ++ ahead stack

/-- the holder of the parking lock goes on -/
theorem holder_step {m : Machine} {t : ThreadId} {f : Frame} {below : List Frame} {e : Effect}
    {hist : List (Stage × Change)} (h : Transition m t f e) (hs : f.Sees m.shared) (hl : .parking ∈ f.locks)
    (mine : m.shared.parkingOwner = some t)
    (halted : m.shared.calls = hist.flatMap effectOf →
      (m.shared.stage = .running → m.shared.dispatcher.stopped = false) ∧
      (m.shared.stage = .paused → m.shared.dispatcher.stopped = true))
    (hb : Balanced m.shared hist (f :: below)) :
    Balanced e.shared (hist ++ (f.wins? m.shared).toList)
      (if e.shared.parkingOwner = some t then e.own.stack below else []) := by
  cases h with
  | take h => cases h <;> simp [Frame.locks] at hl
  | whim waits => simp [waits_locks waits] at hl
  | @shut seen hseen hstage =>
    -- a running pool owes a stop, and its dispatcher goes on; a paused pool owes nothing
    have hcalls : m.shared.calls = hist.flatMap effectOf := by simpa [Balanced, owed, ahead] using hb
    obtain ⟨hrunning, hpaused⟩ := halted hcalls
    rw [show Frame.wins? m.shared (.shutdown (.swap seen .closing)) = some (seen, .shutdown) from if_pos hstage]
    rcases hseen with rfl | rfl
    · simp [Balanced, owed, ahead, Own.stack, Shared.goto, mine, hcalls, hrunning hstage, effectOf]
    · simp [Balanced, owed, ahead, Own.stack, Shared.goto, mine, hcalls, hpaused hstage, effectOf]
  | shutAsk =>
    change Balanced m.shared (hist ++ []) (if m.shared.parkingOwner = some t then _ else _)
    rw [if_pos mine, List.append_nil]
    exact hb
  | _ => first
    | (simp [Frame.locks] at hl; done)
    | simp_all [Balanced, owed, ahead, Own.stack, Frame.wins?, Frame.attempt?, effectOf, Frame.Sees, Shared.goto,
        Shared.call, Shared.ret, Shared.release, Shared.setOwner, Shared.emit, Frame.kind]

/-- the holder of the parking lock has called the dispatcher -/
theorem called_step {m : Machine} {t : ThreadId} {f g : Frame} {rest : List Frame} {e : Effect}
    {hist : List (Stage × Change)} (h : Transition m t f e) (hl : .parking ∈ g.locks) (hc : g.Calls f.kind)
    (hb : Balanced m.shared hist (f :: g :: rest)) :
    e.shared.parkingOwner = m.shared.parkingOwner ∧ Balanced e.shared hist (e.own.stack (g :: rest)) := by
  have hk := holder_calls hc hl
  cases h with
  | take h =>
    cases h with
    | halt | revive | ask => exact ⟨rfl, hb⟩
    | _ => rcases hk with hk | hk | hk <;> cases hk
  | halted =>
    exact ⟨rfl, by simpa [Balanced, owed, ahead, Own.stack, Shared.goto, Shared.release, Shared.setOwner] using hb⟩
  | haltTell =>
    refine ⟨rfl, ?_⟩
    cases hc <;> first | (simp [Frame.locks] at hl; done) | exact hb
  | revived =>
    refine ⟨rfl, ?_⟩
    cases hc <;> first
      | (simp [Frame.locks] at hl; done)
      | simpa [Balanced, owed, ahead, Own.stack, Frame.receive, Frame.kind, Shared.ret, Shared.release,
          Shared.setOwner] using hb
  | answer =>
    cases hc with
    | action => simp [Frame.locks] at hl
    | ask => exact ⟨rfl, hb⟩
  | _ => rcases hk with hk | hk | hk <;> cases hk

/-- whoever takes the parking lock owes nothing yet -/
theorem taker_step {m : Machine} {t : ThreadId} {f : Frame} {e : Effect} (h : Transition m t f e)
    (before : m.shared.parkingOwner ≠ some t) (after : e.shared.parkingOwner = some t) (halted : Bool)
    (below : List Frame) : owed halted (e.own.stack below) = [] ∧ ahead (e.own.stack below) = [] := by
  cases h with
  | take h => cases h <;> first | exact ⟨rfl, rfl⟩ | exact absurd after before
  | @whim mode n p w => cases w <;> exact absurd after before
  | _ => first | exact absurd after before | cases after

/-! ## Only the pool calls the dispatcher -/

/-- no job and no thread from outside stops or restarts the dispatcher -/
def directed : List Kind → Bool
  | [.halt] | [.revive] | .halt :: .job :: _ | .revive :: .job :: _ => false
  | _ :: below => directed below
  | [] => true

/-- nobody but the pool stops or restarts the dispatcher -/
def Machine.poolOnly (m : Machine) : Bool := m.threads.all fun th => directed (th.stack.map Frame.kind)

/-- what the pool calls on the dispatcher, it calls under the parking lock -/
theorem pool_calls {w : Option Nat} {f : Frame} {below : List Frame} (hn : Nested w (f :: below))
    (hd : directed ((f :: below).map Frame.kind)) (hk : f.kind = .halt ∨ f.kind = .revive) :
    ∃ g ∈ below, .parking ∈ g.locks := by
  cases hn with
  | worker => simp [Frame.kind] at hk
  | outside _ => rcases hk with hk | hk <;> simp [directed, hk] at hd
  | @call _ _ g rest _ hc =>
    refine ⟨g, .head _, ?_⟩
    rcases hk with hk | hk
    all_goals
      rw [hk] at hc
      rw [List.map_cons, List.map_cons, hk] at hd
      cases hc <;> first | (simp [Frame.locks]; done) | cases hd

namespace Machine

theorem poolOnly_stack {m : Machine} (h : m.poolOnly) (t : ThreadId) : directed ((m.stackOf t).map Frame.kind) := by
  cases ht : m.threads[t]? with
  | none => simp [stackOf, roster, ht, directed]
  | some th =>
    have := List.all_eq_true.1 h th (List.mem_of_getElem? ht)
    simpa [stackOf, roster, ht, Thread.calm] using this

end Machine

/-! ## The books are balanced -/

theorem owed_calm (halted : Bool) (stack : List Frame) : owed halted (stack.map Frame.calm) = owed halted stack := by
  rcases stack with _ | ⟨f, below⟩
  · rfl
  cases f with
  | worker i p => cases p <;> rfl
  | drive mode n p => cases p <;> rfl
  | waitPaused limit expired p => cases p <;> rfl
  | revive p =>
    cases below with
    | nil => rfl
    | cons g rest =>
      change (if g.calm.kind = .start then _ else _) = if g.kind = .start then _ else _
      rw [kind_calm]
  | halt p | start p | shutdown p => cases p <;> rfl
  | _ => rfl

theorem ahead_calm (stack : List Frame) : ahead (stack.map Frame.calm) = ahead stack := by
  rcases stack with _ | ⟨f, below⟩
  · rfl
  cases f with
  | worker i p => cases p <;> rfl
  | drive mode n p => cases p <;> rfl
  | waitPaused limit expired p => cases p <;> rfl
  | resume p => cases p <;> rfl
  | _ => rfl

theorem balanced_calm {s : Shared} {h : List (Stage × Change)} {stack : List Frame} :
    Balanced s h (stack.map Frame.calm) ↔ Balanced s h stack := by
  rw [Balanced, owed_calm, ahead_calm, Balanced]

namespace Machine

/-- the activations of the holder of the parking lock -/
def holding (m : Machine) : List Frame :=
  match m.shared.parkingOwner with
  | some t => m.stackOf t
  | none => []

/-- the changes made, the calls made and the stop flag fit together -/
structure Books (h : List (Stage × Change)) (m : Machine) : Prop where
  leads : Leads h m.shared.stage
  last : m.shared.dispatcher.stopped = true ↔ m.shared.calls.getLast? = some .stop
  balanced : Balanced m.shared h m.holding

/-- where the calls are those asked for, the dispatcher is stopped as the stage says -/
theorem Books.halted {h : List (Stage × Change)} {m : Machine} (b : m.Books h)
    (hc : m.shared.calls = h.flatMap effectOf) :
    (m.shared.stage = .running → m.shared.dispatcher.stopped = false) ∧
      (m.shared.stage = .paused ∨ m.shared.stage = .closing → m.shared.dispatcher.stopped = true) ∧
      (m.shared.stage = .stopped → h ≠ [] → m.shared.dispatcher.stopped = true) := by
  obtain ⟨turn, settled⟩ := leads_turn b.leads
  rw [← hc] at turn settled
  refine ⟨fun hg => ?_, fun hg => b.last.2 (turn.last hg), fun hg hne => b.last.2 (settled hne hg)⟩
  have hodd := turn.odd.2 hg
  cases hf : m.shared.dispatcher.stopped with
  | false => rfl
  | true =>
    -- the last of an odd number of calls is a restart
    have hl := b.last.1 hf
    rw [List.getLast?_eq_getElem?] at hl
    have := turn.alternate _ _ hl
    simp at this
    omega

section Step

variable {m m' : Machine} {t : ThreadId} {th : Thread} {f : Frame} {below : List Frame} {e : Effect}
  {h : List (Stage × Change)}

/-- a step of the holder of the parking lock -/
theorem balanced_holder (hm : m.Sound) (hb : m.Books h)
    (mine : m.shared.parkingOwner = some t) (s : m.StepOf m' t th f below e) :
    Balanced m'.shared (h ++ (f.wins? m.shared).toList) m'.holding := by
  have hsh := s.shared
  have hbal : Balanced m.shared h (f :: below) := by
    have hbal := hb.balanced
    simp only [holding, mine, s.before] at hbal
    exact balanced_calm.1 hbal
  by_cases hl : .parking ∈ f.locks
  · have hu : e.own ≠ .unwind := fun hu => (s.go.unwind hu).2.2 hl
    have hnext := holder_step s.go s.sees hl mine
      (fun hc => ⟨(hb.halted hc).1, fun hg => (hb.halted hc).2.1 (.inl hg)⟩) hbal
    have hothers := fun i (hi : i ≠ t) => hm.owned.others s hi .parking
    rw [unlocks_of_ne hu] at hsh
    rw [hsh] at hothers
    rw [holding, hsh]
    by_cases hkeep : e.shared.parkingOwner = some t
    · rw [if_pos hkeep] at hnext
      simp only [hkeep, s.after]
      exact balanced_calm.2 hnext
    · rw [if_neg hkeep] at hnext
      have hfree : e.shared.parkingOwner = none := by
        cases hown : e.shared.parkingOwner with
        | none => rfl
        | some i =>
          have hi : i ≠ t := fun hi => hkeep (hi ▸ hown)
          have := (hothers i hi).1 hown
          exact absurd (Option.some.inj (this.symm.trans mine)) hi
      simp only [hfree]
      exact hnext
  · obtain ⟨f', below', heq, htopl⟩ := hm.owned.holder (l := .parking) hm.formed mine
    rw [s.before] at heq
    cases heq
    obtain hl' | ⟨g, rest, hg, hgl, hgc⟩ := htopl
    · exact absurd (by simpa using hl') hl
    · obtain ⟨b, low, rfl, rfl, rfl⟩ := List.map_eq_cons_iff.1 hg
      rw [locks_calm] at hgl
      rw [kind_calm, calls_calm] at hgc
      have hu : e.own ≠ .unwind := by
        intro hu
        have hfit := s.go.fits
        rw [hu] at hfit
        rcases holder_calls hgc hgl with hk | hk | hk <;> simp [Own.Fits, hk, Kind.isWork] at hfit
      have hwins : f.wins? m.shared = none := by
        cases ha : f.attempt? with
        | none => simp [Frame.wins?, ha]
        | some a => exact absurd (attempt_locks ha) hl
      obtain ⟨hown, hnext⟩ := called_step s.go hgl hgc hbal
      rw [unlocks_of_ne hu] at hsh
      rw [holding, hsh, hown, mine, hwins, Option.toList_none, List.append_nil]
      simp only [s.after]
      exact balanced_calm.2 hnext

/-- a step of another thread: it calls nothing, and owes nothing when it takes the lock -/
theorem balanced_other (hm : m.Sound) (hp : m.poolOnly) (hb : m.Books h)
    (mine : m.shared.parkingOwner ≠ some t) (s : m.StepOf m' t th f below e) :
    Balanced m'.shared (h ++ (f.wins? m.shared).toList) m'.holding := by
  have hsh := s.shared
  have hnone : ∀ g ∈ m.stackOf t, .parking ∉ g.locks := fun g hg hl => mine (hm.owned.mine hg hl)
  have hwins : f.wins? m.shared = none := by
    cases ha : f.attempt? with
    | none => simp [Frame.wins?, ha]
    | some a => exact absurd (by simpa using attempt_locks ha) (hnone f.calm s.mem)
  have hcalls : f.callsAfter m.shared = m.shared.calls ∧ f.haltedAfter m.shared = m.shared.dispatcher.stopped := by
    have hk : ¬ (f.kind = .halt ∨ f.kind = .revive) := by
      intro hk
      have hn := hm.formed.nested s.entry
      have hd := poolOnly_stack hp t
      rw [s.before] at hn hd
      obtain ⟨g, hg, hl⟩ := pool_calls hn hd (by simpa using hk)
      exact hnone g (by rw [s.before]; exact .tail _ hg) hl
    unfold Frame.callsAfter Frame.haltedAfter
    split <;> simp_all [Frame.kind]
  have hbal := hb.balanced
  rw [Balanced] at hbal ⊢
  rw [s.writes.calls, s.writes.halted, hcalls.1, hcalls.2, hwins, Option.toList_none, List.append_nil]
  have hothers : ∀ i, i ≠ t → (m'.shared.parkingOwner = some i ↔ m.shared.parkingOwner = some i) := fun i hi =>
    hm.owned.others s hi .parking
  by_cases htook : m'.shared.parkingOwner = some t
  · have hfree : m.shared.parkingOwner = none := by
      cases hown : m.shared.parkingOwner with
      | none => rfl
      | some i =>
        have hi : i ≠ t := fun hi => mine (hi ▸ hown)
        exact absurd (Option.some.inj (((hothers i hi).2 hown).symm.trans htook)) hi
    have hu : e.own ≠ .unwind := by
      intro hu
      have hrel := owner_releaseAll e.shared t .parking
      rw [hsh, hu] at htook
      change (e.shared.releaseAll t).parkingOwner = _ at hrel
      rw [Own.unlocks, hrel] at htook
      split at htook
      · cases htook
      · contradiction
    rw [hsh, unlocks_of_ne hu] at htook
    obtain ⟨howed, hahead⟩ := taker_step s.go mine htook m.shared.dispatcher.stopped below
    simp only [holding, hfree] at hbal
    simp only [holding, hsh, unlocks_of_ne hu, htook, s.after, owed_calm, ahead_calm, howed, hahead]
    exact hbal
  · have hsame : m'.shared.parkingOwner = m.shared.parkingOwner := by
      refine Option.ext fun i => ?_
      by_cases hi : i = t
      · subst hi
        exact ⟨fun h => absurd h htook, fun h => absurd h mine⟩
      · exact hothers i hi
    have hstack : m'.holding = m.holding := by
      rw [holding, holding, hsame]
      cases hown : m.shared.parkingOwner with
      | none => rfl
      | some i =>
        have hi : i ≠ t := fun hi => mine (hi ▸ hown)
        have hlen : i ≠ m.roster.length := by
          rintro rfl
          obtain ⟨f', below', heq, -⟩ := hm.owned.holder (l := .parking) hm.formed hown
          rw [stackOf_length] at heq
          cases heq
        simp only [s.stackAt, if_neg hi, if_neg hlen]
    rw [hstack]
    exact hbal

end Step

theorem balanced_move {m m' : Machine} {w : Option (Stage × Change)} {h : List (Stage × Change)} (hm : m.Sound)
    (hp : m.poolOnly) (hb : m.Books h) (mv : m.Moved m' w) :
    Balanced m'.shared (h ++ w.toList) m'.holding := by
  cases mv with
  | @step t th f below e s =>
    by_cases mine : m.shared.parkingOwner = some t
    · exact balanced_holder hm hb mine s
    · exact balanced_other hm hp hb mine s
  | still gates hsh hr =>
    rw [Option.toList_none, List.append_nil, holding, hsh, funext (stackOf_still hr)]
    exact hb.balanced
  | @call t th c ht hw hst hsh hr =>
    rw [Option.toList_none, List.append_nil, holding, hsh]
    have hbal := hb.balanced
    rw [holding] at hbal
    cases hown : m.shared.parkingOwner with
    | none => simpa only [hown] using hbal
    | some i =>
      have hi : i ≠ t := by
        rintro rfl
        obtain ⟨f, below, heq, -⟩ := hm.owned.holder (l := .parking) hm.formed hown
        simp [stackOf, ht, hst] at heq
      simpa only [hown, stackOf_call ht hr, if_neg hi] using hbal
  | enter hsh hr =>
    rw [Option.toList_none, List.append_nil, holding, hsh, funext (stackOf_enter hr)]
    exact hb.balanced

/-- the stop flag says whether the last call was a stop -/
theorem last_move {m m' : Machine} {w : Option (Stage × Change)} (mv : m.Moved m' w)
    (h : m.shared.dispatcher.stopped = true ↔ m.shared.calls.getLast? = some .stop) :
    m'.shared.dispatcher.stopped = true ↔ m'.shared.calls.getLast? = some .stop := by
  cases mv with
  | step s =>
    rw [s.writes.calls, s.writes.halted]
    unfold Frame.callsAfter Frame.haltedAfter
    split <;> first | exact h | simp
  | still gates hsh hr => rw [hsh]; exact h
  | call c ht hw hs hsh hr => rw [hsh]; exact h
  | enter hsh hr => rw [hsh]; exact h

theorem books_run {m : Machine} {hist : List (Stage × Change)} {size : Nat} {stem : String} {dispatches : Bool}
    (r : Run (·.poolOnly) (fresh size stem dispatches) hist m) : m.Sound ∧ m.Books hist := by
  have key : m.Sound ∧ m.poolOnly ∧ m.Books hist := by
    refine r.keeps_hist (I := fun h m => m.poolOnly ∧ m.Books h) (sound_fresh size stem dispatches) ?_ ?_
    · exact ⟨rfl, .nowhere, by simp [fresh], by simp [Balanced, fresh, holding, owed, ahead]⟩
    · rintro h a b w hm ⟨hp, hb⟩ mv hpb
      refine ⟨hpb, ?_, last_move mv hb.last, balanced_move hm hp hb mv⟩
      rcases move_stage mv with ⟨rfl, hstage⟩ | ⟨c, rfl, hlegal⟩
      · rw [Option.toList_none, List.append_nil, hstage]
        exact hb.leads
      · exact .change hb.leads hlegal
  exact ⟨key.1, key.2.2⟩

/-! ## The result -/

theorem owed_length (halted : Bool) (stack : List Frame) : (owed halted stack).length ≤ 1 := by
  unfold owed
  split <;> (try split) <;> simp

/-- what is called ahead is the restart of a resume, and then the stage is paused -/
theorem ahead_cases (stack : List Frame) : ahead stack = [] ∨
    ahead stack = [.restart] ∧ ∃ f ∈ stack, ∀ s, f.Sees s → s.stage = .paused := by
  unfold ahead
  split
  · exact .inr ⟨rfl, _, .head _, fun s hs => hs⟩
  · exact .inr ⟨rfl, _, .head _, fun s hs => hs.2.trans (Stage.after_resume.1 hs.1).1⟩
  · exact .inl rfl

theorem Books.alternate {h : List (Stage × Change)} {m : Machine} (hm : m.Sound) (hb : m.Books h) :
    Alternate m.shared.calls := by
  have turn := (leads_turn hb.leads).1
  have hbal := hb.balanced
  rw [Balanced] at hbal
  suffices Alternate (m.shared.calls ++ owed m.shared.dispatcher.stopped m.holding) from this.left
  rw [hbal]
  rcases ahead_cases m.holding with ha | ⟨ha, f, hf, hpaused⟩
  · rw [ha, List.append_nil]
    exact turn.alternate
  · have hstage : m.shared.stage = .paused := by
      rw [holding] at hf
      split at hf
      · rename_i t _
        exact hpaused _ (hm.sees t f hf)
      · cases hf
    rw [ha]
    exact (turn.restarted (by rw [hstage]; nofun)).alternate

/-- **The dispatcher follows the stage.** As long as only the pool stops and restarts its dispatcher, the calls are those
that the changes made so far ask for, in order, up to one that is owed or made ahead, and restart and stop by turns; a
resume never takes its restart back; and whenever the parking lock is free the calls are exactly those asked for and the
dispatcher is stopped as the stage says. -/
theorem reactor_in_step {m : Machine} {hist : List (Stage × Change)} {size : Nat} {stem : String} {dispatches : Bool}
    (r : Run (·.poolOnly) (fresh size stem dispatches) hist m) :
    (∃ late early, late.length ≤ 1 ∧ early.length ≤ 1 ∧ m.shared.calls ++ late = hist.flatMap effectOf ++ early) ∧
      Alternate m.shared.calls ∧
      (∀ t g, .resume (.refused g) ∉ m.stackOf t) ∧
      (m.shared.parkingOwner = none → m.shared.calls = hist.flatMap effectOf ∧
        (m.shared.stage = .running → m.shared.dispatcher.stopped = false) ∧
        (m.shared.stage = .paused ∨ m.shared.stage = .closing → m.shared.dispatcher.stopped = true) ∧
        (m.shared.stage = .stopped → hist ≠ [] → m.shared.dispatcher.stopped = true)) := by
  obtain ⟨hm, hb⟩ := books_run r
  refine ⟨⟨_, _, owed_length _ _, ?_, hb.balanced⟩, hb.alternate hm, fun t g hg => hm.sees t _ hg, fun hfree => ?_⟩
  · rcases ahead_cases m.holding with ha | ⟨ha, -⟩ <;> simp [ha]
  · have hcalls : m.shared.calls = hist.flatMap effectOf := by
      have hbal := hb.balanced
      simpa [Balanced, holding, hfree, owed, ahead] using hbal
    exact ⟨hcalls, hb.halted hcalls⟩

/-- a start that has not created its workers yet while another thread pauses, resumes and pauses the pool -/
def overtaken : List Move :=
  [Move.enter, .enter, .call 0 .start] ++ steps 0 8 ++ [Move.call 1 .pause] ++ steps 1 7 ++
    [Move.call 1 .resume] ++ steps 1 8 ++ [Move.call 1 .pause] ++ steps 1 7

theorem reactor_in_step_overtaken : ∃ hist m, Run (·.poolOnly) (fresh 1 "w" true) hist m ∧
    hist = [(.stopped, .start), (.running, .pause), (.paused, .resume), (.running, .pause)] ∧
    m.shared.parkingOwner = none ∧ m.shared.handlesOwner = some 0 ∧
    m.shared.calls = [.restart, .stop, .restart, .stop] ∧ m.shared.dispatcher.stopped = true := by
  obtain ⟨⟨hist, m⟩, hf⟩ : ∃ p, (fresh 1 "w" true).follow poolOnly [] overtaken = some p := ⟨_, rfl⟩
  have r := run_follow .rest hf
  obtain ⟨-, -, -, hfree⟩ := reactor_in_step r
  have hh : hist = [(.stopped, .start), (.running, .pause), (.paused, .resume), (.running, .pause)] := by
    cases hf
    rfl
  have hp : m.shared.parkingOwner = none ∧ m.shared.stage = .paused ∧ m.shared.handlesOwner = some 0 := by
    cases hf
    exact ⟨rfl, rfl, rfl⟩
  obtain ⟨hcalls, -, hstopped, -⟩ := hfree hp.1
  exact ⟨hist, m, r, hh, hp.1, hp.2.2, by rw [hcalls, hh]; rfl, hstopped (.inl hp.2.1)⟩

end Machine

end SecureEndpoint.Workers
