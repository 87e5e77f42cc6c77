/-
Many callers of one cell do what they would do one at a time.

Every access of a run is numbered. A `Chronicle` records each call that has ended, with the numbers of its first and its
last access; the crowd in it is the crowd of the run (`chronicle_crowd`). A call takes effect at its last access: there it
swaps, or it sees the stage from which the table refuses it. So the calls in the order of their last accesses are a run of
undisturbed attempts, and no other order is asked for: a call that ends before another begins comes before it.
- `Caller.step_does`: what a single access can be.
- `recorded_step`, `recorded`: what the chronicle says of stages and calls, kept by each access and so true of each run.
- `perform_race`, `race_step`: callers that race for one change.
- `attempts_linearizable`: all of it, for every schedule.
-/
import Mathlib.Data.List.Induction
import SecureEndpoint.Lifecycle.Cell

namespace SecureEndpoint

/-! ## One at a time -/

/-- changes attempted one at a time: what they come to, and the stage afterwards -/
def Stage.perform (g : Stage) : List Change → List Outcome × Stage
  | [] => ([], g)
  | c :: rest =>
    let made := g.attempt c
    let others := made.2.perform rest
    (made.1 :: others.1, others.2)

/-- swaps, each from the stage to which the one before leads -/
def Stage.Leads : Stage → List (Stage × Change × Stage) → Stage → Prop
  | g, [], last => g = last
  | g, (source, c, target) :: rest, last => g = source ∧ source.after? c = some target ∧ target.Leads rest last

/-- the change was made -/
def Outcome.isMade : Outcome → Bool
  | .made _ _ => true
  | .refused _ => false

theorem Stage.perform_concat (g : Stage) (changes : List Change) (c : Change) :
    g.perform (changes ++ [c]) =
      ((g.perform changes).1 ++ [((g.perform changes).2.attempt c).1], ((g.perform changes).2.attempt c).2) := by
  induction changes generalizing g with
  | nil => rfl
  | cons a rest ih => simp [perform, ih]

theorem Stage.attempt_legal {g next : Stage} {c : Change} (h : g.after? c = some next) :
    g.attempt c = (.made g next, next) := by
  simp [attempt, h]

theorem Stage.attempt_illegal {g : Stage} {c : Change} (h : g.after? c = none) : g.attempt c = (.refused g, g) := by
  simp [attempt, h]

/-- no change is legal twice in a row -/
theorem Stage.after?_twice {g next : Stage} {c : Change} (h : g.after? c = some next) : next.after? c = none := by
  cases g <;> cases c <;> cases h <;> rfl

/-! ## What an access does -/

namespace Caller

/-- a caller goes on with a change, which it begins now or for which it has just found another stage; `rest` is what it has
to attempt afterwards -/
inductive Tries (value : Stage) (k : Caller) : Change → List Change → Prop
  | begins {c : Change} {rest : List Change} (idle : k.swapping = none) (first : k.todo = c :: rest) : Tries value k c rest
  | retries {c : Change} {seen next : Stage} (busy : k.swapping = some (c, seen, next)) (other : value ≠ seen) :
    Tries value k c k.todo

/-- an access to a cell that holds `value`: the stage and the caller afterwards -/
inductive Does (value : Stage) (k : Caller) : Stage → Caller → Prop
  /-- nothing is left to attempt -/
  | rests (idle : k.swapping = none) (done : k.todo = []) : Does value k value k
  | swaps {c : Change} {next : Stage} (busy : k.swapping = some (c, value, next)) :
    Does value k next { k with swapping := none, results := k.results ++ [(c, .made value next)] }
  /-- gets ready to swap -/
  | aims {c : Change} {rest : List Change} {next : Stage} (tries : k.Tries value c rest)
    (legal : value.after? c = some next) : Does value k value { k with todo := rest, swapping := some (c, value, next) }
  | refused {c : Change} {rest : List Change} (tries : k.Tries value c rest) (illegal : value.after? c = none) :
    Does value k value { todo := rest, swapping := none, results := k.results ++ [(c, .refused value)] }

theorem step_does (value : Stage) (k : Caller) : k.Does value (k.step value).1 (k.step value).2 := by
  rcases k with ⟨todo, swapping, results⟩
  cases swapping with
  | some s =>
    obtain ⟨c, seen, next⟩ := s
    by_cases h : value = seen
    · subst h
      simpa [step] using Does.swaps (k := ⟨todo, some (c, value, next), results⟩) rfl
    · have tries : Tries value ⟨todo, some (c, seen, next), results⟩ c todo := .retries rfl h
      cases ha : value.after? c with
      | some target => simpa [step, h, decide, ha] using Does.aims tries ha
      | none => simpa [step, h, decide, ha] using Does.refused tries ha
  | none =>
    cases todo with
    | nil => exact .rests rfl rfl
    | cons c rest =>
      have tries : Tries value ⟨c :: rest, none, results⟩ c rest := .begins rfl rfl
      cases ha : value.after? c with
      | some target => simpa [step, decide, ha] using Does.aims tries ha
      | none => simpa [step, decide, ha] using Does.refused tries ha

/-- the changes of a caller in order: attempted, under way, still to attempt -/
def plan (k : Caller) : List Change :=
  k.results.map (·.1) ++ (k.swapping.map (·.1)).toList ++ k.todo

theorem Tries.plan {value : Stage} {k : Caller} {c : Change} {rest : List Change} (h : k.Tries value c rest) :
    k.plan = k.results.map (·.1) ++ c :: rest := by
  cases h with
  | begins idle first => simp [Caller.plan, idle, first]
  | retries busy other => simp [Caller.plan, busy]

theorem Does.plan {value v : Stage} {k k' : Caller} (h : k.Does value v k') : k'.plan = k.plan := by
  cases h with
  | rests => rfl
  | swaps busy => simp [Caller.plan, busy]
  | aims tries => rw [tries.plan]; simp [Caller.plan]
  | refused tries => rw [tries.plan]; simp [Caller.plan]

/-- the caller is about to begin a call -/
def begins (k : Caller) : Bool := k.swapping.isNone && !k.todo.isEmpty

/-- what an access brings to an end -/
def answers (value : Stage) (k : Caller) : List (Change × Outcome) := (k.step value).2.results.drop k.results.length

end Caller

/-! ## The chronicle of a run -/

/-- a call that has ended: who made it, what it came to, and the numbers of its first and its last access -/
structure Episode where
  caller : Nat
  change : Change
  outcome : Outcome
  first : Nat
  last : Nat
  deriving DecidableEq, Repr

/-- the swap of a call that made its change -/
def Episode.swap? (e : Episode) : Option (Stage × Change × Stage) :=
  match e.outcome with
  | .made source target => some (source, e.change, target)
  | .refused _ => none

/-- a crowd whose accesses are numbered -/
structure Chronicle where
  crowd : Crowd
  /-- the number of the next access -/
  clock : Nat := 0
  /-- the access that began the last call of a caller -/
  since : Nat → Nat := fun _ => 0
  /-- the calls that have ended, in the order of their last accesses -/
  episodes : List Episode := []

namespace Chronicle

/-- one access by caller `i` -/
def step (h : Chronicle) (i : Nat) : Chronicle :=
  match h.crowd.callers[i]? with
  | none => { h with clock := h.clock + 1 }
  | some k =>
    let first := if k.begins then h.clock else h.since i
    { crowd := h.crowd.step i
      clock := h.clock + 1
      since := fun j => if j = i then first else h.since j
      episodes := h.episodes ++ (k.answers h.crowd.value).map fun a => ⟨i, a.1, a.2, first, h.clock⟩ }

/-- what the calls of a caller came to, as far as they have ended -/
def answersOf (h : Chronicle) (i : Nat) : List (Change × Outcome) :=
  (h.episodes.filter fun e => e.caller = i).map fun e => (e.change, e.outcome)

end Chronicle

namespace Crowd

/-- callers around a cell, each with the changes that it is going to attempt -/
def gathered (g : Stage) (todo : List (List Change)) : Crowd := ⟨g, todo.map fun changes => { todo := changes }⟩

/-- follows a schedule, with the chronicle of it -/
def chronicle (w : Crowd) (schedule : List Nat) : Chronicle := schedule.foldl Chronicle.step { crowd := w }

/-- the stage that access `n` of a schedule finds -/
def stageAt (w : Crowd) (schedule : List Nat) (n : Nat) : Stage := (w.run (schedule.take n)).value

theorem chronicle_concat (w : Crowd) (schedule : List Nat) (i : Nat) :
    w.chronicle (schedule ++ [i]) = (w.chronicle schedule).step i := by simp [chronicle]

theorem run_concat (w : Crowd) (schedule : List Nat) (i : Nat) : w.run (schedule ++ [i]) = (w.run schedule).step i := by
  simp [run]

theorem step_absent {w : Crowd} {i : Nat} (h : w.callers[i]? = none) : w.step i = w := by simp [step, h]

theorem step_present {w : Crowd} {i : Nat} {k : Caller} (h : w.callers[i]? = some k) :
    w.step i = ⟨(k.step w.value).1, w.callers.set i (k.step w.value).2⟩ := by simp [step, h]

theorem chronicle_crowd (w : Crowd) (schedule : List Nat) : (w.chronicle schedule).crowd = w.run schedule := by
  induction schedule using List.reverseRecOn with
  | nil => rfl
  | append_singleton schedule i ih =>
    rw [chronicle_concat, run_concat, ← ih, Chronicle.step]
    cases h : (w.chronicle schedule).crowd.callers[i]? with
    | none => simp [step_absent h]
    | some k => simp

theorem chronicle_clock (w : Crowd) (schedule : List Nat) : (w.chronicle schedule).clock = schedule.length := by
  induction schedule using List.reverseRecOn with
  | nil => rfl
  | append_singleton schedule i ih =>
    rw [chronicle_concat, Chronicle.step, List.length_append, ← ih]
    cases (w.chronicle schedule).crowd.callers[i]? <;> rfl

end Crowd

/-! ## What the chronicle says -/

/-- access `n` was made by `who n` and found `found n`; what the chronicle says of a call that has ended before access `clock` -/
structure Episode.Told (e : Episode) (found : Nat → Stage) (who : Nat → Option Nat) (clock : Nat) : Prop where
  order : e.first ≤ e.last
  past : e.last < clock
  begun : who e.first = some e.caller
  ended : who e.last = some e.caller
  /-- up to its last access it changes nothing -/
  quiet : ∀ n, e.first ≤ n → n < e.last → who n = some e.caller → found (n + 1) = found n
  /-- there the change is made, or the stage is one from which it is not legal -/
  outcome : e.outcome = ((found e.last).attempt e.change).1
  effect : found (e.last + 1) = ((found e.last).attempt e.change).2

/-- a call that caller `i` has begun and that is about to swap `next` for `seen` -/
structure Chronicle.Swapping (h : Chronicle) (i : Nat) (c : Change) (seen next : Stage) (found : Nat → Stage)
    (who : Nat → Option Nat) : Prop where
  past : h.since i < h.clock
  begun : who (h.since i) = some i
  legal : seen.after? c = some next
  quiet : ∀ n, h.since i ≤ n → n < h.clock → who n = some i → found (n + 1) = found n
  /-- the last access of the caller has left the stage that it saw, and nobody has asked it since -/
  looked : ∃ p < h.clock, who p = some i ∧ found (p + 1) = seen ∧ ∀ n, p < n → n < h.clock → who n ≠ some i

/-- a chronicle of callers that were gathered around `g` -/
structure Chronicle.Recorded (g : Stage) (todo : List (List Change)) (found : Nat → Stage) (who : Nat → Option Nat)
    (h : Chronicle) : Prop where
  now : found h.clock = h.crowd.value
  plans : h.crowd.callers.map Caller.plan = todo
  results : ∀ i, h.answersOf i = ((h.crowd.callers[i]?).map Caller.results).getD []
  serial : g.perform (h.episodes.map (·.change)) = (h.episodes.map (·.outcome), h.crowd.value)
  ordered : h.episodes.Pairwise fun a b => a.last < b.last
  told : ∀ e ∈ h.episodes, e.Told found who h.clock
  changed : ∀ n < h.clock, found (n + 1) ≠ found n →
    ∃ e ∈ h.episodes, e.last = n ∧ e.outcome = .made (found n) (found (n + 1))
  swapping : ∀ i k c seen next, h.crowd.callers[i]? = some k → k.swapping = some (c, seen, next) →
    h.Swapping i c seen next found who

section

variable {g : Stage} {todo : List (List Change)} {found : Nat → Stage} {who : Nat → Option Nat} {h : Chronicle} {i : Nat}
  {k : Caller}

theorem Episode.Told.later {e : Episode} {clock : Nat} (h : e.Told found who clock) : e.Told found who (clock + 1) :=
  { h with past := Nat.lt_succ_of_lt h.past }

/-- an access by somebody else -/
theorem Chronicle.Swapping.others {h' : Chronicle} {j : Nat} {c : Change} {seen next : Stage}
    (s : h.Swapping j c seen next found who) (mover : who h.clock = some i) (other : j ≠ i)
    (clock : h'.clock = h.clock + 1) (since : h'.since j = h.since j) : h'.Swapping j c seen next found who := by
  have elsewhere : who h.clock ≠ some j := fun hj => other (Option.some.inj (hj.symm.trans mover))
  obtain ⟨p, hp, hwho, hfound, hlast⟩ := s.looked
  refine ⟨?_, ?_, s.legal, fun n hn hlt hw => ?_, p, ?_, hwho, hfound, fun n hn hlt hw => ?_⟩
  · rw [since, clock]
    exact Nat.lt_succ_of_lt s.past
  · rw [since]
    exact s.begun
  · rw [since] at hn
    rw [clock] at hlt
    rcases Nat.lt_succ_iff_lt_or_eq.1 hlt with hlt | rfl
    · exact s.quiet n hn hlt hw
    · exact absurd hw elsewhere
  · omega
  · rw [clock] at hlt
    rcases Nat.lt_succ_iff_lt_or_eq.1 hlt with hlt | rfl
    · exact hlast n hn hlt hw
    · exact elsewhere hw

/-- the call that a caller begins or goes on with has so far changed nothing -/
theorem Chronicle.Recorded.unfinished (r : h.Recorded g todo found who) (hk : h.crowd.callers[i]? = some k)
    (mover : who h.clock = some i) (active : k.begins ∨ ∃ s, k.swapping = some s) :
    (if k.begins then h.clock else h.since i) ≤ h.clock ∧ who (if k.begins then h.clock else h.since i) = some i ∧
      ∀ n, (if k.begins then h.clock else h.since i) ≤ n → n < h.clock → who n = some i → found (n + 1) = found n := by
  by_cases hb : k.begins
  · rw [if_pos hb]
    exact ⟨Nat.le_refl _, mover, fun n hn hlt => absurd hlt (Nat.not_lt.2 hn)⟩
  · rw [if_neg hb]
    obtain ⟨⟨c, seen, next⟩, hs⟩ := active.resolve_left hb
    have s := r.swapping i k c seen next hk hs
    exact ⟨Nat.le_of_lt s.past, s.begun, s.quiet⟩

theorem Caller.Tries.active {value : Stage} {c : Change} {rest : List Change} (h : k.Tries value c rest) :
    k.begins ∨ ∃ s, k.swapping = some s := by
  cases h with
  | begins idle first => exact .inl (by simp [Caller.begins, idle, first])
  | retries busy other => exact .inr ⟨_, busy⟩

theorem Stage.attempt_of_ne {value : Stage} {c : Change} (h : (value.attempt c).2 ≠ value) :
    (value.attempt c).1 = .made value (value.attempt c).2 := by
  cases ha : value.after? c with
  | some next => rw [attempt_legal ha]
  | none => exact absurd (by rw [attempt_illegal ha]) h

namespace Chronicle

/-- a caller that goes on keeps to its plan -/
theorem Recorded.plans_set (r : h.Recorded g todo found who) (hk : h.crowd.callers[i]? = some k) {k' : Caller}
    (plan : k'.plan = k.plan) : (h.crowd.callers.set i k').map Caller.plan = todo := by
  obtain ⟨hi, hki⟩ := List.getElem?_eq_some_iff.1 hk
  rw [List.map_set, plan, ← hki, ← List.getElem_map Caller.plan, List.set_getElem_self, r.plans]
  simpa using hi

/-- a caller takes another place, and no call ends -/
theorem recorded_goes_on (r : h.Recorded g todo found who) (hk : h.crowd.callers[i]? = some k)
    (mover : who h.clock = some i) {k' : Caller} {first : Nat} (found' : found (h.clock + 1) = h.crowd.value)
    (plan : k'.plan = k.plan) (same : k'.results = k.results)
    (swapping : ∀ c seen next, k'.swapping = some (c, seen, next) →
      Swapping ⟨⟨h.crowd.value, h.crowd.callers.set i k'⟩, h.clock + 1, fun j => if j = i then first else h.since j,
        h.episodes⟩ i c seen next found who) :
    Recorded g todo found who ⟨⟨h.crowd.value, h.crowd.callers.set i k'⟩, h.clock + 1,
      fun j => if j = i then first else h.since j, h.episodes⟩ := by
  have hi := (List.getElem?_eq_some_iff.1 hk).1
  refine ⟨found', r.plans_set hk plan, fun j => (r.results j).trans ?_, r.serial, r.ordered,
    fun e he => (r.told e he).later, fun n hn hne => ?_, fun j kj c seen next hj hs => ?_⟩
  · by_cases hij : j = i
    · subst hij
      simp only [List.getElem?_set_self hi, hk, Option.map_some, same]
    · simp only [List.getElem?_set_ne (Ne.symm hij)]
  · rcases Nat.lt_succ_iff_lt_or_eq.1 hn with hlt | rfl
    · exact r.changed n hlt hne
    · exact absurd (found'.trans r.now.symm) hne
  · by_cases hij : j = i
    · subst hij
      rw [List.getElem?_set_self hi, Option.some.injEq] at hj
      exact swapping c seen next (by rw [hj]; exact hs)
    · rw [List.getElem?_set_ne (Ne.symm hij)] at hj
      exact (r.swapping j kj c seen next hj hs).others mover hij rfl (if_neg hij)

/-- a call ends: the change is attempted on the stage that its last access finds -/
theorem recorded_ends (r : h.Recorded g todo found who) (hk : h.crowd.callers[i]? = some k)
    (mover : who h.clock = some i) {k' : Caller} {c : Change} (active : k.begins ∨ ∃ s, k.swapping = some s)
    (found' : found (h.clock + 1) = (h.crowd.value.attempt c).2) (plan : k'.plan = k.plan)
    (results : k'.results = k.results ++ [(c, (h.crowd.value.attempt c).1)]) (idle : k'.swapping = none) :
    Recorded g todo found who ⟨⟨(h.crowd.value.attempt c).2, h.crowd.callers.set i k'⟩, h.clock + 1,
      fun j => if j = i then if k.begins then h.clock else h.since i else h.since j,
      h.episodes ++ [⟨i, c, (h.crowd.value.attempt c).1, if k.begins then h.clock else h.since i, h.clock⟩]⟩ := by
  have hi := (List.getElem?_eq_some_iff.1 hk).1
  obtain ⟨hfirst, hbegun, hquiet⟩ := r.unfinished hk mover active
  refine ⟨found', r.plans_set hk plan, fun j => ?_, ?_, ?_, fun e he => ?_, fun n hn hne => ?_,
    fun j kj c seen next hj hs => ?_⟩
  · have hold := r.results j
    rw [answersOf] at hold ⊢
    rw [List.filter_append, List.map_append, hold]
    by_cases hij : j = i
    · subst hij
      simp [List.getElem?_set_self hi, hk, results]
    · simp [List.getElem?_set_ne (Ne.symm hij), Ne.symm hij]
  · rw [List.map_append, List.map_cons, List.map_nil, Stage.perform_concat, r.serial]
    simp
  · rw [List.pairwise_append]
    refine ⟨r.ordered, List.pairwise_singleton _ _, fun a ha b hb => ?_⟩
    rw [List.mem_singleton.1 hb]
    exact (r.told a ha).past
  · rcases List.mem_append.1 he with he | he
    · exact (r.told e he).later
    · rw [List.mem_singleton.1 he]
      exact ⟨hfirst, Nat.lt_succ_self _, hbegun, mover, hquiet, by rw [r.now], by rw [found', r.now]⟩
  · rcases Nat.lt_succ_iff_lt_or_eq.1 hn with hlt | rfl
    · obtain ⟨e, he, hlast⟩ := r.changed n hlt hne
      exact ⟨e, List.mem_append_left _ he, hlast⟩
    · rw [found', r.now] at hne
      refine ⟨_, List.mem_append_right _ (.head _), rfl, ?_⟩
      rw [found', r.now]
      exact Stage.attempt_of_ne hne
  · by_cases hij : j = i
    · subst hij
      rw [List.getElem?_set_self hi, Option.some.injEq] at hj
      rw [← hj, idle] at hs
      cases hs
    · rw [List.getElem?_set_ne (Ne.symm hij)] at hj
      exact (r.swapping j kj c seen next hj hs).others mover hij rfl (if_neg hij)

/-- **Each access keeps what the chronicle says.** -/
theorem recorded_step (r : h.Recorded g todo found who) (mover : who h.clock = some i)
    (found' : found (h.clock + 1) = (h.step i).crowd.value) : (h.step i).Recorded g todo found who := by
  cases hk : h.crowd.callers[i]? with
  | none =>
    have hstep : h.step i = { h with clock := h.clock + 1 } := by simp [step, hk]
    rw [hstep] at found' ⊢
    refine ⟨found', r.plans, r.results, r.serial, r.ordered, fun e he => (r.told e he).later, fun n hn hne => ?_,
      fun j kj c seen next hj hs => ?_⟩
    · rcases Nat.lt_succ_iff_lt_or_eq.1 hn with hlt | rfl
      · exact r.changed n hlt hne
      · exact absurd (found'.trans r.now.symm) hne
    · have hij : j ≠ i := fun heq => by
        subst heq
        rw [hk] at hj
        cases hj
      exact (r.swapping j kj c seen next hj hs).others mover hij rfl rfl
  | some k =>
    rcases hs : k.step h.crowd.value with ⟨value, k'⟩
    have does : k.Does h.crowd.value value k' := by
      have := k.step_does h.crowd.value
      rwa [hs] at this
    have hstep : h.step i = ⟨⟨value, h.crowd.callers.set i k'⟩, h.clock + 1,
        fun j => if j = i then if k.begins then h.clock else h.since i else h.since j, h.episodes ++
          (k'.results.drop k.results.length).map fun a => ⟨i, a.1, a.2, if k.begins then h.clock else h.since i, h.clock⟩⟩ := by
      simp [step, hk, Crowd.step_present hk, hs, Caller.answers]
    have hplan := does.plan
    rw [hstep] at found' ⊢
    cases does with
    | rests idle done =>
      simp only [List.drop_length, List.map_nil, List.append_nil]
      exact recorded_goes_on r hk mover found' rfl rfl fun c seen next hbusy => by rw [idle] at hbusy; cases hbusy
    | aims tries legal =>
      simp only [List.drop_length, List.map_nil, List.append_nil]
      obtain ⟨hfirst, hbegun, hquiet⟩ := r.unfinished hk mover tries.active
      refine recorded_goes_on r hk mover found' hplan rfl fun c seen next hbusy => ?_
      cases hbusy
      refine ⟨?_, ?_, legal, fun n hn hlt hw => ?_, h.clock, Nat.lt_succ_self _, mover, found', fun n hn hlt => ?_⟩
      · simpa using Nat.lt_succ_of_le hfirst
      · simpa using hbegun
      · simp only [if_true] at hn
        rcases Nat.lt_succ_iff_lt_or_eq.1 hlt with hlt | rfl
        · exact hquiet n hn hlt hw
        · exact found'.trans r.now.symm
      · exact absurd hlt (Nat.not_lt.2 hn)
    | swaps busy =>
      have hattempt := Stage.attempt_legal (r.swapping i k _ _ _ hk busy).legal
      have := recorded_ends (c := _) r hk mover (.inr ⟨_, busy⟩) (found'.trans (by rw [hattempt])) hplan
        (by rw [hattempt]) rfl
      rw [hattempt] at this
      simpa using this
    | refused tries illegal =>
      have hattempt := Stage.attempt_illegal illegal
      have := recorded_ends r hk mover tries.active (found'.trans (by rw [hattempt])) hplan (by rw [hattempt]) rfl
      rw [hattempt] at this
      simpa using this

end Chronicle

end

/-- **After each access of a schedule, the chronicle says what has happened.** -/
theorem Crowd.recorded (g : Stage) (todo : List (List Change)) (schedule : List Nat) {n : Nat} (hn : n ≤ schedule.length) :
    ((gathered g todo).chronicle (schedule.take n)).Recorded g todo ((gathered g todo).stageAt schedule)
      (schedule[·]?) := by
  induction n with
  | zero =>
    refine ⟨rfl, ?_, fun i => ?_, rfl, .nil, nofun, nofun, fun i k c seen next hk hs => ?_⟩
    · have hplan : (Caller.plan ∘ fun changes => { todo := changes }) = id := by
        funext changes
        simp [Caller.plan]
      simp [chronicle, gathered, hplan]
    · cases h : todo[i]? <;> simp [chronicle, gathered, Chronicle.answersOf, h]
    · obtain ⟨changes, -, rfl⟩ : ∃ changes, todo[i]? = some changes ∧ ({ todo := changes } : Caller) = k := by
        simpa [chronicle, gathered] using hk
      cases hs
  | succ n ih =>
    have hlt : n < schedule.length := hn
    have htake : schedule.take (n + 1) = schedule.take n ++ [schedule[n]] := by simp
    have hclock : ((gathered g todo).chronicle (schedule.take n)).clock = n := by
      rw [chronicle_clock, List.length_take_of_le (Nat.le_of_lt hlt)]
    have hnext := chronicle_crowd (gathered g todo) (schedule.take (n + 1))
    rw [htake, chronicle_concat] at hnext ⊢
    refine Chronicle.recorded_step (ih (Nat.le_of_lt hlt)) ?_ ?_
    · rw [hclock]
      exact List.getElem?_eq_getElem hlt
    · rw [hclock, stageAt, htake, hnext]

/-! ## Who wins -/

theorem Stage.leads_of_perform {g last : Stage} {episodes : List Episode}
    (h : g.perform (episodes.map (·.change)) = (episodes.map (·.outcome), last)) :
    g.Leads (episodes.filterMap Episode.swap?) last := by
  induction episodes generalizing g with
  | nil => exact congrArg Prod.snd h
  | cons e rest ih =>
    simp only [List.map_cons, perform, Prod.mk.injEq, List.cons.injEq] at h
    obtain ⟨⟨houtcome, hrest⟩, hlast⟩ := h
    have hleads := ih (Prod.ext hrest hlast)
    cases ha : g.after? e.change with
    | some next =>
      rw [attempt_legal ha] at houtcome hleads
      simp only [List.filterMap_cons, Episode.swap?, ← houtcome]
      exact ⟨rfl, ha, hleads⟩
    | none =>
      rw [attempt_illegal ha] at houtcome hleads
      simpa only [List.filterMap_cons, Episode.swap?, ← houtcome] using hleads

/-- attempts at a change that is not legal are all refused -/
theorem Stage.perform_refused {g last : Stage} {c : Change} {episodes : List Episode} (illegal : g.after? c = none)
    (h : g.perform (episodes.map (·.change)) = (episodes.map (·.outcome), last)) (same : ∀ e ∈ episodes, e.change = c) :
    episodes.countP (·.outcome.isMade) = 0 := by
  induction episodes with
  | nil => rfl
  | cons e rest ih =>
    simp only [List.map_cons, perform, Prod.mk.injEq, List.cons.injEq] at h
    rw [same e (.head _), attempt_illegal illegal] at h
    rw [List.countP_cons, ih (Prod.ext h.1.2 h.2) fun a ha => same a (.tail _ ha), ← h.1.1]
    rfl

/-- of attempts at one change, the first succeeds if it is legal, and no other -/
theorem Stage.perform_race {g last : Stage} {c : Change} {episodes : List Episode}
    (h : g.perform (episodes.map (·.change)) = (episodes.map (·.outcome), last)) (same : ∀ e ∈ episodes, e.change = c) :
    episodes.countP (·.outcome.isMade) = if episodes ≠ [] ∧ (g.after? c).isSome then 1 else 0 := by
  cases ha : g.after? c with
  | none => simpa using perform_refused ha h same
  | some next =>
    cases episodes with
    | nil => rfl
    | cons e rest =>
      simp only [List.map_cons, perform, Prod.mk.injEq, List.cons.injEq] at h
      rw [same e (.head _), attempt_legal ha] at h
      have hrest := perform_refused (after?_twice ha) (Prod.ext h.1.2 h.2) fun a hm => same a (.tail _ hm)
      rw [List.countP_cons, hrest, ← h.1.1]
      rfl

namespace Crowd

theorem wins_set {callers : List Caller} {i : Nat} {k : Caller} (h : callers[i]? = some k) (k' : Caller)
    (value value' : Stage) : wins ⟨value', callers.set i k'⟩ + k.wins = wins ⟨value, callers⟩ + k'.wins := by
  induction callers generalizing i with
  | nil => cases h
  | cons a rest ih =>
    cases i with
    | zero =>
      cases h
      simp only [wins, List.set_cons_zero, List.foldr_cons]
      omega
    | succ i =>
      have := ih (i := i) h
      simp only [wins, List.set_cons_succ, List.foldr_cons] at this ⊢
      omega

end Crowd

theorem Caller.wins_eq (k : Caller) : k.wins = k.results.countP (·.2.isMade) := by
  refine List.countP_congr fun r _ => ?_
  rcases r with ⟨c, _ | _⟩ <;> rfl

/-- an access adds to the results what it brings to an end -/
theorem Caller.results_step (value : Stage) (k : Caller) : (k.step value).2.results = k.results ++ k.answers value := by
  rw [Caller.answers]
  rcases hs : k.step value with ⟨v, k'⟩
  have does : k.Does value v k' := by
    have := k.step_does value
    rwa [hs] at this
  cases does <;> simp

/-- the callers have won as often as the chronicle says -/
theorem Crowd.wins_chronicle (w : Crowd) (schedule : List Nat) (fresh : w.wins = 0) :
    (w.chronicle schedule).crowd.wins = (w.chronicle schedule).episodes.countP (·.outcome.isMade) := by
  induction schedule using List.reverseRecOn with
  | nil => exact fresh
  | append_singleton schedule i ih =>
    rw [chronicle_concat, Chronicle.step]
    generalize w.chronicle schedule = h at ih ⊢
    cases hk : h.crowd.callers[i]? with
    | none => exact ih
    | some k =>
      have hset := wins_set hk (k.step h.crowd.value).2 h.crowd.value (k.step h.crowd.value).1
      rw [Caller.wins_eq (k.step _).2, Caller.results_step, List.countP_append, ← Caller.wins_eq] at hset
      have hnews : ∀ (answers : List (Change × Outcome)) (first : Nat),
          (answers.map fun a => (⟨i, a.1, a.2, first, h.clock⟩ : Episode)).countP (·.outcome.isMade) =
            answers.countP (·.2.isMade) := fun answers first => by rw [List.countP_map]; rfl
      simp only [step_present hk, List.countP_append, hnews, ← ih]
      have hwins : wins ⟨h.crowd.value, h.crowd.callers⟩ = h.crowd.wins := rfl
      omega

/-! ## Callers that race for one change -/

/-- a caller that attempts a single change, legal from `g` if at all, and has made so many accesses -/
def Caller.Racer (g : Stage) (c : Change) (k : Caller) : Nat → Prop
  | 0 => k = { todo := [c] }
  | 1 => (∃ next, g.after? c = some next ∧ k = ⟨[], some (c, g, next), []⟩) ∨ ∃ o, k = ⟨[], none, [(c, o)]⟩
  | _ + 2 => ∃ o, k = ⟨[], none, [(c, o)]⟩

/-- the second access ends the call -/
theorem Caller.racer_step {g value : Stage} {c : Change} {k : Caller} {n : Nat}
    (now : value = g ∨ g.after? c = some value) (h : k.Racer g c n) :
    ((k.step value).1 = g ∨ g.after? c = some (k.step value).1) ∧ (k.step value).2.Racer g c (n + 1) := by
  have done : ∀ o, k = ⟨[], none, [(c, o)]⟩ → k.step value = (value, k) := by
    rintro o rfl
    rfl
  match n, h with
  | 0, h =>
    obtain rfl := h
    cases ha : value.after? c with
    | none => exact ⟨now, .inr ⟨.refused value, by simp [step, decide, ha]⟩⟩
    | some next =>
      -- the change is not legal any more once it was made
      have hg : value = g := now.resolve_right fun h => by rw [Stage.after?_twice h] at ha; cases ha
      subst hg
      exact ⟨now, .inl ⟨next, ha, by simp [step, decide, ha]⟩⟩
  | 1, .inl ⟨next, legal, hk⟩ =>
    subst hk
    by_cases hg : value = g
    · subst hg
      exact ⟨by simp [step, legal], .made value next, by simp [step]⟩
    · have ha := Stage.after?_twice (now.resolve_left hg)
      exact ⟨by simpa [step, hg] using now, .refused value, by simp [step, hg, decide, ha]⟩
  | 1, .inr ⟨o, hk⟩ | _ + 2, ⟨o, hk⟩ =>
    rw [done o hk]
    exact ⟨now, o, hk⟩

/-- where racing callers stand after so many accesses of each -/
theorem Crowd.race_run (g : Stage) (c : Change) (n : Nat) (schedule : List Nat) :
    (((racing g c n).run schedule).value = g ∨ g.after? c = some ((racing g c n).run schedule).value) ∧
      ((racing g c n).run schedule).callers.length = n ∧
      ∀ (i : Nat) (k : Caller), ((racing g c n).run schedule).callers[i]? = some k → k.Racer g c (schedule.count i) := by
  induction schedule using List.reverseRecOn with
  | nil =>
    refine ⟨.inl rfl, by simp [run, racing], fun i k hk => ?_⟩
    exact (List.eq_of_mem_replicate (List.mem_of_getElem? hk) : k = { todo := [c] })
  | append_singleton schedule i ih =>
    rw [run_concat]
    generalize (racing g c n).run schedule = w at ih ⊢
    obtain ⟨now, length, racers⟩ := ih
    cases hi : w.callers[i]? with
    | none =>
      rw [step_absent hi]
      refine ⟨now, length, fun j k hk => ?_⟩
      have hij : i ≠ j := fun heq => by
        subst heq
        rw [hi] at hk
        cases hk
      simpa [List.count_append, List.count_singleton, hij] using racers j k hk
    | some a =>
      rw [step_present hi]
      have hracer := Caller.racer_step now (racers i a hi)
      refine ⟨hracer.1, by simpa using length, fun j k hk => ?_⟩
      by_cases hij : i = j
      · subst hij
        rw [List.getElem?_set_self (List.getElem?_eq_some_iff.1 hi).1, Option.some.injEq] at hk
        rw [← hk, List.count_append, List.count_singleton_self]
        exact hracer.2
      · rw [List.getElem?_set_ne hij] at hk
        simpa [List.count_append, List.count_singleton, hij] using racers j k hk

theorem Crowd.wins_gathered (g : Stage) (todo : List (List Change)) : (gathered g todo).wins = 0 := by
  induction todo with
  | nil => rfl
  | cons changes rest ih => exact (Nat.zero_add _).trans ih

/-- callers whose only plan is a change attempt no other -/
theorem Chronicle.Recorded.same {g : Stage} {found : Nat → Stage} {who : Nat → Option Nat} {h : Chronicle} {c : Change}
    {n : Nat} (r : h.Recorded g (List.replicate n [c]) found who) {e : Episode} (he : e ∈ h.episodes) : e.change = c := by
  have hmem : (e.change, e.outcome) ∈ h.answersOf e.caller := List.mem_map.2 ⟨e, by simp [he], rfl⟩
  rw [r.results e.caller] at hmem
  cases hk : h.crowd.callers[e.caller]? with
  | none => simp [hk] at hmem
  | some k =>
    have hplan : k.plan ∈ List.replicate n [c] := r.plans ▸ List.mem_map_of_mem (List.mem_of_getElem? hk)
    have hchange : e.change ∈ k.plan := by
      simp only [hk, Option.map_some, Option.getD_some] at hmem
      exact List.mem_append_left _ (List.mem_append_left _ (List.mem_map_of_mem hmem))
    rw [List.eq_of_mem_replicate hplan] at hchange
    exact List.mem_singleton.1 hchange

/-- **A race has one winner if the change is legal, and none otherwise**, as soon as any caller has made two accesses, which
end its call. -/
theorem Crowd.race_won {g : Stage} {c : Change} {n : Nat} {schedule : List Nat} {i : Nat} (hi : i < n)
    (twice : 2 ≤ schedule.count i) :
    (∃ o, ((racing g c n).run schedule).callers[i]? = some ⟨[], none, [(c, o)]⟩) ∧
      ((racing g c n).run schedule).wins = if (g.after? c).isSome then 1 else 0 := by
  obtain ⟨-, length, racers⟩ := race_run g c n schedule
  have hgathered : racing g c n = gathered g (List.replicate n [c]) := by simp [racing, gathered]
  have hcaller := List.getElem?_eq_getElem (Nat.lt_of_lt_of_eq hi length.symm)
  obtain ⟨o, ho⟩ : ∃ o, ((racing g c n).run schedule).callers[i] = ⟨[], none, [(c, o)]⟩ := by
    have hracer := racers i _ hcaller
    obtain ⟨m, hm⟩ := Nat.exists_eq_add_of_le' twice
    rwa [hm] at hracer
  rw [ho] at hcaller
  refine ⟨⟨o, hcaller⟩, ?_⟩
  have r := recorded g (List.replicate n [c]) schedule (Nat.le_refl _)
  rw [List.take_length] at r
  rw [hgathered, ← chronicle_crowd] at hcaller ⊢
  -- somebody has an answer, so some call has ended
  have hended : ((gathered g (List.replicate n [c])).chronicle schedule).episodes ≠ [] := fun hnil => by
    have := r.results i
    rw [hcaller, Chronicle.answersOf, hnil] at this
    cases this
  rw [wins_chronicle _ _ (wins_gathered _ _), Stage.perform_race r.serial fun e he => r.same he]
  simp [hended]

/-! ## The result -/

theorem exists_change {found : Nat → Stage} {p n : Nat} (h : p ≤ n) (hne : found n ≠ found p) :
    ∃ m, p ≤ m ∧ m < n ∧ found (m + 1) ≠ found m := by
  induction h with
  | refl => exact absurd rfl hne
  | @step n hpn ih =>
    by_cases h : found n = found p
    · exact ⟨n, hpn, Nat.lt_succ_self n, fun heq => hne (heq.trans h)⟩
    · obtain ⟨m, hpm, hmn, hm⟩ := ih h
      exact ⟨m, hpm, Nat.lt_succ_of_lt hmn, hm⟩

/-- a swap finds another stage only if somebody else has made a change since the caller looked -/
theorem Crowd.retried {g : Stage} {todo : List (List Change)} {schedule : List Nat} {n i : Nat} {k : Caller} {c : Change}
    {seen next : Stage} (hn : n < schedule.length) (hk : ((gathered g todo).run (schedule.take n)).callers[i]? = some k)
    (hs : k.swapping = some (c, seen, next)) (hne : (gathered g todo).stageAt schedule n ≠ seen) :
    ∃ e ∈ ((gathered g todo).chronicle schedule).episodes, e.caller ≠ i ∧ e.swap?.isSome ∧ e.last < n ∧
      ∀ p < n, schedule[p]? = some i → p < e.last := by
  have before := recorded g todo schedule (Nat.le_of_lt hn)
  have r := recorded g todo schedule (Nat.le_refl _)
  rw [List.take_length] at r
  rw [← chronicle_crowd] at hk
  obtain ⟨p, hp, hmine, hseen, hlast⟩ := (before.swapping i k c seen next hk hs).looked
  rw [chronicle_clock, List.length_take_of_le (Nat.le_of_lt hn)] at hp hlast
  obtain ⟨m, hpm, hmn, hm⟩ := exists_change (Nat.succ_le_of_lt hp) (hseen ▸ hne)
  obtain ⟨e, he, rfl, hmade⟩ := r.changed m (by rw [chronicle_clock]; omega) hm
  refine ⟨e, he, fun heq => ?_, by simp [Episode.swap?, hmade], hmn, fun q hq hwho => ?_⟩
  · exact hlast e.last hpm hmn (heq ▸ (r.told e he).ended)
  · have hqp : q ≤ p := Nat.le_of_not_lt fun h => hlast q h hq hwho
    exact Nat.lt_of_le_of_lt hqp hpm

/-- **Attempts by many callers are attempts one at a time.** For every stage of the cell, every list of changes of each
caller, and every order of their accesses:
- the callers keep to their plans, and the calls of the chronicle are the ones whose results they have;
- one at a time, in the order of the chronicle, these calls come to the same, and lead to the stage that the cell holds;
- no call stands before one that had ended when it began; the first and the last access of a call are its caller's;
- the successes are swaps along the table, from the first stage to the one that the cell holds;
- a refused call names the stage that its last access found, from which the change is not legal, and changes nothing;
- a swap that fails, fails because another caller has made a change since the last access of this one;
- of callers that race for one change, one wins if it is legal and none otherwise; two accesses end a call. -/
theorem attempts_linearizable (g : Stage) (todo : List (List Change)) (schedule : List Nat) :
    let w := Crowd.gathered g todo
    let h := w.chronicle schedule
    h.crowd = w.run schedule ∧ h.crowd.callers.map Caller.plan = todo ∧
      (∀ i, h.answersOf i = ((h.crowd.callers[i]?).map Caller.results).getD []) ∧
      g.perform (h.episodes.map (·.change)) = (h.episodes.map (·.outcome), h.crowd.value) ∧
      h.episodes.Pairwise (fun a b => a.last < b.last ∧ ¬ b.last < a.first) ∧
      (∀ e ∈ h.episodes, e.first ≤ e.last ∧ schedule[e.first]? = some e.caller ∧ schedule[e.last]? = some e.caller) ∧
      g.Leads (h.episodes.filterMap Episode.swap?) h.crowd.value ∧
      (∀ e ∈ h.episodes, ∀ s, e.outcome = .refused s → w.stageAt schedule e.last = s ∧ s.after? e.change = none ∧
        ∀ n, e.first ≤ n → n ≤ e.last → schedule[n]? = some e.caller →
          w.stageAt schedule (n + 1) = w.stageAt schedule n) ∧
      (∀ n i k c seen next, n < schedule.length → (w.run (schedule.take n)).callers[i]? = some k →
        k.swapping = some (c, seen, next) → w.stageAt schedule n ≠ seen →
        ∃ e ∈ h.episodes, e.caller ≠ i ∧ e.swap?.isSome ∧ e.last < n ∧ ∀ p < n, schedule[p]? = some i → p < e.last) ∧
      ∀ c n, ∀ i < n, 2 ≤ schedule.count i →
        (∃ o, ((Crowd.racing g c n).run schedule).callers[i]? = some ⟨[], none, [(c, o)]⟩) ∧
          ((Crowd.racing g c n).run schedule).wins = if (g.after? c).isSome then 1 else 0 := by
  intro w h
  have r : h.Recorded g todo (w.stageAt schedule) (schedule[·]?) := by
    have := Crowd.recorded g todo schedule (Nat.le_refl _)
    rwa [List.take_length] at this
  refine ⟨w.chronicle_crowd schedule, r.plans, r.results, r.serial, ?_, fun e he => ?_, Stage.leads_of_perform r.serial,
    fun e he s hs => ?_, fun n i k c seen next hn hk hs hne => Crowd.retried hn hk hs hne,
    fun c n i hi twice => Crowd.race_won hi twice⟩
  · refine r.ordered.imp_of_mem fun {a b} ha _ hlast => ⟨hlast, ?_⟩
    exact Nat.not_lt.2 (Nat.le_trans (r.told a ha).order (Nat.le_of_lt hlast))
  · have told := r.told e he
    exact ⟨told.order, told.begun, told.ended⟩
  · have told := r.told e he
    have houtcome := told.outcome
    have heffect := told.effect
    cases ha : (w.stageAt schedule e.last).after? e.change with
    | some next =>
      rw [hs, Stage.attempt_legal ha] at houtcome
      cases houtcome
    | none =>
      rw [Stage.attempt_illegal ha] at houtcome heffect
      cases hs.symm.trans houtcome
      refine ⟨rfl, ha, fun n hfirst hlast hwho => ?_⟩
      rcases Nat.lt_or_eq_of_le hlast with hlt | rfl
      · exact told.quiet n hfirst hlt hwho
      · exact heffect

/-- a shutdown that read the running stage is overtaken by a pause, tries again, and succeeds from the paused stage; a second
pause is refused -/
example : ((Crowd.gathered .running [[.shutdown], [.pause, .pause]]).chronicle [0, 1, 1, 0, 1, 0]).episodes =
    [⟨1, .pause, .made .running .paused, 1, 2⟩, ⟨1, .pause, .refused .paused, 4, 4⟩,
      ⟨0, .shutdown, .made .paused .closing, 0, 5⟩] := by rfl

end SecureEndpoint
