/-
Who closes the pool.

A shutdown that wins makes its thread the closer: it stops the dispatcher, collects the handles, joins the workers and
settles. `Frame.closes` are the places on this way. As long as nobody gives up the pool itself, there is exactly one closer
while the stage is closing, and none otherwise (`closing_move`): nobody else can settle, and nobody can start meanwhile.
A drop that wins the shutdown itself closes nothing: it lets the workers go (`Frame.detaches`). Until one does, there is still
the one closer; from then on the pool is closing for good (`closing_manned`, `givenUp_move`).
-/
import SecureEndpoint.Proofs.Workers.Stages

namespace SecureEndpoint.Workers

/-- an activation on the way from a shutdown that was made to the settling -/
def Frame.closes : Frame → Bool
  | .shutdown p => match p with
    | .ask | .answered _ | .tellResumed | .tellParked => true
    | _ => false
  | .stop p => match p with
    | .shutDone won => won
    | .collect | .join _ | .settleWant | .settleRead | .settleSwap .. => true
    | _ => false
  | _ => false

theorem countable_closes : Countable Frame.closes where
  calm f := by
    unfold Frame.calm
    split <;> rfl
  born _ := rfl
  called c := by cases c <;> rfl

/-- the value says that something was won -/
def Value.isTrue : Value → Bool
  | .flag b => b
  | _ => false

/-- a drop that has shut the pool down itself, and lets the workers go -/
def Frame.detaches : Frame → Bool
  | .drop p => match p with
    | .shutDone won => won
    | .collect => true
    | _ => false
  | _ => false

theorem countable_detaches : Countable Frame.detaches where
  calm f := by
    unfold Frame.calm
    split <;> rfl
  born _ := rfl
  called c := by cases c <;> rfl

theorem not_detaches {f : Frame} (h : f.kind ≠ .drop) : f.detaches = false := by
  cases f <;> first | rfl | exact absurd rfl h

theorem detaches_hosts {f : Frame} (h : f.hosts) : f.detaches = false := by
  cases f <;> first | rfl | cases h

theorem detaches_calls {f : Frame} {k : Kind} (h : f.Calls k) : f.detaches = false := by
  cases h <;> rfl

/-- only a drop that has shut the pool down goes on to let the workers go -/
theorem Transition.detaching {m : Machine} {t : ThreadId} {f : Frame} {e : Effect} (h : Transition m t f e) :
    e.own.frames.countP Frame.detaches ≤ [f].countP Frame.detaches := by
  cases h with
  | take h => cases h <;> exact Nat.le_refl _
  | @whim mode n p w => cases w <;> exact Nat.le_refl _
  | jobCall h =>
    cases h with
    | call c => cases c <;> exact Nat.le_refl _
    | meet | hold => exact Nat.le_refl _
  | _ => first | exact Nat.le_refl _ | exact Nat.zero_le _

/-- how many closers a step of an activation of kind `k` leaves in its place; a shutdown that returns `true` makes its
caller one -/
def Own.closers (own : Own) (k : Kind) : Nat :=
  match own with
  | .ret v => if k = .shutdown ∧ v.isTrue then 1 else 0
  | _ => own.frames.countP Frame.closes

/-- a step makes a closer where it shuts down, and unmakes one where it settles -/
theorem Transition.closers {m : Machine} {t : ThreadId} {f : Frame} {e : Effect} (h : Transition m t f e)
    (hc : f.closes → m.shared.stage = .closing) :
    e.own.closers f.kind + (if m.shared.stage = .closing then 1 else 0) =
      [f].countP Frame.closes + if e.shared.stage = .closing then 1 else 0 := by
  cases h with
  | take h => cases h <;> rfl
  | @whim mode n p w => cases w <;> rfl
  | jobCall h =>
    cases h with
    | call c => cases c <;> rfl
    | meet | hold => rfl
  | started h | paused h | resumed h =>
    simp [Own.closers, Own.frames, Frame.closes, Shared.goto, Shared.call, h]
  | shut hs h =>
    obtain rfl | rfl := hs <;> simp [Own.closers, Own.frames, Frame.closes, Shared.goto, h]
  | settle h => simp [Own.closers, Own.frames, Frame.closes, Shared.goto, h]
  | settleRefused h => exact absurd (hc rfl) h
  | _ => rfl

/-- the activations below a step's own: the one that receives a won shutdown becomes a closer or, where it is a drop, lets
the workers go; the others stay -/
theorem ending_stack {w : Option Nat} {f : Frame} {below : List Frame} {own : Own} (hn : Nested w (f :: below))
    (hfit : own.Fits f.kind) :
    (own.stack below).countP Frame.closes + (own.stack below).countP Frame.detaches =
      own.closers f.kind + own.frames.countP Frame.detaches +
        (below.countP Frame.closes + below.countP Frame.detaches) := by
  cases own with
  | become g =>
    simp only [Own.stack, Own.closers, Own.frames, List.countP_cons, List.countP_nil]
    omega
  | call g callee =>
    simp only [Own.stack, Own.closers, Own.frames, List.countP_cons, List.countP_nil]
    omega
  | ret v =>
    cases hn with
    | worker => rfl
    | outside hc =>
      have hk : f.kind ≠ .shutdown := fun hk => by rw [hk] at hc; cases hc
      simp [Own.stack, Own.closers, Own.frames, hk]
    | @call _ _ g rest _ hc =>
      simp only [Own.stack, Own.closers, Own.frames, List.countP_cons, List.countP_nil]
      generalize f.kind = k at hc
      cases hc with
      | shut | detach =>
        cases v with
        | flag b => cases b <;> simp +arith [Frame.receive, Frame.closes, Frame.detaches, Value.isTrue]
        | _ => simp [Frame.receive, Frame.closes, Frame.detaches, Value.isTrue]
      | ask => cases v <;> simp [Frame.receive, Frame.closes, Frame.detaches]
      | @action id due actions _ hcall =>
        have hk : k ≠ .shutdown := fun hk => by rw [hk] at hcall; cases hcall
        rcases due with _ | ⟨label, value⟩ <;> simp [Frame.receive, Frame.closes, Frame.detaches, hk]
      | _ => simp [Frame.receive, Frame.closes, Frame.detaches]
  | unwind =>
    have hcloses : below.countP Frame.closes = 0 := List.countP_eq_zero.2 fun g hg => by
      have := hn.hosts hfit g hg
      cases g <;> simp_all [Frame.hosts, Frame.closes]
    have hdetaches : below.countP Frame.detaches = 0 := List.countP_eq_zero.2 fun g hg => by
      simp [detaches_hosts (hn.hosts hfit g hg)]
    rw [hcloses, hdetaches]
    rfl

/-- no answer and no panic takes a drop that lets the workers go from its way -/
theorem detaches_le {w : Option Nat} {f : Frame} {below : List Frame} {own : Own} (hn : Nested w (f :: below))
    (hfit : own.Fits f.kind) :
    own.frames.countP Frame.detaches + below.countP Frame.detaches ≤ (own.stack below).countP Frame.detaches := by
  cases own with
  | become g =>
    simp only [Own.stack, Own.frames, List.countP_cons, List.countP_nil]
    omega
  | call g callee =>
    simp only [Own.stack, Own.frames, List.countP_cons, List.countP_nil]
    omega
  | ret v =>
    cases below with
    | nil => exact Nat.le_refl 0
    | cons g rest =>
      have hwaits : g.detaches = false := detaches_calls hn.called
      simp [Own.stack, Own.frames, List.countP_cons, hwaits]
  | unwind =>
    have hzero : below.countP Frame.detaches = 0 := List.countP_eq_zero.2 fun g hg => by
      simp [detaches_hosts (hn.hosts hfit g hg)]
    rw [hzero]
    exact Nat.le_refl 0

/-- where no drop waits below, nobody lets the workers go but the step itself -/
theorem detaches_stack {below : List Frame} {own : Own} (hd : ∀ g ∈ below, g.kind ≠ .drop) :
    (own.stack below).countP Frame.detaches = own.frames.countP Frame.detaches := by
  have hzero : ∀ {l : List Frame}, (∀ g ∈ l, g.kind ≠ .drop) → l.countP Frame.detaches = 0 := fun h =>
    List.countP_eq_zero.2 fun g hg => by simp [not_detaches (h g hg)]
  cases own with
  | become g => simp [Own.stack, Own.frames, List.countP_cons, hzero hd]
  | call g callee => simp [Own.stack, Own.frames, List.countP_cons, hzero hd]
  | ret v =>
    cases below with
    | nil => rfl
    | cons g rest =>
      refine hzero fun k hk => ?_
      rcases List.mem_cons.1 hk with rfl | hk
      · rw [kind_receive]
        exact hd g (.head _)
      · exact hd k (.tail _ hk)
  | unwind => rfl

namespace Machine

/-- nobody gives up the pool -/
def kept (m : Machine) : Bool := m.threads.all fun th => th.stack.all fun f => f.kind ≠ .drop

theorem kept_stack {m : Machine} (h : m.kept) {t : ThreadId} {th : Thread} (ht : m.threads[t]? = some th) :
    ∀ f ∈ th.stack, f.kind ≠ .drop := by
  have := List.all_eq_true.1 (List.all_eq_true.1 h th (List.mem_of_getElem? ht))
  exact fun f hf => by simpa using this f hf

/-- no drop lets the workers go -/
def Manned (m : Machine) : Prop := m.tally Frame.detaches = 0

theorem manned_of_kept {m : Machine} (h : m.kept) : m.Manned := by
  refine List.countP_eq_zero.2 fun f hf => ?_
  obtain ⟨u, hu, hmem⟩ := List.mem_flatMap.1 hf
  obtain ⟨th, hth, rfl⟩ := List.mem_map.1 hu
  obtain ⟨g, hg, rfl⟩ := List.mem_map.1 hmem
  obtain ⟨t, ht⟩ := List.getElem?_of_mem hth
  simp [countable_detaches.calm, not_detaches (kept_stack h ht g hg)]

theorem Manned.mem {m : Machine} (h : m.Manned) {t : ThreadId} {f : Frame} (hf : f ∈ m.stackOf t) : f.detaches = false := by
  by_contra hd
  have hpos := tally_pos hf (by simpa using hd)
  rw [h] at hpos
  cases hpos

/-- there is one closer while the stage is closing, and none otherwise -/
def OneCloser (m : Machine) : Prop := m.tally Frame.closes = if m.shared.stage = .closing then 1 else 0

theorem OneCloser.closing {m : Machine} (h : m.OneCloser) {t : ThreadId} {f : Frame} (hf : f ∈ m.stackOf t)
    (hc : f.closes) : m.shared.stage = .closing := by
  have hpos := tally_pos hf hc
  rw [h] at hpos
  by_cases hg : m.shared.stage = .closing
  · exact hg
  · simp [hg] at hpos

theorem closing_fresh (size : Nat) (stem : String) (dispatches : Bool) : (fresh size stem dispatches).OneCloser := by
  simp [OneCloser, fresh, tally, frames, roster]

section

variable {m m' : Machine} {w : Option (Stage × Change)}

/-- as long as the workers are not let go: while the stage is closing there is one who closes the pool or lets the workers
go, and nobody otherwise -/
theorem ending_move (hm : m.Sound) (hh : m.Manned) (h : m.OneCloser) (mv : m.Moved m' w) :
    m'.tally Frame.closes + m'.tally Frame.detaches = if m'.shared.stage = .closing then 1 else 0 := by
  have hone := h
  have hnone := hh
  rw [OneCloser] at hone
  rw [Manned] at hnone
  cases mv with
  | @step t th f below e s =>
    have hf : f.detaches = false := (countable_detaches.calm f).symm.trans (hh.mem s.mem)
    have hcloses := tally_step countable_closes s
    have hdetaches := tally_step countable_detaches s
    have hstep := s.go.closers fun hc => OneCloser.closing h s.mem (by rwa [countable_closes.calm])
    have hnew := s.go.detaching
    have hstack := ending_stack (s.nested hm.formed) s.go.fits
    rw [s.stage]
    rw [List.countP_cons] at hcloses hdetaches
    rw [List.countP_singleton] at hstep hnew
    simp only [hf, Bool.false_eq_true, if_false] at hdetaches hnew
    omega
  | still gates hsh hr => rw [tally_still hr, tally_still hr, hnone, hone, hsh, Nat.add_zero]
  | call c ht hw hs hsh hr =>
    rw [tally_call countable_closes ht hs hr, tally_call countable_detaches ht hs hr, hnone, hone, hsh, Nat.add_zero]
  | enter hsh hr => rw [tally_enter hr, tally_enter hr, hnone, hone, hsh, Nat.add_zero]

/-- as long as nobody gives up the pool, the workers are not let go either -/
theorem manned_move (hk : m.kept) (mv : m.Moved m' w) : m'.Manned := by
  have hh := manned_of_kept hk
  rw [Manned] at hh ⊢
  cases mv with
  | @step t th f below e s =>
    have hdrop : ∀ g ∈ f :: below, g.kind ≠ .drop := fun g hg => kept_stack hk s.thread g (by rwa [s.top])
    have hcount := tally_step countable_detaches s
    have hstack : (e.own.stack below).countP Frame.detaches = e.own.frames.countP Frame.detaches :=
      detaches_stack fun g hg => hdrop g (.tail _ hg)
    have hnew := s.go.detaching
    rw [List.countP_singleton, not_detaches (hdrop f (.head _))] at hnew
    simp only [Bool.false_eq_true, if_false] at hnew
    omega
  | still gates hsh hr => rw [tally_still hr, hh]
  | call c ht hw hs hsh hr => rw [tally_call countable_detaches ht hs hr, hh]
  | enter hsh hr => rw [tally_enter hr, hh]

theorem closing_move (hm : m.Sound) (hk : m.kept) (h : m.OneCloser) (mv : m.Moved m' w) : m'.OneCloser := by
  have hending := ending_move hm (manned_of_kept hk) h mv
  have hmanned := manned_move hk mv
  rw [Manned] at hmanned
  rw [OneCloser]
  omega

/-- a drop has let the workers go: the pool is closing, and nobody is going to settle -/
structure GivenUp (m : Machine) : Prop where
  stage : m.shared.stage = .closing
  closers : m.tally Frame.closes = 0

/-- the one closer stays, or the pool is given up -/
theorem closing_manned (hm : m.Sound) (hh : m.Manned) (h : m.OneCloser) (mv : m.Moved m' w) :
    m'.Manned ∧ m'.OneCloser ∨ m'.GivenUp := by
  have hending := ending_move hm hh h mv
  by_cases hmanned : m'.Manned
  · refine .inl ⟨hmanned, ?_⟩
    rw [Manned] at hmanned
    rw [OneCloser]
    omega
  · rw [Manned] at hmanned
    have hstage : m'.shared.stage = .closing := by
      by_contra hne
      rw [if_neg hne] at hending
      omega
    rw [if_pos hstage] at hending
    exact .inr ⟨hstage, by omega⟩

/-- a pool that is given up stays so -/
theorem givenUp_move (hm : m.Sound) (h : m.GivenUp) (mv : m.Moved m' w) : m'.GivenUp := by
  obtain ⟨hclosing, hnone⟩ := h
  cases mv with
  | @step t th f below e s =>
    have hcount := tally_step countable_closes s
    have hstep := s.go.closers fun _ => hclosing
    have hstack := ending_stack (s.nested hm.formed) s.go.fits
    rw [List.countP_cons] at hcount
    rw [List.countP_singleton, if_pos hclosing] at hstep
    have hkept := detaches_le (s.nested hm.formed) s.go.fits
    have hstage : e.shared.stage = .closing := by
      by_contra hne
      rw [if_neg hne] at hstep
      omega
    rw [if_pos hstage] at hstep
    exact ⟨s.stage.trans hstage, by omega⟩
  | still gates hsh hr => exact ⟨by rw [hsh]; exact hclosing, by rw [tally_still hr, hnone]⟩
  | call c ht hw hs hsh hr => exact ⟨by rw [hsh]; exact hclosing, by rw [tally_call countable_closes ht hs hr, hnone]⟩
  | enter hsh hr => exact ⟨by rw [hsh]; exact hclosing, by rw [tally_enter hr, hnone]⟩

end

end Machine

end SecureEndpoint.Workers
