/-
The places of a drop.

Whoever drops the last handle of a pool goes one of three ways (`Way`): a stopped pool is left as it is; from outside the pool
is stopped and its workers are joined; on one of the workers, which cannot join itself, the pool moves to its last stage and
the workers are let go. `Frame.Leaves` says at each place of the drop, and of whatever it calls, what is true of the pool there.
- `leaves_keeps`: this stays true while others go on that neither use the pool nor restart its dispatcher.
- `quits_own`: each step of the dropping thread leads to such a place again, or the drop returns and the pool is done with.
- `quits_nearer`: each such step brings it nearer to its end.
-/
import SecureEndpoint.Proofs.Workers.Abandoned

namespace SecureEndpoint.Workers

/-! ## What the places of a drop say -/

/-- how a pool is given up -/
inductive Way where
  /-- it is stopped already -/
  | idle
  /-- its workers are joined -/
  | outside
  /-- its workers are let go -/
  | inside
  deriving DecidableEq

namespace Shared

/-- the pool can be shut down -/
def Opened (s : Shared) : Prop := s.stage = .running ∨ s.stage = .paused

/-- the pool is in its last stage, with its dispatcher stopped -/
def Shut (s : Shared) : Prop := s.stage = .closing ∧ s.dispatcher.stopped = true

end Shared

namespace Way

/-- what is true of the pool before anything is done -/
def Begins (way : Way) (t : ThreadId) (s : Shared) : Prop :=
  match way with
  | .idle => s.stage = .stopped ∧ s.handles = []
  | .outside => s.Opened ∧ t ∉ s.handles
  | .inside => s.Opened ∧ t ∈ s.handles

/-- what is true of the pool once everything is done -/
structure Done (way : Way) (s : Shared) : Prop where
  stage : s.stage = if way = .inside then .closing else .stopped
  handles : s.handles = []
  halted : way ≠ .idle → s.dispatcher.stopped = true

end Way

namespace Frame

/-- what the place of an activation says about the pool that thread `t` is giving up -/
def Leaves (t : ThreadId) (way : Way) (s : Shared) : Frame → Prop
  | .drop p => match p with
    | .read => way.Begins t s
    | .want | .own => way ≠ .idle ∧ way.Begins t s
    | .stopping => way = .outside ∧ way.Done s
    | .shut => way = .inside ∧ s.Opened
    | .shutDone true | .collect => way = .inside ∧ s.Shut
    | .shutDone false => False
  | .stop p => way = .outside ∧ match p with
    | .want | .own | .shut => s.Opened
    | .shutDone true | .collect => s.Shut
    | .shutDone false => False
    | .join rest => s.Shut ∧ s.handles = [] ∧ t ∉ rest
    | .settleWant | .settleRead | .settleSwap .. => s.Shut ∧ s.handles = []
    | .settled => way.Done s
  | .shutdown p => match p with
    | .want | .read | .swap .. => s.Opened
    | .ask | .answered false => s.stage = .closing
    | .answered true | .tellResumed | .tellParked => s.Shut
  | .ask q _ => q = .stopped ∧ s.stage = .closing
  | .halt p => match p with
    | .want | .locked => s.stage = .closing
    | .tell => s.Shut
  | _ => False

/-- an activation of the drop that waits for what it has called -/
def waits (way : Way) : Frame → Bool
  | .drop .stopping | .stop .shut => way = .outside
  | .drop .shut => way = .inside
  | .shutdown .ask | .shutdown .tellResumed => true
  | _ => false

end Frame

/-- what lies below an activation of kind `k`: down to the drop they wait, and below the drop there are only jobs, loops and
the worker itself -/
def Beneath (way : Way) (k : Kind) : List Frame → Prop
  | [] => k = .drop
  | g :: rest => if k = .drop then ∀ b ∈ g :: rest, b.hosts else g.waits way ∧ Beneath way g.kind rest

/-- thread `t`, with these activations, is giving up the pool -/
structure Quits (t : ThreadId) (way : Way) (s : Shared) (f : Frame) (below : List Frame) : Prop where
  place : f.Leaves t way s
  below : Beneath way f.kind below
  away : way = .outside → t ∉ s.handles

section

variable {t : ThreadId} {way : Way} {s s' : Shared} {f g : Frame} {below : List Frame} {k : Kind}

theorem beneath_drop : Beneath way .drop below ↔ ∀ b ∈ below, b.hosts := by
  cases below with
  | nil => exact ⟨fun _ => nofun, fun _ => rfl⟩
  | cons g rest => rw [Beneath, if_pos rfl]

theorem beneath_call (hk : k ≠ .drop) (hg : g.waits way) (h : Beneath way g.kind below) : Beneath way k (g :: below) := by
  rw [Beneath, if_neg hk]
  exact ⟨hg, h⟩

theorem Beneath.caller (h : Beneath way k below) (hk : k ≠ .drop) :
    ∃ g rest, below = g :: rest ∧ g.waits way ∧ Beneath way g.kind rest := by
  cases below with
  | nil => exact absurd h hk
  | cons g rest =>
    rw [Beneath, if_neg hk] at h
    exact ⟨g, rest, rfl, h⟩

theorem hosts_calm (f : Frame) : f.calm.hosts = f.hosts := by
  cases f with
  | worker i p => cases p <;> rfl
  | drive mode j p => cases p <;> rfl
  | waitPaused l x p => cases p <;> rfl
  | _ => rfl

theorem waits_calm (f : Frame) : f.calm.waits way = f.waits way := by
  cases f with
  | worker i p => cases p <;> rfl
  | drive mode j p => cases p <;> rfl
  | waitPaused l x p => cases p <;> rfl
  | _ => rfl

theorem leaves_calm (f : Frame) : f.calm.Leaves t way s ↔ f.Leaves t way s := by
  cases f with
  | worker i p => cases p <;> exact Iff.rfl
  | drive mode j p => cases p <;> exact Iff.rfl
  | waitPaused l x p => cases p <;> exact Iff.rfl
  | _ => exact Iff.rfl

theorem beneath_calm : Beneath way k (below.map Frame.calm) ↔ Beneath way k below := by
  induction below generalizing k with
  | nil => exact Iff.rfl
  | cons g rest ih =>
    simp only [List.map_cons, Beneath, ih, waits_calm, kind_calm, List.forall_mem_cons, List.forall_mem_map, hosts_calm]

theorem quits_calm : Quits t way s f.calm (below.map Frame.calm) ↔ Quits t way s f below := by
  constructor
  · rintro ⟨hplace, hbelow, haway⟩
    exact ⟨(leaves_calm f).1 hplace, by rwa [kind_calm, beneath_calm] at hbelow, haway⟩
  · rintro ⟨hplace, hbelow, haway⟩
    exact ⟨(leaves_calm f).2 hplace, by rwa [kind_calm, beneath_calm], haway⟩

/-- what nobody changes stays true -/
theorem leaves_keeps (hk : s.Keeps s') (h : f.Leaves t way s) : f.Leaves t way s' := by
  obtain ⟨hstage, hhandles, hhalted⟩ := hk
  have opened : s.Opened → s'.Opened := fun h => by rwa [Shared.Opened, hstage]
  have closing : s.stage = .closing → s'.stage = .closing := hstage.trans
  have shut : s.Shut → s'.Shut := fun h => ⟨closing h.1, hhalted h.2⟩
  have begins : way.Begins t s → way.Begins t s' := fun h => by
    cases way with
    | idle => exact ⟨hstage.trans h.1, hhandles.trans h.2⟩
    | outside => exact ⟨opened h.1, hhandles ▸ h.2⟩
    | inside => exact ⟨opened h.1, hhandles ▸ h.2⟩
  have done : way.Done s → way.Done s' := fun h =>
    ⟨hstage.trans h.stage, hhandles.trans h.handles, fun hw => hhalted (h.halted hw)⟩
  have empty : s.handles = [] → s'.handles = [] := hhandles.trans
  cases f with
  | drop p =>
    cases p with
    | read => exact begins h
    | want | own => exact h.imp_right begins
    | stopping => exact h.imp_right done
    | shut => exact h.imp_right opened
    | shutDone won => cases won <;> first | exact h.elim | exact h.imp_right shut
    | collect => exact h.imp_right shut
  | stop p =>
    refine h.imp_right ?_
    cases p with
    | want | own | shut => exact opened
    | shutDone won => cases won <;> first | exact id | exact shut
    | collect => exact shut
    | join rest => exact fun h => ⟨shut h.1, empty h.2.1, h.2.2⟩
    | settleWant | settleRead | settleSwap => exact fun h => ⟨shut h.1, empty h.2⟩
    | settled => exact done
  | shutdown p =>
    cases p with
    | want | read | swap => exact opened h
    | ask => exact closing h
    | answered stopped => cases stopped <;> first | exact closing h | exact shut h
    | tellResumed | tellParked => exact shut h
  | ask q p => exact h.imp_right closing
  | halt p => cases p <;> first | exact closing h | exact shut h
  | _ => exact h.elim

/-- whoever is giving up the pool is inside of a drop -/
theorem beneath_kind (h : Beneath way k below) : .drop ∈ k :: below.map Frame.kind := by
  induction below generalizing k with
  | nil =>
    obtain rfl : k = .drop := h
    exact .head _
  | cons g rest ih =>
    by_cases hk : k = .drop
    · rw [hk]
      exact .head _
    · obtain ⟨b, tail, hb, -, hrest⟩ := h.caller hk
      cases hb
      exact .tail _ (ih hrest)

end

/-! ## The steps of a drop -/

section

variable {m : Machine} {t : ThreadId} {way : Way} {f : Frame} {below : List Frame} {e : Effect} {w : Option Nat}

/-- the drop goes on at another place -/
def Own.Quits (t : ThreadId) (way : Way) (s : Shared) (own : Own) (below : List Frame) : Prop :=
  ∃ g rest, own.stack below = g :: rest ∧ Workers.Quits t way s g rest

/-- an activation that was called returns to one that goes on with the answer -/
theorem quits_ret {s : Shared} {v : Value} (hn : Nested w (f :: below)) (hk : f.kind ≠ .drop)
    (hb : Beneath way f.kind below) (away : way = .outside → t ∉ s.handles)
    (hv : ∀ g : Frame, g.Calls f.kind → g.waits way → (g.receive v).Leaves t way s) :
    (Own.ret v).Quits t way s below := by
  obtain ⟨g, rest, rfl, hg, hrest⟩ := hb.caller hk
  exact ⟨g.receive v, rest, rfl, hv g hn.called hg, by rwa [kind_receive], away⟩

theorem quits_become {s : Shared} {g : Frame} (hk : g.kind = f.kind) (hb : Beneath way f.kind below)
    (away : way = .outside → t ∉ s.handles) (hg : g.Leaves t way s) : (Own.become g).Quits t way s below :=
  ⟨g, below, rfl, hg, hk ▸ hb, away⟩

theorem quits_call {s : Shared} {g callee : Frame} (hk : g.kind = f.kind) (hb : Beneath way f.kind below)
    (away : way = .outside → t ∉ s.handles) (hc : callee.kind ≠ .drop) (hw : g.waits way) (hg : callee.Leaves t way s) :
    (Own.call g callee).Quits t way s below :=
  ⟨callee, g :: below, rfl, hg, beneath_call hc hw (hk ▸ hb), away⟩

/-- the pool cannot be shut down where it is stopped, nor where it is in its last stage -/
theorem Shared.Opened.ne {s : Shared} (h : s.Opened) : s.stage ≠ .stopped ∧ s.stage ≠ .closing := by
  rcases h with h | h <;> rw [h] <;> exact ⟨nofun, nofun⟩

/-- **Each step of a drop leads on, or the drop returns and the pool is done with.** -/
theorem quits_own (h : Transition m t f e) (hn : Nested w (f :: below)) (hq : Quits t way m.shared f below) :
    e.own.Quits t way e.shared below ∨ (f.kind = .drop ∧ e.own = .ret .unit ∧ way.Done e.shared) := by
  obtain ⟨hplace, hbelow, haway⟩ := hq
  cases h with
  | take h =>
    refine .inl ?_
    cases h with
    | ask | halt | shutdown | stop | settle | drop => exact quits_become rfl hbelow haway hplace
    | collect | detach => exact quits_become rfl hbelow haway hplace
    | _ => exact hplace.elim
  -- asking and stopping the dispatcher
  | @answer q =>
    obtain ⟨rfl, hclosing⟩ := hplace
    refine .inl (quits_ret hn nofun hbelow haway fun g hc hw => ?_)
    cases hc with
    | ask =>
      change (Frame.shutdown (.answered m.shared.dispatcher.stopped)).Leaves t way _
      cases hstopped : m.shared.dispatcher.stopped with
      | false => exact hclosing
      | true => exact ⟨hclosing, hstopped⟩
    | action => cases hw
  | halted => exact .inl (quits_become rfl hbelow haway ⟨hplace, rfl⟩)
  | haltTell =>
    refine .inl (quits_ret hn nofun hbelow haway fun g hc hw => ?_)
    cases hc with
    | halt => exact hplace
    | _ => cases hw
  -- moving to the last stage
  | shutReady => exact .inl (quits_become rfl hbelow haway hplace)
  | shutIdle h => exact absurd h hplace.ne.1
  | shutLate h => exact absurd h hplace.ne.2
  | shut => exact .inl (quits_become rfl hbelow haway rfl)
  | shutAsk => exact .inl (quits_call rfl hbelow haway nofun rfl ⟨rfl, hplace⟩)
  | shutHalted => exact .inl (quits_become rfl hbelow haway hplace)
  | shutHalt => exact .inl (quits_call rfl hbelow haway nofun rfl hplace)
  | tellResumed => exact .inl (quits_become rfl hbelow haway hplace)
  | tellParked =>
    refine .inl (quits_ret hn nofun hbelow haway fun g hc hw => ?_)
    cases hc with
    | shut => exact ⟨of_decide_eq_true hw, hplace⟩
    | detach => exact ⟨of_decide_eq_true hw, hplace⟩
    | action h => cases h
  -- stopping
  | stopOnWorker h => exact absurd (List.contains_iff_mem.1 h) (haway hplace.1)
  | stopElsewhere => exact .inl (quits_become rfl hbelow haway hplace)
  | stopShut => exact .inl (quits_call rfl hbelow haway nofun (decide_eq_true hplace.1) hplace.2)
  | stopLost => exact hplace.2.elim
  | collect =>
    obtain ⟨hway, hshut⟩ := hplace
    exact .inl (quits_become rfl hbelow (fun _ => List.not_mem_nil) ⟨hway, hshut, rfl, haway hway⟩)
  | joinedAll =>
    obtain ⟨hway, hshut, hempty, -⟩ := hplace
    exact .inl (quits_become rfl hbelow haway ⟨hway, hshut, hempty⟩)
  | joinNobody | joinFinished | joinDied =>
    obtain ⟨hway, hshut, hempty, hout⟩ := hplace
    exact .inl (quits_become rfl hbelow haway ⟨hway, hshut, hempty, fun hin => hout (.tail _ hin)⟩)
  | settleReady => exact .inl (quits_become rfl hbelow haway hplace)
  | settleRefused h => exact absurd hplace.2.1.1 h
  | settle =>
    obtain ⟨rfl, hshut, hempty⟩ := hplace
    exact .inl (quits_become rfl hbelow haway ⟨rfl, rfl, hempty, fun _ => hshut.2⟩)
  | settled =>
    obtain ⟨rfl, hdone⟩ := hplace
    refine .inl (quits_ret hn nofun hbelow haway fun g hc hw => ?_)
    cases hc with
    | stopping => exact ⟨rfl, hdone.stage, hdone.handles, hdone.halted⟩
    | _ => cases hw
  -- giving up the pool
  | dropIdle h =>
    cases way with
    | idle => exact .inr ⟨rfl, rfl, h, hplace.2, fun hne => absurd rfl hne⟩
    | outside => exact absurd h hplace.1.ne.1
    | inside => exact absurd h hplace.1.ne.1
  | dropWant h =>
    refine .inl (quits_become rfl hbelow haway ⟨?_, hplace⟩)
    rintro rfl
    exact h hplace.1
  | dropOnWorker h =>
    obtain ⟨hway, hbegins⟩ := hplace
    cases way with
    | idle => exact absurd rfl hway
    | outside => exact absurd (List.contains_iff_mem.1 h) hbegins.2
    | inside => exact .inl (quits_become rfl hbelow haway ⟨rfl, hbegins.1⟩)
  | dropElsewhere h =>
    obtain ⟨hway, hbegins⟩ := hplace
    cases way with
    | idle => exact absurd rfl hway
    | outside => exact .inl (quits_call rfl hbelow haway nofun rfl ⟨rfl, hbegins.1⟩)
    | inside => exact absurd hbegins.2 h
  | dropDone => exact .inr ⟨rfl, rfl, hplace.2⟩
  | dropShut => exact .inl (quits_call rfl hbelow haway nofun (decide_eq_true hplace.1) hplace.2)
  | dropLost => exact hplace.elim
  | detach =>
    obtain ⟨rfl, hshut⟩ := hplace
    exact .inr ⟨rfl, rfl, hshut.1, rfl, fun _ => hshut.2⟩
  | _ => exact hplace.elim

/-- a stopped pool is left as it is, by a single step -/
theorem quits_idle (h : Transition m t (.drop .read) e) (hb : Way.idle.Begins t m.shared) :
    e.own = .ret .unit ∧ e.shared = m.shared ∧ Way.idle.Done e.shared := by
  cases h with
  | take h => cases h
  | dropIdle => exact ⟨rfl, rfl, hb.1, hb.2, fun hne => absurd rfl hne⟩
  | dropWant h => exact absurd hb.1 h

/-- the activations of the dropping thread start no pool, and wait for no worker but at their top -/
theorem Quits.others {s : Shared} (h : Quits t way s f below) :
    (∀ g ∈ f :: below, g.kind ≠ .start) ∧ ∀ rest, .stop (.join rest) ∉ below := by
  have hlow : ∀ {k : Kind}, Beneath way k below → ∀ g ∈ below, g.hosts ∨ g.waits way := by
    have hb := h.below
    clear h hb
    intro k hb
    induction below generalizing k with
    | nil => nofun
    | cons b rest ih =>
      by_cases hk : k = .drop
      · rw [hk, beneath_drop] at hb
        exact fun g hg => .inl (hb g hg)
      · obtain ⟨c, tail, hc, hwait, hrest⟩ := hb.caller hk
        cases hc
        intro g hg
        rcases List.mem_cons.1 hg with rfl | hg
        · exact .inr hwait
        · exact ih hrest g hg
  refine ⟨fun g hg hk => ?_, fun rest hj => ?_⟩
  · rcases List.mem_cons.1 hg with rfl | hg
    · have hplace := h.place
      cases g <;> first | (cases hk; done) | exact hplace
    · rcases hlow h.below g hg with hh | hh <;> cases g <;> first | (cases hk; done) | cases hh
  · rcases hlow h.below _ hj with hh | hh <;> cases hh

end

/-! ## How far a drop has to go -/

namespace Frame

/-- more than the steps that an activation of a drop has ahead, with what it calls, on a pool of size `n` -/
def toGo (n : Nat) : Frame → Nat
  | .drop p => match p with
    | .read => n + 27
    | .want => n + 26
    | .own => n + 25
    | .shut => 15
    | .shutDone _ => 2
    | .stopping | .collect => 1
  | f => f.ahead n

/-- the same for one that waits for what it has called -/
def toGoThen (n : Nat) : Frame → Nat
  | .drop .stopping => 1
  | .drop .shut => 2
  | f => f.behind n

theorem toGo_of_ne {n : Nat} {f : Frame} (h : f.kind ≠ .drop) : f.toGo n = f.ahead n ∧ f.toGoThen n = f.behind n := by
  cases f with
  | drop p => exact absurd rfl h
  | _ => exact ⟨rfl, rfl⟩

theorem toGo_hosts {n : Nat} {f : Frame} (h : f.hosts) : f.toGo n = 0 ∧ f.toGoThen n = 0 := by
  cases f with
  | worker i p => exact ⟨rfl, rfl⟩
  | drive mode j p => exact ⟨rfl, rfl⟩
  | job id due rest => exact ⟨rfl, rfl⟩
  | _ => cases h

end Frame

/-- the same for a whole thread -/
def wayToGo (n : Nat) : List Frame → Nat
  | [] => 0
  | f :: below => f.toGo n + (below.map (Frame.toGoThen n)).sum

theorem wayToGo_calm (n : Nat) (stack : List Frame) : wayToGo n (stack.map Frame.calm) = wayToGo n stack := by
  have hcalm : ∀ f : Frame, f.calm.toGo n = f.toGo n ∧ f.calm.toGoThen n = f.toGoThen n := fun f => by
    by_cases hk : f.kind = .drop
    · rw [calm_wakeful (by rw [hk]; rfl)]
      exact ⟨rfl, rfl⟩
    · obtain ⟨hahead, hbehind⟩ := ahead_calm' (n := n) f
      obtain ⟨hf, hf'⟩ := Frame.toGo_of_ne (n := n) hk
      obtain ⟨hc, hc'⟩ := Frame.toGo_of_ne (n := n) (f := f.calm) (by rwa [kind_calm])
      exact ⟨by rw [hc, hf, hahead], by rw [hc', hf', hbehind]⟩
  cases stack with
  | nil => rfl
  | cons f below =>
    have hbelow : Frame.toGoThen n ∘ Frame.calm = Frame.toGoThen n := funext fun f => (hcalm f).2
    simp only [List.map_cons, wayToGo, (hcalm f).1, List.map_map, hbelow]

section

variable {m : Machine} {t : ThreadId} {way : Way} {f g : Frame} {below : List Frame} {e : Effect} {w : Option Nat} {n : Nat}

/-- below a drop nothing is left to do for the drop -/
theorem wayToGo_ret {v : Value} (low : ∀ g ∈ below, g.hosts) : wayToGo n ((Own.ret v).stack below) = 0 := by
  cases below with
  | nil => rfl
  | cons g rest =>
    have hg : (g.receive v).toGo n = 0 := by
      have hhost := low g (.head _)
      rw [(Frame.toGo_of_ne (by rw [kind_receive]; cases g <;> first | (cases hhost; done) | (intro hk; cases hk))).1]
      cases g with
      | job id due rest => rcases due with _ | ⟨label, value⟩ <;> rfl
      | worker | drive => rfl
      | _ => cases hhost
    have hrest : ∀ l : List Frame, (∀ b ∈ l, b.hosts) → (l.map (Frame.toGoThen n)).sum = 0 := fun l hl =>
      List.sum_eq_zero_iff.2 fun k hk => by
        obtain ⟨b, hb, rfl⟩ := List.mem_map.1 hk
        exact (Frame.toGo_hosts (hl b hb)).2
    simp only [Own.stack, wayToGo, hg, hrest rest fun b hb => low b (.tail _ hb)]

/-- whoever has called goes on with no more than was set aside for it -/
theorem receive_toGo {v : Value} {k : Kind} (hc : g.Calls k) (hg : g.waits way)
    (hv : k = .ask .stopped ∨ k = .shutdown → ∃ b, v = .flag b) : (g.receive v).toGo n ≤ g.toGoThen n := by
  cases hc with
  | stopping => exact Nat.le_refl _
  | detach =>
    obtain ⟨b, rfl⟩ := hv (.inr rfl)
    exact Nat.le_refl _
  | ask =>
    obtain ⟨b, rfl⟩ := hv (.inl rfl)
    exact Nat.le_refl _
  | shut =>
    obtain ⟨b, rfl⟩ := hv (.inr rfl)
    exact Nat.le_refl _
  | halt => exact Nat.le_refl _
  | _ => cases hg

/-- **Each step of a drop brings it nearer to its end.** -/
theorem quits_nearer (h : Transition m t f e) (hn : Nested w (f :: below)) (hq : Quits t way m.shared f below)
    (size : m.shared.size = n) (room : m.shared.handles.length ≤ n) :
    wayToGo n (e.own.stack below) < wayToGo n (f :: below) := by
  by_cases hdrop : f.kind = .drop
  · have hlow := hq.below
    rw [hdrop, beneath_drop] at hlow
    have returns : ∀ {v}, e.own = .ret v → 0 < f.toGo n → wayToGo n (e.own.stack below) < wayToGo n (f :: below) :=
      fun hret hpos => by
        rw [hret, wayToGo_ret hlow]
        exact Nat.lt_of_lt_of_le hpos (Nat.le_add_right _ _)
    cases h with
    | take h =>
      cases h with
      | drop | detach => exact Nat.add_lt_add_right (Nat.lt_succ_self _) _
      | _ => cases hdrop
    | dropWant => exact Nat.add_lt_add_right (Nat.lt_succ_self _) _
    | dropOnWorker => exact Nat.add_lt_add_right (by simp only [Frame.toGo]; omega) _
    | dropElsewhere | dropShut =>
      simp only [Shared.call, Own.stack, wayToGo, List.map_cons, List.sum_cons, Frame.toGo, Frame.toGoThen, Frame.ahead]
      omega
    | dropIdle | dropDone | dropLost | detach => exact returns rfl (Nat.succ_pos _)
    | _ => cases hdrop
  · have hk : f.kind.isControl ∨ f.kind.serves := by
      have hplace := hq.place
      cases f with
      | stop p => exact .inl rfl
      | shutdown p => exact .inr rfl
      | halt p => exact .inr rfl
      | ask q p =>
        obtain ⟨rfl, -⟩ := hplace
        exact .inr rfl
      | drop p => exact absurd rfl hdrop
      | _ => exact hplace.elim
    have hnear := h.nearer hk size room
    have hfit := h.fits
    have hf := Frame.toGo_of_ne (n := n) hdrop
    cases hown : e.own with
    | become g =>
      rw [hown] at hnear hfit
      have hg := (Frame.toGo_of_ne (n := n) (f := g) (by rwa [show g.kind = f.kind from hfit])).1
      simp only [Own.stack, wayToGo, hg, hf.1]
      exact Nat.add_lt_add_right hnear _
    | call g callee =>
      rw [hown] at hnear hfit
      obtain ⟨hkind, hcalls⟩ := hfit
      have hserves := calls_serves hcalls (by rwa [hkind])
      have hg := (Frame.toGo_of_ne (n := n) (f := g) (by rwa [hkind])).2
      have hcallee := (Frame.toGo_of_ne (n := n) (f := callee) (by rintro hc; rw [hc] at hserves; cases hserves)).1
      change callee.ahead n + g.behind n < f.ahead n at hnear
      simp only [Own.stack, wayToGo, List.map_cons, List.sum_cons, hg, hcallee, hf.1]
      omega
    | ret v =>
      rw [hown] at hnear
      change 0 < f.ahead n at hnear
      obtain ⟨g, rest, rfl, hg, -⟩ := hq.below.caller hdrop
      have hreceive := receive_toGo (n := n) hn.called hg fun hk => h.flag hown hk
      simp only [Own.stack, wayToGo, List.map_cons, List.sum_cons, hf.1]
      omega
    | unwind =>
      rw [hown] at hfit
      have hwork : f.kind.isWork := hfit
      cases f <;> first | (cases hwork; done) | exact hq.place.elim

end

end SecureEndpoint.Workers
