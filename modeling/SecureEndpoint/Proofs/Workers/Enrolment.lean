/-
Handles, starts and stops.

A start creates workers and enrols their handles under the handles lock; the closer collects all handles at once, joins
the threads one by one and settles. Here is what single steps do to the handles and to these activations.
- `mem_step`, `mem_keep`: an activation of a start or a stop appears and disappears by its own steps only.
- `Transition.spawned`, `Transition.leading`: which steps create a worker, and which lead to the creating and the joining.
-/
import SecureEndpoint.Proofs.Workers.Closing

namespace SecureEndpoint.Workers

/-! ## Activations that stay -/

/-- an activation of a start or of a stop that waits for no answer -/
def Frame.steady : Frame → Bool
  | .start _ => true
  | .stop p => match p with
    | .shut | .shutDone _ => false
    | _ => true
  | _ => false

theorem steady_wakeful {f : Frame} (h : f.steady) : f.kind.wakeful := by
  cases f <;> first | rfl | cases h

theorem steady_calm {f g : Frame} (hg : g.steady) (h : f.calm = g) : f = g := eq_of_calm h (steady_wakeful hg)

theorem steady_receive {f g : Frame} {v : Value} (hg : g.steady) (h : f.receive v = g) : f = g := by
  subst h
  unfold Frame.receive at hg ⊢
  split at hg <;> first | rfl | cases hg

theorem receive_steady {g : Frame} (hg : g.steady) (v : Value) : g.receive v = g := by
  unfold Frame.receive
  split <;> first | rfl | cases hg

theorem calm_steady {g : Frame} (hg : g.steady) : g.calm = g := calm_wakeful (steady_wakeful hg)

namespace Machine

section Step

variable {m m' : Machine} {t i : ThreadId} {th : Thread} {f g : Frame} {below : List Frame} {e : Effect}

/-- such an activation is there after a step because the step put it there, or because it was there before -/
theorem mem_step (s : m.StepOf m' t th f below e) (hg : g.steady) (hmem : g ∈ m'.stackOf i) :
    i = t ∧ g ∈ e.own.frames ∨ g ∈ m.stackOf i ∧ (i = t → g ∈ below.map Frame.calm) := by
  by_cases hi : i = t
  · subst hi
    rw [s.after] at hmem
    obtain ⟨k, hk, hkg⟩ := List.mem_map.1 hmem
    obtain rfl := steady_calm hg hkg
    have hold : ∀ b ∈ below, b = k → k ∈ m.stackOf i ∧ (i = i → k ∈ below.map Frame.calm) := by
      rintro b hb rfl
      have hin : b ∈ below.map Frame.calm := List.mem_map.2 ⟨b, hb, hkg⟩
      rw [s.before]
      exact ⟨.tail _ hin, fun _ => hin⟩
    rcases mem_stack hk with hk | hk | ⟨b, hb, v, hv⟩
    · exact .inl ⟨rfl, hk⟩
    · exact .inr (hold k hk rfl)
    · exact .inr (hold b hb (steady_receive hg hv.symm))
  · rw [s.stackAt, if_neg hi] at hmem
    split at hmem
    · cases hsp : e.spawn with
      | none => simp [hsp] at hmem
      | some k =>
        simp only [hsp, Option.map_some, Option.toList_some, List.mem_singleton] at hmem
        subst hmem
        cases hg
    · exact .inr ⟨hmem, fun h => absurd h hi⟩

/-- such an activation is still there after a step, unless the step was its own -/
theorem mem_keep (s : m.StepOf m' t th f below e) (hm : m.Formed) (hg : g.steady) (hmem : g ∈ m.stackOf i)
    (hown : i = t → g ≠ f) : g ∈ m'.stackOf i := by
  by_cases hi : i = t
  · subst hi
    rw [s.after]
    rw [s.before, ← List.map_cons] at hmem
    obtain ⟨b, hb, hbg⟩ := List.mem_map.1 hmem
    obtain rfl := steady_calm hg hbg
    refine List.mem_map.2 ⟨b, ?_, hbg⟩
    rcases List.mem_cons.1 hb with rfl | hb
    · exact absurd rfl (hown rfl)
    · have hfit := s.go.fits
      cases hw : e.own with
      | become k => exact .tail _ hb
      | call k callee => exact .tail _ (.tail _ hb)
      | ret v =>
        cases below with
        | nil => cases hb
        | cons c rest =>
          rcases List.mem_cons.1 hb with rfl | hb
          · rw [Own.stack, receive_steady hg]
            exact .head _
          · exact .tail _ hb
      | unwind =>
        -- a panic only takes jobs and loops away
        rw [hw] at hfit
        have := (s.nested hm).hosts hfit b hb
        cases b <;> first | (cases hg; done) | cases this
  · have hlen : i ≠ m.roster.length := by
      rintro rfl
      rw [stackOf_length] at hmem
      cases hmem
    rw [s.stackAt, if_neg hi, if_neg hlen]
    exact hmem

end Step

end Machine

/-! ## Enrolling and collecting -/

/-- what the place of an activation that holds the handles lock says about the handles -/
def Frame.Enrols (s : Shared) : Frame → Prop
  | .start p => match p with
    | .mark | .release => s.handles = []
    | .spawn i => s.handles.length = i ∧ i ≤ s.size
    | _ => True
  | _ => True

theorem guarded_enrols : Guarded .handles Frame.Enrols where
  free {s f} h := by
    unfold Frame.Enrols
    split <;> (try split) <;> first | trivial | exact absurd (by simp [Frame.locks]) h
  same {s s' f} hs h := by
    obtain ⟨hsize, hhandles⟩ := hs
    unfold Frame.Enrols at h ⊢
    rw [hhandles, hsize]
    exact h
  calm {s f} := by
    unfold Frame.calm
    split <;> exact Iff.rfl
  receive {s f} v h := by
    unfold Frame.receive
    split <;> exact h

/-- the closer has collected the handles -/
def Frame.collected : Frame → Bool
  | .stop p => match p with
    | .join _ | .settleWant | .settleRead | .settleSwap .. => true
    | _ => false
  | _ => false

theorem collected_steady {f : Frame} (h : f.collected) : f.steady ∧ f.closes := by
  unfold Frame.collected at h
  split at h
  · split at h <;> first | exact ⟨rfl, rfl⟩ | cases h
  · cases h

/-- a step that creates a worker -/
theorem Transition.spawned {m : Machine} {t : ThreadId} {f : Frame} {e : Effect} {k : Nat} (h : Transition m t f e)
    (hk : e.spawn = some k) : f = .start (.spawn k) ∧ k < m.shared.size := by
  cases h with
  | @whim mode n p w => cases w <;> cases hk
  | spawn h =>
    cases hk
    exact ⟨rfl, h⟩
  | _ => cases hk

/-- which step leads to a place at which workers are created, to the joining, and on to the settling -/
structure Leading (m : Machine) (f g : Frame) : Prop where
  spawning : ∀ k, g = .start (.spawn k) → f = .start .release ∨ ∃ j, f = .start (.spawn j)
  joining : ∀ rest, g = .stop (.join rest) →
    f = .stop .collect ∧ rest = m.shared.handles ∨ ∃ h, f = .stop (.join (h :: rest))
  collected : g.collected → f = .stop .collect ∨ f.collected

/-- a place at which workers are created -/
def Frame.spawning : Frame → Bool
  | .start (.spawn _) => true
  | _ => false

theorem Leading.elsewhere {m : Machine} {f g : Frame} (h : (g.spawning || g.collected) = false) : Leading m f g := by
  obtain ⟨hs, hc⟩ := Bool.or_eq_false_iff.1 h
  refine ⟨?_, ?_, fun h => absurd h (by simp [hc])⟩
  · rintro k rfl
    cases hs
  · rintro rest rfl
    cases hc

theorem Frame.Begins.elsewhere {f : Frame} (h : f.Begins) : (f.spawning || f.collected) = false := by
  cases h with
  | call c => cases c <;> rfl
  | meet => rfl
  | hold => rfl

theorem Transition.leading {m : Machine} {t : ThreadId} {f : Frame} {e : Effect} (h : Transition m t f e) :
    ∀ g ∈ e.own.frames, Leading m f g := by
  cases h with
  | take h =>
    refine each_become ?_
    cases h with
    | settle => exact ⟨by rintro _ ⟨⟩, by rintro _ ⟨⟩, fun _ => .inr rfl⟩
    | _ => exact .elsewhere rfl
  | @whim mode n p w =>
    cases w with
    | leave => exact each_ret
    | handOut j => exact each_call (Leading.elsewhere rfl) (Leading.elsewhere rfl)
    | panic => exact each_unwind
  | jobCall h => exact each_call (Leading.elsewhere h.elsewhere) (Leading.elsewhere rfl)
  | startRelease => exact each_become ⟨fun _ _ => .inl rfl, by rintro _ ⟨⟩, by rintro ⟨⟩⟩
  | spawn => exact each_become ⟨fun _ _ => .inr ⟨_, rfl⟩, by rintro _ ⟨⟩, by rintro ⟨⟩⟩
  | collect => exact each_become ⟨by rintro _ ⟨⟩, fun _ h => .inl ⟨rfl, by cases h; rfl⟩, fun _ => .inl rfl⟩
  | joinNobody | joinFinished | joinDied =>
    exact each_become ⟨by rintro _ ⟨⟩, fun _ h => .inr ⟨_, by cases h; rfl⟩, fun _ => .inr rfl⟩
  | joinedAll | settleReady | settleRefused | settle =>
    exact each_become ⟨by rintro _ ⟨⟩, by rintro _ ⟨⟩, fun _ => .inr rfl⟩
  | _ => first
    | exact each_ret
    | exact each_unwind
    | exact each_become (Leading.elsewhere rfl)
    | exact each_call (Leading.elsewhere rfl) (Leading.elsewhere rfl)

theorem Transition.enrols {m : Machine} {t : ThreadId} {f : Frame} {e : Effect} (h : Transition m t f e)
    (hf : f.Enrols m.shared) (hempty : m.shared.stage = .stopped → m.shared.handles = []) :
    ∀ g ∈ e.own.frames, g.Enrols e.shared := by
  cases h with
  | take h => exact each_become (by cases h <;> trivial)
  | @whim mode n p w =>
    cases w with
    | leave => exact each_ret
    | handOut j => exact each_call trivial trivial
    | panic => exact each_unwind
  | jobCall h => exact each_call (guarded_enrols.free (by simp [h.locks])) trivial
  | started h => exact each_become (hempty h)
  | mark => exact each_call trivial hf
  | startRelease =>
    have hnil : m.shared.handles = [] := hf
    exact each_become ⟨congrArg List.length hnil, Nat.zero_le _⟩
  | spawn h =>
    obtain ⟨hlen, -⟩ := hf
    exact each_become ⟨by simp [hlen], h⟩
  | _ => first
    | exact each_ret
    | exact each_unwind
    | exact each_become trivial
    | exact each_call trivial trivial

end SecureEndpoint.Workers
