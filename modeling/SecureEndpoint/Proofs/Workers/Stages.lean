/-
What the holder of the parking lock knows of the stage.

The stage is an atomic cell that anybody may read, but every change of it is made under the parking lock. So between the
read and the swap of an attempt nobody interferes (`Transition.seen`): the swap always finds the stage that was read, a resume
that has restarted the dispatcher is never refused, and a parking worker stays in the paused stage until it sleeps.
-/
import SecureEndpoint.Proofs.Workers.Writes

namespace SecureEndpoint.Workers

theorem guarded_sees : Guarded .parking Frame.Sees where
  free {s f} h := by
    unfold Frame.Sees
    split <;> (try split) <;> first | trivial | exact absurd (by simp [Frame.locks]) h
  same {s s' f} hs h := by
    obtain ⟨hsize, hstage, hspawned, -, -⟩ := hs
    unfold Frame.Sees at h ⊢
    rw [hstage, hspawned, hsize]
    exact h
  calm {s f} := by
    unfold Frame.calm
    split <;> first | exact Iff.rfl | (rename_i p _; cases p <;> exact Iff.rfl)
  receive {s f} v h := by
    unfold Frame.receive
    split <;> exact h

/-! ## Nobody interferes -/

theorem each_become {P : Frame → Prop} {f : Frame} (h : P f) : ∀ g ∈ (Own.become f).frames, P g := by
  simpa [Own.frames] using h

theorem each_call {P : Frame → Prop} {f callee : Frame} (hc : P callee) (hf : P f) :
    ∀ g ∈ (Own.call f callee).frames, P g := by
  simpa [Own.frames] using ⟨hc, hf⟩

theorem each_ret {P : Frame → Prop} {v : Value} : ∀ g ∈ (Own.ret v).frames, P g := nofun

theorem each_unwind {P : Frame → Prop} : ∀ g ∈ Own.unwind.frames, P g := nofun

theorem Transition.seen {m : Machine} {t : ThreadId} {f : Frame} {e : Effect} (h : Transition m t f e)
    (hf : f.Sees m.shared) : ∀ g ∈ e.own.frames, g.Sees e.shared := by
  cases h with
  | take h => exact each_become (by cases h <;> trivial)
  | @whim mode n p w =>
    cases w with
    | leave => exact each_ret
    | handOut j => exact each_call trivial trivial
    | panic => exact each_unwind
  | jobCall h => exact each_call (guarded_sees.free (by simp [h.locks])) trivial
  | startReady h | pauseReady h | resumeReady h | settleReady h => exact each_become ⟨rfl, h⟩
  | shutReady hs h => exact each_become ⟨Stage.after_shutdown.2 ⟨hs, rfl⟩, h⟩
  | mark => exact each_call trivial ⟨hf, rfl⟩
  | resumeRestart h => exact each_call trivial h
  | paused => exact each_call trivial rfl
  | started | resumed | shut => exact each_become rfl
  | parkCheck h | waitCheck h => exact each_become h
  | _ => first
    | exact each_ret
    | exact each_unwind
    | exact each_become trivial
    | exact each_call trivial trivial
    | exact each_become hf
    | exact each_call trivial hf

namespace Machine

/-- what holds of every run: the stacks are nested, the locks have their holders, and these know the stage -/
structure Sound (m : Machine) : Prop where
  formed : m.Formed
  owned : m.Owned
  sees : m.Everywhere Frame.Sees

theorem sound_fresh (size : Nat) (stem : String) (dispatches : Bool) : (fresh size stem dispatches).Sound :=
  ⟨formed_fresh size stem dispatches, owned_fresh size stem dispatches, everywhere_fresh _ size stem dispatches⟩

theorem Sound.sees_top {m : Machine} {t : ThreadId} {th : Thread} {f : Frame} {below : List Frame} (h : m.Sound)
    (ht : m.threads[t]? = some th) (hs : th.stack = f :: below) : f.Sees m.shared := by
  refine guarded_sees.calm.1 (h.sees t f.calm ?_)
  rw [stackOf_top ht hs]
  exact .head _

theorem Sound.moved {m m' : Machine} {mv : Move} (h : m.Sound) (hm : m.move mv = some m') : m.Moved m' (m.wins? mv) :=
  move_moved hm fun _ _ _ _ => h.sees_top

theorem sound_move {m m' : Machine} {w : Option (Stage × Change)} (h : m.Sound) (mv : m.Moved m' w) : m'.Sound :=
  ⟨formed_move h.formed mv, owned_move h.owned mv,
    everywhere_move guarded_sees h.owned h.sees mv fun go hs _ _ => go.seen hs⟩

/-- what holds at first and is kept by every move holds after a run, of the machine and of the changes made -/
theorem Run.keeps_hist {ok : Machine → Prop} {I : List (Stage × Change) → Machine → Prop} {m a : Machine}
    {h : List (Stage × Change)} (r : m.Run ok h a) (hm : m.Sound) (first : I [] m)
    (kept : ∀ {h a b w}, a.Sound → I h a → a.Moved b w → ok b → I (h ++ w.toList) b) : a.Sound ∧ I h a := by
  induction r with
  | rest => exact ⟨hm, first⟩
  | move _ hmove hok ih =>
    obtain ⟨hs, hi⟩ := ih
    have mv := hs.moved hmove
    exact ⟨sound_move hs mv, kept hs hi mv hok⟩

theorem Run.keeps {ok I : Machine → Prop} {m a : Machine} {h : List (Stage × Change)} (r : m.Run ok h a) (hm : m.Sound)
    (first : I m) (kept : ∀ {a b w}, a.Sound → I a → a.Moved b w → ok b → I b) : a.Sound ∧ I a :=
  r.keeps_hist (I := fun _ => I) hm first kept

end Machine

/-! ## The changes that are made -/

theorem sees_attempt {s : Shared} {f : Frame} {c : Change} {a b : Stage} (hs : f.Sees s)
    (h : f.attempt? = some (c, a, b)) : a.after? c = some b ∧ s.stage = a := by
  unfold Frame.attempt? at h
  split at h <;> first | (cases h; exact hs) | cases h

namespace Machine

/-- every change of the stage is one that the table lists, and is recorded -/
theorem move_stage {m m' : Machine} {w : Option (Stage × Change)} (mv : m.Moved m' w) :
    w = none ∧ m'.shared.stage = m.shared.stage ∨
      ∃ c, w = some (m.shared.stage, c) ∧ m.shared.stage.after? c = some m'.shared.stage := by
  cases mv with
  | @step t th f below e s =>
    rw [s.writes.stage, Frame.wins?, Frame.stageAfter]
    cases ha : f.attempt? with
    | none => exact .inl ⟨rfl, rfl⟩
    | some a =>
      obtain ⟨c, seen, next⟩ := a
      obtain ⟨hlegal, hseen⟩ := sees_attempt s.sees ha
      simp only [if_pos hseen]
      exact .inr ⟨c, by rw [hseen], by rw [hseen, hlegal]⟩
  | still gates hsh hr => exact .inl ⟨rfl, by rw [hsh]⟩
  | call c ht hw hst hsh hr => exact .inl ⟨rfl, by rw [hsh]⟩
  | enter hsh hr => exact .inl ⟨rfl, by rw [hsh]⟩

end Machine

end SecureEndpoint.Workers
