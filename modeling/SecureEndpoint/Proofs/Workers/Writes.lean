/-
What a step writes.

For each part of what the threads share there is a table of the places whose step writes it: the stage, the three
counters, the handles, the calls of the dispatcher with its stop flag. `Transition.writes` reads the tables off the steps.
- `Writes.same`: what a lock protects is written by its holder only.
- `everywhere_move`: so what a place says about it (`Guarded`) stays true until the activation itself goes on.
-/
import SecureEndpoint.Proofs.Workers.Locks

namespace SecureEndpoint.Workers

namespace Frame

/-- the stage after the next step of an activation -/
def stageAfter (s : Shared) (f : Frame) : Stage :=
  match f.attempt? with
  | some (_, seen, next) => if s.stage = seen then next else s.stage
  | none => s.stage

/-- the number of workers to wait for -/
def spawnedAfter (s : Shared) : Frame → Nat
  | .start .mark => s.size
  | .stop .settled => 0
  | _ => s.spawned

def parkedAfter (s : Shared) : Frame → Nat
  | .worker _ .parkCount => s.parked + 1
  | .worker _ .unpark => s.parked - 1
  | _ => s.parked

def liveAfter (s : Shared) : Frame → Nat
  | .worker _ .entered => s.live + 1
  | .worker _ .leaving => s.live - 1
  | _ => s.live

/-- the handles, where the step may have created a worker -/
def handlesAfter (m : Machine) (created : Bool) : Frame → List ThreadId
  | .start (.spawn _) => m.shared.handles ++ if created then [m.threads.length] else []
  | .stop .collect | .drop .collect => []
  | _ => m.shared.handles

/-- the calls of the dispatcher -/
def callsAfter (s : Shared) : Frame → List DispatcherCall
  | .halt .locked => s.calls ++ [.stop]
  | .revive .locked => s.calls ++ [.restart]
  | _ => s.calls

def haltedAfter (s : Shared) : Frame → Bool
  | .halt .locked => true
  | .revive .locked => false
  | _ => s.dispatcher.stopped

end Frame

/-- what the shared part is after a step, by the place of the activation that made it -/
structure Writes (m : Machine) (f : Frame) (created : Bool) (s : Shared) : Prop where
  size : s.size = m.shared.size
  stem : s.stem = m.shared.stem
  dispatches : s.dispatches = m.shared.dispatches
  stage : s.stage = f.stageAfter m.shared
  spawned : s.spawned = f.spawnedAfter m.shared
  parked : s.parked = f.parkedAfter m.shared
  live : s.live = f.liveAfter m.shared
  handles : s.handles = f.handlesAfter m created
  calls : s.calls = f.callsAfter m.shared
  halted : s.dispatcher.stopped = f.haltedAfter m.shared

theorem Transition.writes {m : Machine} {t : ThreadId} {f : Frame} {e : Effect} (h : Transition m t f e) :
    Writes m f e.spawn.isSome e.shared := by
  cases h with
  | take h => cases h <;> constructor <;> rfl
  | @whim mode n p w => cases w <;> constructor <;> rfl
  | started h | paused h | resumed h | settle h => constructor <;> first | rfl | exact (if_pos h).symm
  | shut _ h => constructor <;> first | rfl | exact (if_pos h).symm
  | spawnedAll | badName | spawnRefused => constructor <;> first | rfl | exact (List.append_nil _).symm
  | _ => constructor <;> rfl

/-- a panic gives locks back, and writes nothing else -/
theorem Machine.StepOf.writes {m m' : Machine} {t : ThreadId} {th : Thread} {f : Frame} {below : List Frame} {e : Effect}
    (s : m.StepOf m' t th f below e) : Writes m f e.spawn.isSome m'.shared := by
  have h := s.go.writes
  rw [s.shared]
  cases e.own with
  | unwind => exact ⟨h.size, h.stem, h.dispatches, h.stage, h.spawned, h.parked, h.live, h.handles, h.calls, h.halted⟩
  | _ => exact h

/-! ## What a lock protects -/

/-- what lock `l` protects is the same -/
def Shared.Same (l : Lock) (s s' : Shared) : Prop :=
  s'.size = s.size ∧ match l with
    | .handles => s'.handles = s.handles
    | .parking => s'.stage = s.stage ∧ s'.spawned = s.spawned ∧ s'.parked = s.parked ∧ s'.live = s.live
    | .queue => s'.dispatcher.stopped = s.dispatcher.stopped ∧ s'.calls = s.calls

theorem Shared.Same.refl (l : Lock) (s : Shared) : s.Same l s := by
  cases l <;> simp [Shared.Same]

/-- who tries to change the stage holds the parking lock -/
theorem attempt_locks {f : Frame} {a : Change × Stage × Stage} (h : f.attempt? = some a) : .parking ∈ f.locks := by
  unfold Frame.attempt? at h
  split at h <;> first | (simp [Frame.locks]; done) | cases h

/-- only the holder of a lock writes what it protects -/
theorem Writes.same {m : Machine} {f : Frame} {created : Bool} {s : Shared} {l : Lock} (h : Writes m f created s)
    (hl : l ∉ f.locks) : m.shared.Same l s := by
  refine ⟨h.size, ?_⟩
  cases l with
  | handles =>
    change s.handles = _
    rw [h.handles]
    unfold Frame.handlesAfter
    split <;> first | rfl | exact absurd (by simp [Frame.locks]) hl
  | parking =>
    refine ⟨?_, ?_, ?_, ?_⟩
    · rw [h.stage]
      unfold Frame.stageAfter
      cases ha : f.attempt? with
      | none => rfl
      | some a => exact absurd (attempt_locks ha) hl
    · rw [h.spawned]
      unfold Frame.spawnedAfter
      split <;> first | rfl | exact absurd (by simp [Frame.locks]) hl
    · rw [h.parked]
      unfold Frame.parkedAfter
      split <;> first | rfl | exact absurd (by simp [Frame.locks]) hl
    · rw [h.live]
      unfold Frame.liveAfter
      split <;> first | rfl | exact absurd (by simp [Frame.locks]) hl
  | queue =>
    refine ⟨?_, ?_⟩
    · rw [h.halted]
      unfold Frame.haltedAfter
      split <;> first | rfl | exact absurd (by simp [Frame.locks]) hl
    · rw [h.calls]
      unfold Frame.callsAfter
      split <;> first | rfl | exact absurd (by simp [Frame.locks]) hl

/-! ## What a place says about the shared part -/

/-- something said of an activation and the shared part that holds wherever nobody has lock `l`, and that only what the
lock protects can make true or false -/
structure Guarded (l : Lock) (fact : Shared → Frame → Prop) : Prop where
  free : ∀ {s f}, l ∉ f.locks → fact s f
  same : ∀ {s s' f}, s.Same l s' → fact s f → fact s' f
  calm : ∀ {s f}, fact s f.calm ↔ fact s f
  receive : ∀ {s f} v, fact s f → fact s (f.receive v)

namespace Machine

/-- it is said of every activation -/
def Everywhere (fact : Shared → Frame → Prop) (m : Machine) : Prop := ∀ t, ∀ f ∈ m.stackOf t, fact m.shared f

theorem everywhere_fresh (fact : Shared → Frame → Prop) (size : Nat) (stem : String) (dispatches : Bool) :
    (fresh size stem dispatches).Everywhere fact := by
  simp [Everywhere, fresh, stackOf, roster]

/-- the activations after a step: the new ones, those below, and the one that receives an answer -/
theorem stack_cases {own : Own} {below : List Frame} {g : Frame} (h : g ∈ own.stack below) :
    g ∈ own.frames ∨ g ∈ below ∨ ∃ v f rest, own = .ret v ∧ below = f :: rest ∧ g = f.receive v := by
  cases own with
  | become f =>
    rcases List.mem_cons.1 h with rfl | h
    · exact .inl (.head _)
    · exact .inr (.inl h)
  | call f callee =>
    rcases List.mem_cons.1 h with rfl | h
    · exact .inl (.head _)
    · rcases List.mem_cons.1 h with rfl | h
      · exact .inl (.tail _ (.head _))
      · exact .inr (.inl h)
  | ret v =>
    cases below with
    | nil => cases h
    | cons f rest =>
      rcases List.mem_cons.1 h with rfl | h
      · exact .inr (.inr ⟨v, f, rest, rfl, rfl, rfl⟩)
      · exact .inr (.inl (.tail _ h))
  | unwind => cases h

theorem mem_stack {own : Own} {below : List Frame} {g : Frame} (h : g ∈ own.stack below) :
    g ∈ own.frames ∨ g ∈ below ∨ ∃ f ∈ below, ∃ v, g = f.receive v := by
  rcases stack_cases h with h | h | ⟨v, f, rest, -, rfl, rfl⟩
  · exact .inl h
  · exact .inr (.inl h)
  · exact .inr (.inr ⟨f, .head _, v, rfl⟩)

/-- **One step at a time.** What is guarded by a lock is said of every activation after a move, if it was before and if
the step's own activation goes on so that it is said of what it becomes. -/
theorem everywhere_move {l : Lock} {fact : Shared → Frame → Prop} {m m' : Machine} {w : Option (Stage × Change)}
    (gd : Guarded l fact) (ho : m.Owned) (h : m.Everywhere fact) (mv : m.Moved m' w)
    (own : ∀ {t f e}, Transition m t f e → f.Sees m.shared → f.calm ∈ m.stackOf t → fact m.shared f →
      ∀ g ∈ e.own.frames, fact e.shared g) : m'.Everywhere fact := by
  intro i g hg
  cases mv with
  | @step t th f below e s =>
    have hf : fact m.shared f := gd.calm.1 (h t f.calm s.mem)
    have hsame : e.shared.Same l m'.shared := by
      rw [s.shared]
      cases e.own with
      | unwind => cases l <;> simp [Shared.Same, Own.unlocks, Shared.releaseAll]
      | _ => exact .refl l _
    -- an activation that was there before: either the lock is not its own, or nothing was written
    have old : ∀ g, (l ∈ f.locks → l ∉ g.locks) → fact m.shared g → fact m'.shared g := by
      intro g hd hg
      refine gd.same hsame ?_
      by_cases hl : l ∈ f.locks
      · exact gd.free (hd hl)
      · exact gd.same (s.go.writes.same hl) hg
    have alone : l ∈ f.locks → (∀ g ∈ below.map Frame.calm, l ∉ g.locks) ∧ ∀ i, i ≠ t → ∀ g ∈ m.stackOf i, l ∉ g.locks :=
      fun hl => ho.alone s.before (by simpa using hl)
    rw [s.stackAt] at hg
    by_cases hi : i = t
    · rw [if_pos hi] at hg
      obtain ⟨k, hk, rfl⟩ := List.mem_map.1 hg
      refine gd.calm.2 ?_
      have low : ∀ g ∈ below, fact m'.shared g := fun g hg =>
        old g (fun hl => by simpa using (alone hl).1 g.calm (List.mem_map_of_mem hg))
          (gd.calm.1 (h t g.calm (by rw [s.before]; exact .tail _ (List.mem_map_of_mem hg))))
      rcases mem_stack hk with hk | hk | ⟨b, hb, v, rfl⟩
      · exact gd.same hsame (own s.go s.sees s.mem hf k hk)
      · exact low k hk
      · exact gd.receive v (low b hb)
    · rw [if_neg hi] at hg
      split at hg
      · cases hsp : e.spawn with
        | none => simp [hsp] at hg
        | some k =>
          simp only [hsp, Option.map_some, Option.toList_some, List.mem_singleton] at hg
          subst hg
          exact gd.free (by simp [Frame.locks])
      · exact old g (fun hl => (alone hl).2 i hi g hg) (h i g hg)
  | still gates hsh hr =>
    rw [stackOf_still hr] at hg
    rw [hsh]
    exact gd.same (by cases l <;> simp [Shared.Same]) (h i g hg)
  | @call t th c ht hw hs hsh hr =>
    rw [stackOf_call ht hr] at hg
    rw [hsh]
    split at hg
    · rw [List.mem_singleton.1 hg]
      exact gd.free (by cases c <;> simp [Call.frame, Frame.locks])
    · exact h i g hg
  | enter hsh hr =>
    rw [stackOf_enter hr] at hg
    rw [hsh]
    exact h i g hg

/-- the size of the pool and the kind of its dispatcher do not change -/
theorem move_settings {m m' : Machine} {w : Option (Stage × Change)} (mv : m.Moved m' w) :
    m'.shared.size = m.shared.size ∧ m'.shared.dispatches = m.shared.dispatches := by
  cases mv with
  | step s => exact ⟨s.writes.size, s.writes.dispatches⟩
  | still gates hsh hr => exact ⟨by rw [hsh], by rw [hsh]⟩
  | call c ht hw hs hsh hr => exact ⟨by rw [hsh], by rw [hsh]⟩
  | enter hsh hr => exact ⟨by rw [hsh], by rw [hsh]⟩

end Machine

end SecureEndpoint.Workers
