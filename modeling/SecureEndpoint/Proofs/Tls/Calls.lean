/-
Histories of calls, for any kind of context.

What every call keeps, every history keeps (`history_keeps`). A call that fails may leave a context half changed; where none
does (`Atomic`), only the calls that were accepted count (`history_keeps_of_accepted`).

What a context remembers of a history is, for each kind of thing, the last one that was brought: `last?` picks it.
-/
import SecureEndpoint.Tls.Endpoint
import Mathlib.Data.List.Basic

namespace SecureEndpoint.Tls

open Host (Files)

/-! ## The last of its kind -/

section

variable {α β : Type}

/-- the last thing of a kind -/
def last? (kind : α → Option β) (xs : List α) : Option β := (xs.filterMap kind).getLast?

theorem last?_cons (kind : α → Option β) (x : α) (xs : List α) :
    last? kind (x :: xs) = (last? kind xs).or (kind x) := by
  unfold last?
  cases h : kind x with
  | none => simp [h]
  | some b =>
    rw [List.filterMap_cons_some h, List.getLast?_cons]
    cases (xs.filterMap kind).getLast? <;> rfl

/-- a value that only one kind of thing changes ends as the last thing of that kind -/
theorem getD_last?_cons (kind : α → Option β) (x : α) (xs : List α) (b : β) :
    (last? kind (x :: xs)).getD b = (last? kind xs).getD ((kind x).getD b) := by
  rw [last?_cons]
  cases last? kind xs <;> rfl

end

/-! ## Histories -/

variable {C : Type} [Endpoint C]

theorem history_cons (c : C) (x : Files × Call) (xs : List (Files × Call)) :
    history c (x :: xs) = history (attempt x.1 c x.2).1 xs := rfl

/-- what every call keeps, whether it succeeds or fails, every history keeps -/
theorem history_keeps {I : C → Prop} (keeps : ∀ files c x, I c → I (attempt files c x).1) {c : C} (h : I c)
    (xs : List (Files × Call)) : I (history c xs) := by
  induction xs generalizing c with
  | nil => exact h
  | cons x xs ih => exact ih (keeps x.1 c x.2 h)

/-- calls that change nothing one by one change nothing together -/
theorem history_stays {c : C} {xs : List (Files × Call)} (stays : ∀ x ∈ xs, (attempt x.1 c x.2).1 = c) :
    history c xs = c := by
  induction xs with
  | nil => rfl
  | cons x xs ih =>
    obtain ⟨first, others⟩ := List.forall_mem_cons.1 stays
    rw [history_cons, first]
    exact ih others

/-- calls of which none fails are a history -/
theorem history_of_apply {files : Files} {c d : C} {calls : List Call} (h : (apply files c calls).2 = .ok d) :
    history c (calls.map fun x => (files, x)) = d := by
  induction calls generalizing c with
  | nil =>
    cases h
    rfl
  | cons x calls ih =>
    rw [List.map_cons, history_cons]
    unfold apply at h
    rcases hx : attempt files c x with ⟨e, _ | events⟩ <;> rw [hx] at h
    · cases h
    · exact ih h

/-- the calls of a history that did not fail -/
def accepted (c : C) : List (Files × Call) → List (Files × Call)
  | [] => []
  | x :: xs =>
    match attempt x.1 c x.2 with
    | (d, .ok _) => x :: accepted d xs
    | (d, .error _) => accepted d xs

theorem accepted_cons_ok {c d : C} {x : Files × Call} {events : List Event} (h : attempt x.1 c x.2 = (d, .ok events))
    (xs : List (Files × Call)) : accepted c (x :: xs) = x :: accepted d xs := by
  simp [accepted, h]

theorem accepted_cons_error {c d : C} {x : Files × Call} {e : TlsError} (h : attempt x.1 c x.2 = (d, .error e))
    (xs : List (Files × Call)) : accepted c (x :: xs) = accepted d xs := by
  simp [accepted, h]

variable (C) in
/-- no call that fails leaves a trace -/
def Atomic : Prop := ∀ files (c : C) x e, (attempt files c x).2 = .error e → (attempt files c x).1 = c

/-- a call either succeeds or leaves the context as it was -/
theorem Atomic.cases (hC : Atomic C) (files : Files) (c : C) (x : Call) :
    (∃ d events, attempt files c x = (d, .ok events)) ∨ ∃ e, attempt files c x = (c, .error e) := by
  rcases h : attempt files c x with ⟨d, e | events⟩
  · have hd : d = c := by simpa [h] using hC files c x e
    exact .inr ⟨e, by rw [hd]⟩
  · exact .inl ⟨d, events, rfl⟩

/-- what every call of some kind keeps where it succeeds, a history keeps if only such calls succeeded -/
theorem history_keeps_of_accepted (hC : Atomic C) {I : C → Prop} {K : Call → Prop}
    (keeps : ∀ {files c d x events}, attempt files c x = (d, .ok events) → K x → I c → I d) {c : C} (h : I c)
    {xs : List (Files × Call)} (only : ∀ x ∈ accepted c xs, K x.2) : I (history c xs) := by
  induction xs generalizing c with
  | nil => exact h
  | cons x xs ih =>
    rw [history_cons]
    obtain ⟨d, events, hx⟩ | ⟨e, hx⟩ := hC.cases x.1 c x.2
    · rw [accepted_cons_ok hx, List.forall_mem_cons] at only
      rw [hx]
      exact ih (keeps hx only.1 h) only.2
    · rw [accepted_cons_error hx] at only
      rw [hx]
      exact ih h only

end SecureEndpoint.Tls
