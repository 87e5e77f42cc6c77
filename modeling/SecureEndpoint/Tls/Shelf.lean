/-
Values that several parties refer to by their place.

A shelf holds values, one of which is in use. Whoever knows the place of a value finds there whatever the place holds now.
There are two ways to change the value in use: `Shelf.alter` changes it where it is, so that everybody who knows its place
sees the change; `Shelf.renew` puts a new value at a new place and uses that one from now on, so that nobody who knows the
old place notices.
-/

namespace SecureEndpoint.Tls

/-- values by their place, one of them in use -/
structure Shelf (α : Type) where
  cells : List α
  /-- the place of the value in use -/
  place : Nat
  place_lt : place < cells.length
  deriving DecidableEq, Repr

namespace Shelf

variable {α : Type}

/-- a shelf with a single value -/
def single (a : α) : Shelf α := ⟨[a], 0, by simp⟩

/-- the value in use -/
def value (s : Shelf α) : α := s.cells.get ⟨s.place, s.place_lt⟩

/-- the value at a place, if there is one -/
def at? (s : Shelf α) (i : Nat) : Option α := s.cells[i]?

/-- changes the value in use where it is -/
def alter (s : Shelf α) (f : α → α) : Shelf α := ⟨s.cells.modify s.place f, s.place, by simp [s.place_lt]⟩

/-- uses a new value at a place of its own -/
def renew (s : Shelf α) (a : α) : Shelf α := ⟨s.cells ++ [a], s.cells.length, by simp⟩

theorem at?_place (s : Shelf α) : s.at? s.place = some s.value := by
  simp [at?, value, s.place_lt]

@[simp] theorem value_alter (s : Shelf α) (f : α → α) : (s.alter f).value = f s.value := by
  simp [value, alter]

@[simp] theorem alter_self (s : Shelf α) : s.alter (fun a => a) = s := by
  have h : s.cells.modify s.place (fun a => a) = s.cells := List.modify_id s.place s.cells
  simp [alter, h]

@[simp] theorem value_renew (s : Shelf α) (a : α) : (s.renew a).value = a := by
  simp [value, renew]

/-- whoever knows a place finds there what was there before -/
theorem at?_renew {s : Shelf α} {i : Nat} {b : α} (h : s.at? i = some b) (a : α) : (s.renew a).at? i = some b := by
  obtain ⟨hi, hb⟩ := List.getElem?_eq_some_iff.1 h
  simp [at?, renew, List.getElem?_append_left hi, hi, hb]

end Shelf

end SecureEndpoint.Tls
