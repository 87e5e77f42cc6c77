/-
What the fields of a record get from the values in a document.

A value stands for something as one of a kind (`Stands`), and is read as that (`Kind.read_iff`). What a field gets is said
without the reader, from the values that are given for it: its default if there are none, and what the value stands for if
there is exactly one (`Field.Gets`). The members of an object give the fields values by name (`Shape.Fills`), the elements of
an array by position (`Row`).

An object is read member by member, with what was given so far. The invariant is that what is given and what is still to come
fill the fields together: a member of a known name moves its value from the one to the other (`fills_known`), any other
member changes nothing (`fills_unknown`).

Fields of numbers are left out: whether a number is a natural one of 64 bits is a matter of its digits.
-/
import Mathlib.Data.List.Basic
import SecureEndpoint.Proofs.Json.Values

namespace SecureEndpoint.Json

/-! ## Values of fields -/

/-- what a value stands for as one of a kind, which is not a number -/
inductive Stands : Kind → Bytes → Scalar → Prop
  | true : Stands .flag (116 :: trueTail) (.flag true)
  | false : Stands .flag (102 :: falseTail) (.flag false)
  | null {e} : Stands (.text e) (110 :: nullTail) .null
  | text {e s t} (hs : Spells s t) : Stands (.text e) (34 :: (s ++ [34])) (.text (textOf t))

theorem Stands.isScalar {k : Kind} {v : Bytes} {x : Scalar} (h : Stands k v x) : IsScalar v := by
  cases h with
  | true => exact .true
  | false => exact .false
  | null => exact .null
  | text hs => exact .string hs.isString

theorem Stands.written {k : Kind} {v : Bytes} {x : Scalar} (h : Stands k v x) : Written .value v := .scalar h.isScalar

/-- none of these values goes on with what follows -/
theorem Stands.skip {k : Kind} {v w : Bytes} {x : Scalar} (h : Stands k v x) (hw : Blank w) (r : Bytes) :
    skipValue (w ++ (v ++ r)) = .ok r := by
  rw [skipValue, skipNested_scalar (r := r), skipNested_done]
  rw [h.written.skipBlanks hw]
  cases h with
  | true | false | null => simp [skipScalar, word_append, Except.map]
  | text hs => simp [skipScalar, isDigit, hs.isString.skip, Except.map]

theorem Stands.read {k : Kind} {v w : Bytes} {x : Scalar} (h : Stands k v x) (hw : Blank w) (r : Bytes) :
    k.read (w ++ (v ++ r)) = .ok (x, r) := by
  rw [Kind.read, h.written.skipBlanks hw]
  cases h with
  | true | false | null => simp [describe, word_append, Except.map, Kind.accept]
  | text hs =>
    have hread := hs.read r []
    simp only [List.reverse_nil, List.nil_append] at hread
    simp [describe, isDigit, hread, Except.map, Kind.accept]

/-- what is described is there, if a kind accepts it that is not a number -/
theorem describe_sound {s r : Bytes} {found : Found} (h : describe s = .ok (found, r)) {k : Kind} (hk : k ≠ .count)
    {x : Scalar} (hx : k.accept found = .ok x) : ∃ v, s = v ++ r ∧ Stands k v x := by
  unfold describe at h
  split at h
  · cases h
  rename_i b rest
  split at h
  · obtain ⟨a, ha, he⟩ := map_eq_ok h
    cases he
    cases k <;> cases hx
    exact ⟨_, by rw [word_sound ha, ‹b = 110›]; rfl, .null⟩
  split at h
  · obtain ⟨a, ha, he⟩ := map_eq_ok h
    cases he
    cases k <;> cases hx
    exact ⟨_, by rw [word_sound ha, ‹b = 116›]; rfl, .true⟩
  split at h
  · obtain ⟨a, ha, he⟩ := map_eq_ok h
    cases he
    cases k <;> cases hx
    exact ⟨_, by rw [word_sound ha, ‹b = 102›]; rfl, .false⟩
  -- a number is accepted as nothing else
  split at h
  · obtain ⟨a, ha, he⟩ := map_eq_ok h
    cases he
    cases k <;> first | exact absurd rfl hk | cases hx
  split at h
  · obtain ⟨a, ha, he⟩ := map_eq_ok h
    cases he
    cases k <;> first | exact absurd rfl hk | cases hx
  split at h
  · obtain ⟨⟨t, after⟩, ha, he⟩ := map_eq_ok h
    cases he
    cases k <;> cases hx
    obtain ⟨body, u, rfl, hs, rfl⟩ := stringTail_sound ha
    exact ⟨34 :: (body ++ [34]), by rw [‹b = 34›]; simp, .text hs⟩
  split at h
  · cases h
    cases k <;> cases hx
  split at h
  · cases h
    cases k <;> cases hx
  · cases h

theorem Kind.read_sound {k : Kind} (hk : k ≠ .count) {s r : Bytes} {x : Scalar} (h : k.read s = .ok (x, r)) :
    ∃ w v, s = w ++ (v ++ r) ∧ Blank w ∧ Stands k v x := by
  obtain ⟨w, hs, hw⟩ := skipBlanks_sound s
  unfold Kind.read at h
  split at h
  · cases h
  · rename_i found rest hdescribe
    split at h
    · rename_i y haccept
      cases h
      obtain ⟨v, hv, hstands⟩ := describe_sound hdescribe hk haccept
      exact ⟨w, v, by rw [← hv, ← hs], hw, hstands⟩
    · cases h

/-- a value is read as what it stands for, and read up to its end -/
theorem Kind.read_iff {k : Kind} (hk : k ≠ .count) {w v r : Bytes} (hw : Blank w) (hv : Written .value v) (hr : Ends r)
    {x : Scalar} {r' : Bytes} : k.read (w ++ (v ++ r)) = .ok (x, r') ↔ r' = r ∧ Stands k v x := by
  refine ⟨fun h => ?_, ?_⟩
  · obtain ⟨w', v', he, hw', hstands⟩ := read_sound hk h
    -- where a value ends is settled by passing over it, in both writings of the text
    have hend : Except.ok (ε := Fault) r' = .ok r := by
      rw [← hstands.skip hw' r', ← he, skipValue_append hw hv hr]
    cases hend
    have hvalue := congrArg skipBlanks he
    rw [hv.skipBlanks hw, hstands.written.skipBlanks hw'] at hvalue
    obtain rfl := List.append_cancel_right hvalue
    exact ⟨rfl, hstands⟩
  · rintro ⟨rfl, h⟩
    exact h.read hw r'

/-! ## What the fields get -/

/-- the bytes of a text -/
def bytesOf (text : String) : Bytes := text.toUTF8.toList

/-- the name of a field as it is spelled -/
def Field.key (f : Field) : Bytes := bytesOf f.name

/-- a member of an object: what its name spells, and its value as it is written -/
structure Member where
  name : Bytes
  value : Bytes
  deriving DecidableEq, Repr

/-- the values that the members of an object give under a name -/
def valuesOf (name : Bytes) (ms : List Member) : List Bytes := (ms.filter fun m => m.name == name).map Member.value

@[simp] theorem valuesOf_nil (name : Bytes) : valuesOf name [] = [] := rfl

@[simp] theorem valuesOf_self (m : Member) (ms : List Member) :
    valuesOf m.name (m :: ms) = m.value :: valuesOf m.name ms := by
  simp [valuesOf]

theorem valuesOf_other {name : Bytes} {m : Member} (h : name ≠ m.name) (ms : List Member) :
    valuesOf name (m :: ms) = valuesOf name ms := by
  simp [valuesOf, h.symm]

/-- what a field gets from what was given for it before and the values still to come -/
inductive Field.Gets (f : Field) : Option Scalar → List Bytes → Scalar → Prop
  | absent {x} (h : f.default = some x) : Gets f none [] x
  | before {x} : Gets f (some x) [] x
  | value {v x} (h : Stands f.kind v x) : Gets f none [v] x

/-- at most one value counts, so their order does not -/
theorem Field.Gets.perm {f : Field} {before : Option Scalar} {vs vs' : List Bytes} {x : Scalar} (h : f.Gets before vs x)
    (hp : vs.Perm vs') : f.Gets before vs' x := by
  cases h with
  | absent h => exact hp.nil_eq ▸ .absent h
  | before => exact hp.nil_eq ▸ .before
  | value h => exact List.singleton_perm.1 hp ▸ .value h

/-- what the fields get from what was given before and the members still to come -/
structure Shape.Fills (shape : Shape) (given : Given) (ms : List Member) (xs : List Scalar) : Prop where
  length : xs.length = shape.fields.length
  gets : ∀ {i : Nat} {f : Field} {x : Scalar}, shape.fields[i]? = some f → xs[i]? = some x →
    f.Gets (given[i]?.getD none) (valuesOf f.key ms) x

/-- the fields have names of their own, and none of them is a number -/
structure Shape.Plain (shape : Shape) : Prop where
  distinct : (shape.fields.map Field.key).Nodup
  kinds : ∀ f ∈ shape.fields, f.kind ≠ .count

namespace Shape

variable {shape : Shape}

theorem Plain.index_unique (hp : shape.Plain) {i j : Nat} {f g : Field} (hf : shape.fields[i]? = some f)
    (hg : shape.fields[j]? = some g) (he : f.key = g.key) : i = j := by
  obtain ⟨hi, -⟩ := List.getElem?_eq_some_iff.1 hf
  exact (List.getElem?_inj (by simpa using hi) hp.distinct).1 (by simp [hf, hg, he])

theorem lookup_some {name : Bytes} {f : Field} {i : Nat} (h : shape.lookup? name = some (f, i)) :
    shape.fields[i]? = some f ∧ f.key = name := by
  have hname := List.find?_some h
  have hmem := List.mem_of_find?_eq_some h
  exact ⟨List.mem_zipIdx_iff_getElem?.1 hmem, by simpa [Field.key, bytesOf] using hname⟩

theorem lookup_none {name : Bytes} (h : shape.lookup? name = none) {i : Nat} {f : Field}
    (hf : shape.fields[i]? = some f) : f.key ≠ name := by
  have hall := List.find?_eq_none.1 h (f, i) (List.mem_zipIdx_iff_getElem?.2 hf)
  simpa [Field.key, bytesOf] using hall

/-- a member of an unknown name gives nothing -/
theorem fills_unknown {m : Member} (h : shape.lookup? m.name = none) {given : Given} {ms : List Member}
    {xs : List Scalar} : shape.Fills given (m :: ms) xs ↔ shape.Fills given ms xs := by
  have hother : ∀ {i : Nat} {f : Field}, shape.fields[i]? = some f →
      valuesOf f.key (m :: ms) = valuesOf f.key ms := fun hf => valuesOf_other (lookup_none h hf) ms
  exact ⟨fun hx => ⟨hx.length, fun hf hi => hother hf ▸ hx.gets hf hi⟩,
    fun hx => ⟨hx.length, fun hf hi => (hother hf).symm ▸ hx.gets hf hi⟩⟩

/-- a member of a known name gives the field its value, which nothing else may give -/
theorem fills_known (hp : shape.Plain) {m : Member} {f : Field} {i : Nat} (h : shape.lookup? m.name = some (f, i))
    {given : Given} (hlength : given.length = shape.fields.length) {ms : List Member} {xs : List Scalar} :
    shape.Fills given (m :: ms) xs ↔
      given[i]?.getD none = none ∧ ∃ x, Stands f.kind m.value x ∧ shape.Fills (given.set i (some x)) ms xs := by
  obtain ⟨hf, hkey⟩ := lookup_some h
  obtain ⟨hi, -⟩ := List.getElem?_eq_some_iff.1 hf
  have hset : ∀ x, (given.set i (some x))[i]?.getD none = some x := fun x => by simp [hlength ▸ hi]
  have hkept : ∀ {j : Nat} {g : Field} {x : Scalar}, shape.fields[j]? = some g → j ≠ i →
      (given.set i (some x))[j]?.getD none = given[j]?.getD none ∧ valuesOf g.key (m :: ms) = valuesOf g.key ms := by
    intro j g x hg hj
    refine ⟨by rw [List.getElem?_set_ne hj.symm], valuesOf_other (fun he => hj ?_) ms⟩
    exact hp.index_unique hg hf (he.trans hkey.symm)
  have hself : valuesOf f.key (m :: ms) = m.value :: valuesOf f.key ms := by rw [hkey, valuesOf_self]
  constructor
  · intro hx
    have hix : i < xs.length := hx.length ▸ hi
    have hgets := hx.gets hf (List.getElem?_eq_getElem hix)
    rw [hself] at hgets
    generalize hgiven : given[i]?.getD none = before at hgets
    generalize hvalues : valuesOf f.key ms = values at hgets
    cases hgets with
    | value hstands =>
      -- nothing else is to come for this field, and nothing changes for the others
      refine ⟨rfl, xs[i], hstands, hx.length, fun {j g y} hg hy => ?_⟩
      by_cases hj : j = i
      · subst hj
        cases hf.symm.trans hg
        cases (List.getElem?_eq_getElem hix).symm.trans hy
        rw [hset, hvalues]
        exact .before
      · have hk := hkept (x := xs[i]) hg hj
        rw [hk.1, ← hk.2]
        exact hx.gets hg hy
  · rintro ⟨hnone, x, hstands, hx⟩
    refine ⟨hx.length, fun {j g y} hg hy => ?_⟩
    by_cases hj : j = i
    · subst hj
      cases hf.symm.trans hg
      have hgets := hx.gets hf hy
      rw [hset] at hgets
      generalize hvalues : valuesOf f.key ms = values at hgets
      cases hgets
      rw [hself, hnone, hvalues]
      exact .value hstands
    · have hk := hkept (x := x) hg hj
      rw [← hk.1, hk.2]
      exact hx.gets hg hy

end Shape

/-- what fields get from the elements of an array: each its own, those behind the last one their defaults -/
inductive Row : List Field → List Bytes → List Scalar → Prop
  | done : Row [] [] []
  | element {f fs v vs x xs} (h : Stands f.kind v x) (hr : Row fs vs xs) : Row (f :: fs) (v :: vs) (x :: xs)
  | absent {f fs x xs} (h : f.default = some x) (hr : Row fs [] xs) : Row (f :: fs) [] (x :: xs)

/-- a field gets the element in its place, or its default behind the last one -/
theorem Row.gets {fs : List Field} {vs : List Bytes} {xs : List Scalar} (h : Row fs vs xs) {i : Nat} {f : Field}
    {x : Scalar} (hf : fs[i]? = some f) (hx : xs[i]? = some x) : f.Gets none vs[i]?.toList x := by
  induction h generalizing i with
  | done => cases hf
  | element h hr ih =>
    cases i with
    | zero =>
      cases hf
      cases hx
      exact .value h
    | succ i => exact ih hf hx
  | absent h hr ih =>
    cases i with
    | zero =>
      cases hf
      cases hx
      exact .absent h
    | succ i => simpa using ih (i := i) (by simpa using hf) (by simpa using hx)

end SecureEndpoint.Json
