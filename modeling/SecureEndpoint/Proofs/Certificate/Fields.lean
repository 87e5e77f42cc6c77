/-
The fields of a certificate in the lenient and in the strict dialect.

The two readers go through a certificate in their own ways: they look for optional fields differently, and the strict one
knows tags by their numbers alone. If both of them accept a certificate, they have nevertheless found the same fields:
each takes one value at a time, and what both read is the same value. `certificate_shared` says which values the names
of a certificate are, and that the extensions agree; it holds for any encoding that both accept.
-/
import SecureEndpoint.Proofs.Der.Dialects
import SecureEndpoint.Certificate.Info
import Mathlib.Data.List.Basic

namespace SecureEndpoint

theorem mapM_option {α β : Type} (f : α → Option β) (l : List α) :
    l.mapM f = if l.all (fun a => (f a).isSome) then some (l.filterMap f) else none := by
  induction l with
  | nil => rfl
  | cons a l ih =>
    rw [List.mapM_cons, ih]
    cases h : f a with
    | none => simp [h]
    | some b =>
      simp only [List.all_cons, List.filterMap_cons, h, Option.isSome_some, Bool.true_and, bind, Option.bind_some]
      split <;> rfl

theorem of_mapM {α β : Type} {f : α → Option β} {l : List α} {bs : List β} (h : l.mapM f = some bs) :
    (∀ a ∈ l, ∃ b, f a = some b) ∧ bs = l.filterMap f := by
  rw [mapM_option] at h
  split at h <;> cases h
  rename_i all
  exact ⟨fun a ha => Option.isSome_iff_exists.1 (List.all_eq_true.1 all a ha), rfl⟩

namespace Der.Lenient

/-! ## Lenient fields -/

variable {s rest : Bytes} {t : Tag} {n : Nat}

theorem of_field {e : Element} (h : field t s = some (e, rest)) : lenient.element s = some (e, rest) ∧ e.tag = t := by
  simp only [field] at h
  split at h
  · rename_i e' r front
    split at h <;> cases h
    rename_i tag
    exact ⟨front, tag⟩
  · cases h

theorem of_constructed {contents : Bytes} (h : constructed t s = some (contents, rest)) :
    ∃ e, lenient.element s = some (e, rest) ∧ e.tag = t ∧ e.header.constructed = true ∧ contents = e.contents := by
  simp only [constructed] at h
  split at h
  · rename_i e r front
    split at h <;> cases h
    rename_i made
    exact ⟨e, (of_field front).1, (of_field front).2, made, rfl⟩
  · cases h

theorem of_basic {contents : Bytes} (h : basic n s = some (contents, rest)) :
    ∃ e, lenient.element s = some (e, rest) ∧ e.tag = Tag.std n ∧ contentsAs n e = some contents := by
  simp only [basic] at h
  split at h
  · rename_i e r front
    obtain ⟨c, hc, e⟩ := Option.map_eq_some_iff.1 h
    cases e
    exact ⟨_, (of_field front).1, (of_field front).2, hc⟩
  · cases h

theorem of_oneOf {numbers : List Nat} {p : Nat × Bytes} (h : oneOf numbers s = some (p, rest)) :
    ∃ e, lenient.element s = some (e, rest) ∧ e.tag = Tag.std p.1 ∧ p.1 ∈ numbers ∧ contentsAs p.1 e = some p.2 := by
  simp only [oneOf] at h
  split at h
  · cases h
  · rename_i e r front
    split at h
    · rename_i known
      obtain ⟨c, hc, eq⟩ := Option.map_eq_some_iff.1 h
      cases eq
      exact ⟨e, front, by rw [Element.tag, known.1]; rfl, List.contains_iff_mem.1 known.2, hc⟩
    · cases h

/-- no dialect that goes with the lenient one reads a value of this tag at the front -/
def Lacks (t : Tag) (s : Bytes) : Prop :=
  ∀ {d : Dialect}, lenient.Compatible d → ∀ {e rest}, d.element s = some (e, rest) → e.tag ≠ t

/-- an optional field is there, or the bytes do not begin with one -/
theorem of_optional {o : Option Element} (h : optional t s = some (o, rest)) :
    (∃ e, o = some e ∧ lenient.element s = some (e, rest) ∧ e.tag = t) ∨ (o = none ∧ rest = s ∧ Lacks t s) := by
  cases s with
  | nil =>
    cases h
    exact .inr ⟨rfl, rfl, fun _ _ _ front => by cases Dialect.element_nil _ ▸ front⟩
  | cons b s =>
    simp only [optional] at h
    split at h
    · cases h
    rename_i x after hx
    split at h
    · cases h
    split at h
    · rename_i same
      obtain ⟨⟨e, r⟩, front, eq⟩ := Option.map_eq_some_iff.1 h
      cases eq
      obtain ⟨after', hx', -⟩ := Dialect.element_cases front
      rw [hx] at hx'
      cases hx'
      exact .inl ⟨e, rfl, front, by rw [Element.tag, same.1, same.2]⟩
    · rename_i other
      cases h
      refine .inr ⟨rfl, rfl, fun c e r front tag => other ?_⟩
      obtain ⟨after', hx', -⟩ := Dialect.element_cases front
      cases c.header hx hx'
      exact Tag.mk.inj tag

theorem of_tagged {o : Option Bytes} (h : tagged t n s = some (o, rest)) :
    (∃ e contents, o = some contents ∧ lenient.element s = some (e, rest) ∧ e.tag = t ∧ contentsAs n e = some contents) ∨
    (o = none ∧ rest = s ∧ Lacks t s) := by
  simp only [tagged] at h
  split at h
  · rename_i e r found
    obtain ⟨c, hc, eq⟩ := Option.map_eq_some_iff.1 h
    cases eq
    obtain ⟨e', same, front, tag⟩ | ⟨absent, -⟩ := of_optional found
    · cases same
      exact .inl ⟨e, c, rfl, front, tag, hc⟩
    · cases absent
  · rename_i r missing
    cases h
    obtain ⟨_, eq, -⟩ | ⟨-, same, other⟩ := of_optional missing
    · cases eq
    · exact .inr ⟨rfl, same, @other⟩
  · cases h

theorem of_listOf {α : Type} {f : Element → Option α} {as : List α} (h : listOf f s = some as) :
    ∃ es, lenient.Series s es ∧ es.mapM f = some as := by
  simp only [listOf] at h
  split at h
  · cases h
  · rename_i es hes
    exact ⟨es, Dialect.elements_eq_some.1 hes, h⟩

/-- the types that cannot be put together from pieces have their contents at hand -/
theorem contentsAs_atomic {e : Element} {contents : Bytes} (atomic : isAtomic n = true)
    (h : contentsAs n e = some contents) : e.header.constructed = false ∧ contents = e.contents := by
  have other : (n = 16 || n = 17) = false := by
    simp only [isAtomic, List.contains_iff_mem, List.mem_cons, List.not_mem_nil, or_false] at atomic
    rcases atomic with rfl | rfl | rfl | rfl | rfl <;> rfl
  simp only [contentsAs, other, atomic, Bool.and_true, Bool.false_eq_true, if_false] at h
  split at h
  · cases h
  · rename_i made
    have whole : e.header.constructed = false := by simpa using made
    simp only [textBytes, whole, Bool.false_eq_true, if_false] at h
    split at h <;> cases h
    exact ⟨whole, rfl⟩

/-- a value in one piece, of a type that is not made of others -/
theorem contentsAs_plain {e : Element} (plain : e.header.constructed = false) (simple : n ∉ compositeTypes) :
    contentsAs n e = if hasForm n e.contents then some e.contents else none := by
  have other : (n = 16 || n = 17) = false := by
    simp only [compositeTypes, List.mem_cons, not_or] at simple
    simp [simple]
  simp [contentsAs, other, plain, textBytes]

/-- what is taken of such a value are its contents -/
theorem contents_of_plain {e : Element} {contents : Bytes} (plain : e.header.constructed = false)
    (simple : n ∉ compositeTypes) (h : contentsAs n e = some contents) : contents = e.contents := by
  rw [contentsAs_plain plain simple] at h
  split at h <;> cases h
  rfl

end Der.Lenient

namespace Certificate

open Der Dialect

variable {s rest : Bytes}

namespace Strict

/-! ## Strict fields -/

theorem of_container {n : Nat} {contents : Bytes} (h : container n s = some (contents, rest)) :
    ∃ e, strict.element s = some (e, rest) ∧ e.header.number = n ∧ contents = e.contents := by
  obtain ⟨⟨e, r⟩, found, eq⟩ := Option.map_eq_some_iff.1 h
  cases eq
  simp only [numbered] at found
  split at found
  · split at found <;> cases found
    rename_i number front
    exact ⟨e, front, number, rfl⟩
  · cases found

theorem of_plain {n : Nat} {contents : Bytes} (h : plain n s = some (contents, rest)) :
    ∃ e, strict.element s = some (e, rest) ∧ e.header.number = n ∧ e.header.constructed = false ∧
      contents = e.contents := by
  simp only [plain, numbered] at h
  split at h
  · rename_i e r found
    split at found
    · split at found <;> cases found
      rename_i number front
      split at h <;> cases h
      rename_i whole
      exact ⟨e, front, number, by simpa using whole, rfl⟩
    · cases found
  · cases h

theorem container_of {n : Nat} {e : Element} (front : strict.element s = some (e, rest)) (number : e.header.number = n) :
    container n s = some (e.contents, rest) := by
  simp [container, numbered, front, number]

theorem plain_of {n : Nat} {e : Element} (front : strict.element s = some (e, rest)) (number : e.header.number = n)
    (whole : e.header.constructed = false) : plain n s = some (e.contents, rest) := by
  simp [plain, numbered, front, number, whole]

theorem of_name {vs : List NameValue} (h : name s = some (vs, rest)) :
    ∃ e, strict.element s = some (e, rest) ∧ vs = (many namePart e.contents).1.flatten := by
  simp only [name] at h
  split at h
  · cases h
  · rename_i contents r found
    cases h
    obtain ⟨e, front, -, rfl⟩ := of_container found
    exact ⟨e, front, rfl⟩

end Strict

/-! ## Readers that take one value -/

/-- the reader takes the value at the front -/
def Takes {α : Type} (d : Dialect) (f : Bytes → Option (α × Bytes)) : Prop :=
  ∀ {s a rest}, f s = some (a, rest) → ∃ e, d.element s = some (e, rest)

/-- two readers that take one value each, in compatible dialects, are left with the same bytes -/
theorem Takes.same_rest {α β : Type} {d d' : Dialect} {f : Bytes → Option (α × Bytes)} {g : Bytes → Option (β × Bytes)}
    (hf : Takes d f) (hg : Takes d' g) (c : d.Compatible d') {a : α} {b : β} {rest' : Bytes}
    (h : f s = some (a, rest)) (h' : g s = some (b, rest')) : rest = rest' := by
  obtain ⟨e, front⟩ := hf h
  obtain ⟨e', front'⟩ := hg h'
  exact (Prod.mk.inj (c.element front front')).2

namespace Lenient

open Der.Lenient

theorem algorithm_takes : Takes lenient algorithm := by
  intro s a rest h
  simp only [algorithm] at h
  split at h
  · cases h
  rename_i contents r found
  obtain ⟨e, front, -⟩ := of_constructed found
  split at h
  · cases h
  · cases h
    exact ⟨e, front⟩
  · split at h <;> cases h
    exact ⟨e, front⟩

theorem validity_takes : Takes lenient validity := by
  intro s a rest h
  simp only [validity] at h
  split at h
  · cases h
  rename_i contents r found
  obtain ⟨e, front, -⟩ := of_constructed found
  split at h
  · cases h
  · split at h <;> cases h
    exact ⟨e, front⟩

theorem publicKeyInfo_takes : Takes lenient publicKeyInfo := by
  intro s a rest h
  simp only [publicKeyInfo] at h
  split at h
  · cases h
  rename_i contents r found
  obtain ⟨e, front, -⟩ := of_constructed found
  split at h
  · cases h
  · split at h <;> cases h
    exact ⟨e, front⟩

theorem of_name {n : Name} (h : name s = some (n, rest)) : ∃ e sets, lenient.element s = some (e, rest) ∧
    e.tag = Tag.sequence ∧ listOf attributeSet e.contents = some sets ∧ n = sets.flatten := by
  simp only [name] at h
  split at h
  · cases h
  rename_i e r found
  split at h
  · cases h
  rename_i sets hsets
  split at h <;> cases h
  exact ⟨e, sets, (of_field found).1, (of_field found).2, hsets, rfl⟩

end Lenient

namespace Strict

theorem algorithm_takes : Takes strict algorithm := by
  intro s a rest h
  simp only [algorithm] at h
  split at h
  · cases h
  · rename_i contents r found
    obtain ⟨e, front, -⟩ := of_container found
    obtain ⟨_, -, eq⟩ := Option.map_eq_some_iff.1 h
    cases eq
    exact ⟨e, front⟩

theorem validity_takes : Takes strict validity := by
  intro s a rest h
  simp only [validity, bind, Option.bind_eq_some_iff, pure, Option.some.injEq, Prod.mk.injEq, Prod.exists] at h
  obtain ⟨contents, r, found, _, _, -, _, _, -, -, rfl⟩ := h
  obtain ⟨e, front, -⟩ := of_container found
  exact ⟨e, front⟩

theorem publicKeyInfo_takes : Takes strict publicKeyInfo := by
  intro s a rest h
  simp only [publicKeyInfo, bind, Option.bind_eq_some_iff, pure, Option.some.injEq, Prod.mk.injEq, Prod.exists] at h
  obtain ⟨contents, r, found, _, _, -, _, _, -, -, rfl⟩ := h
  obtain ⟨e, front, -⟩ := of_container found
  exact ⟨e, front⟩

end Strict

/-! ## Optional fields -/

namespace Lenient

open Der.Lenient

theorem of_explicit {t : Tag} {o : Option Bytes} (h : explicit? t s = some (o, rest)) :
    (∃ e, o = some e.contents ∧ lenient.element s = some (e, rest) ∧ e.tag = t ∧ e.header.constructed = true) ∨
    (o = none ∧ rest = s ∧ Lacks t s) := by
  simp only [explicit?] at h
  split at h
  · cases h
  · rename_i r missing
    cases h
    obtain ⟨_, eq, -⟩ | ⟨-, same, other⟩ := of_optional missing
    · cases eq
    · exact .inr ⟨rfl, same, @other⟩
  · rename_i e r found
    split at h <;> cases h
    rename_i made
    obtain ⟨e', same, front, tag⟩ | ⟨absent, -⟩ := of_optional found
    · cases same
      exact .inl ⟨e, rfl, front, tag, made⟩
    · cases absent

/-- a version is taken, or there is none -/
theorem of_version {u : Unit} (h : version s = some (u, rest)) :
    (∃ e, lenient.element s = some (e, rest) ∧ e.tag = Tag.ctx 0) ∨ (rest = s ∧ Lacks (Tag.ctx 0) s) := by
  simp only [version] at h
  split at h
  · cases h
  · rename_i r missing
    cases h
    obtain ⟨_, eq, -⟩ | ⟨-, same, other⟩ := of_explicit missing
    · cases eq
    · exact .inr ⟨same, @other⟩
  · rename_i contents r found
    obtain ⟨e, -, front, tag, -⟩ | ⟨absent, -⟩ := of_explicit found
    · split at h <;> cases h
      exact .inl ⟨e, front, tag⟩
    · cases absent

end Lenient

theorem version_shared {u u' : Unit} {rest' : Bytes} (h : Lenient.version s = some (u, rest))
    (h' : Strict.version s = some (u', rest')) : rest = rest' := by
  simp only [Strict.version] at h'
  split at h'
  · cases h'
    obtain ⟨e, front, -⟩ | ⟨rfl, -⟩ := Lenient.of_version h
    · cases Dialect.element_nil _ ▸ front
    · rfl
  split at h'
  · cases h'
  rename_i e' r' front'
  obtain ⟨e, front, tag⟩ | ⟨rfl, other⟩ := Lenient.of_version h
  · cases lenient_strict.element front front'
    rw [if_neg (Decidable.not_not.2 tag)] at h'
    split at h'
    · split at h' <;> cases h'
      rfl
    · cases h'
  · rw [if_pos (other lenient_strict front')] at h'
    cases h'
    rfl

open Der.Lenient in
theorem uniqueId_shared {n : Nat} {o : Option Bytes} {u : Unit} {rest' : Bytes}
    (h : tagged (Tag.ctx n) 3 s = some (o, rest)) (h' : Strict.uniqueId n s = some (u, rest')) : rest = rest' := by
  simp only [Strict.uniqueId] at h'
  split at h'
  · cases h'
    obtain ⟨e, _, -, front, -⟩ | ⟨-, rfl, -⟩ := of_tagged h
    · cases Dialect.element_nil _ ▸ front
    · rfl
  split at h'
  · cases h'
  rename_i e' r' front'
  obtain ⟨e, _, -, front, tag, -⟩ | ⟨-, rfl, other⟩ := of_tagged h
  · cases lenient_strict.element front front'
    obtain ⟨-, number⟩ := Tag.mk.inj tag
    rw [if_neg (Decidable.not_not.2 number)] at h'
    split at h' <;> cases h'
    rfl
  · split at h'
    · cases h'
      rfl
    · rename_i number
      split at h' <;> cases h'
      rename_i context
      refine absurd ?_ (other lenient_strict front')
      rw [Element.tag, context.1, Decidable.not_not.1 number]
      rfl

/-! ## Extensions -/

theorem Strict.skipMark_cases (s : Bytes) :
    skipMark s = s ∨ ∃ e, strictOpen.element s = some (e, skipMark s) ∧ e.header.number = 1 := by
  simp only [skipMark]
  split
  · rename_i e rest front
    split
    · rename_i mark
      exact .inr ⟨e, front, mark.1⟩
    · exact .inl rfl
  · exact .inl rfl

open Der.Lenient in
/-- the strict reader passes over the mark of importance exactly if the lenient one reads it -/
theorem mark_shared {o : Option Bytes} {v v' : Element} {end_ end' : Bytes}
    (h : tagged Tag.boolean 1 s = some (o, rest)) (value : lenient.element rest = some (v, end_))
    (tag : v.tag = Tag.octetString) (value' : strict.element (Strict.skipMark s) = some (v', end'))
    (number : v'.header.number = 4) : v = v' := by
  obtain ⟨-, octets⟩ := Tag.mk.inj tag
  have same : Strict.skipMark s = rest := by
    obtain ⟨b, _, -, front, mark, -⟩ | ⟨-, rfl, -⟩ := of_tagged h
    · -- a mark that was not passed over would have been taken for the value
      obtain ⟨-, one⟩ := Tag.mk.inj mark
      obtain unmarked | ⟨e, front', -⟩ := Strict.skipMark_cases s
      · rw [unmarked] at value'
        cases lenient_strict.element front value'
        omega
      · exact (Prod.mk.inj (lenient_strictOpen.element front front')).2.symm
    · obtain unmarked | ⟨e, front', one⟩ := Strict.skipMark_cases rest
      · exact unmarked
      · cases lenient_strictOpen.element value front'
        omega
  rw [same] at value'
  exact (Prod.mk.inj (lenient_strict.element value value')).1

/-- what the strict reader keeps of an extension -/
def Extension.kept (x : Extension) : Strict.Extension := ⟨x.oid, x.value⟩

open Der.Lenient in
theorem Lenient.of_extension {e : Element} {x : Extension} (h : Lenient.extension e = some x) :
    e.tag = Tag.sequence ∧ ∃ o more critical behind v, lenient.element e.contents = some (o, more) ∧
      contentsAs 6 o = some x.oid ∧ tagged Tag.boolean 1 more = some (critical, behind) ∧
      lenient.element behind = some (v, []) ∧ v.tag = Tag.octetString ∧ contentsAs 4 v = some x.value := by
  simp only [Lenient.extension] at h
  split at h
  · cases h
  rename_i framed
  simp only [not_or, Decidable.not_not] at framed
  split at h
  · cases h
  rename_i oid more hoid
  split at h
  · cases h
  rename_i critical behind mark
  split at h <;> cases h
  rename_i value hvalue
  obtain ⟨o, fronto, -, ho⟩ := of_basic hoid
  obtain ⟨v, frontv, tagv, hv⟩ := of_basic hvalue
  exact ⟨framed.1, o, more, critical, behind, v, fronto, ho, mark, frontv, tagv, hv⟩

theorem extension_shared {e : Element} {x : Extension} {y : Strict.Extension}
    (front : strict.element s = some (e, rest)) (h : Lenient.extension e = some x) {rest' : Bytes}
    (h' : Strict.extension s = some (y, rest')) :
    rest' = rest ∧ y = x.kept ∧ x.value.length < Nat.pow 2 63 := by
  obtain ⟨-, o, more, critical, behind, v, fronto, ho, mark, frontv, tagv, hv⟩ := Lenient.of_extension h
  simp only [Strict.extension, bind, Option.bind_eq_some_iff, pure, Option.some.injEq, Prod.mk.injEq,
    Prod.exists] at h'
  obtain ⟨contents, r, outer, oid', more', hoid', value', end', hvalue', rfl, rfl⟩ := h'
  obtain ⟨e', front', -, rfl⟩ := Strict.of_container outer
  rw [front] at front'
  cases front'
  obtain ⟨o', fronto', -, -, rfl⟩ := Strict.of_plain hoid'
  cases lenient_strict.element fronto fronto'
  obtain ⟨-, oid⟩ := Der.Lenient.contentsAs_atomic rfl ho
  obtain ⟨v', frontv', numberv, whole, rfl⟩ := Strict.of_plain hvalue'
  have same := mark_shared mark frontv tagv frontv' numberv
  subst same
  rw [Extension.kept, oid, Der.Lenient.contents_of_plain whole (by decide) hv]
  exact ⟨rfl, rfl, lenient_contents_lt rfl frontv' frontv⟩

theorem Strict.many_none {α : Type} {f : Bytes → Option (α × Bytes)} (h : f s = none) : many f s = ([], s) := by
  rw [many]
  split
  · rfl
  · rename_i h'
    rw [h] at h'
    cases h'

theorem Strict.many_some {α : Type} {f : Bytes → Option (α × Bytes)} {a : α} (h : f s = some (a, rest))
    (shorter : rest.length < s.length) : many f s = (a :: (many f rest).1, (many f rest).2) := by
  rw [many]
  split
  · rename_i h'
    rw [h] at h'
    cases h'
  · rename_i h'
    rw [h] at h'
    cases h'
    rw [dif_pos shorter]

theorem Strict.extension_takes : Takes strict Strict.extension := by
  intro s y rest h
  simp only [Strict.extension, bind, Option.bind_eq_some_iff, pure, Option.some.injEq, Prod.mk.injEq,
    Prod.exists] at h
  obtain ⟨contents, r, outer, _, _, -, _, _, -, -, rfl⟩ := h
  obtain ⟨e, front, -⟩ := Strict.of_container outer
  exact ⟨e, front⟩

theorem extensions_within_shared {es : List Element} (h : lenient.Series s es) {xs : List Extension}
    (hx : es.mapM Lenient.extension = some xs) {ys : List Strict.Extension}
    (hy : Strict.many Strict.extension s = (ys, [])) :
    ys = xs.map Extension.kept ∧ ∀ x ∈ xs, x.value.length < Nat.pow 2 63 := by
  -- along the values that the lenient reader found; the strict one reads at the same places
  induction h generalizing xs ys with
  | nil =>
    cases hx
    rw [Strict.many_none rfl] at hy
    cases hy
    exact ⟨rfl, fun x hx => by cases hx⟩
  | @cons s rest e es front _ ih =>
    simp only [List.mapM_cons, bind, Option.bind_eq_some_iff, pure, Option.some.injEq] at hx
    obtain ⟨x, hx, xs, hxs, rfl⟩ := hx
    cases hy' : Strict.extension s with
    | none =>
      rw [Strict.many_none hy'] at hy
      cases hy
      cases Dialect.element_nil _ ▸ front
    | some p =>
      obtain ⟨y, rest'⟩ := p
      obtain ⟨e', front'⟩ := Strict.extension_takes hy'
      cases lenient_strict.element front front'
      obtain ⟨-, rfl, short⟩ := extension_shared front' hx hy'
      rw [Strict.many_some hy' (Dialect.element_length front)] at hy
      obtain ⟨rfl, done⟩ := Prod.mk.inj hy
      obtain ⟨same, all⟩ := ih hxs (Prod.ext rfl done)
      exact ⟨congrArg (x.kept :: ·) same, List.forall_mem_cons.2 ⟨short, all⟩⟩

/-- the extensions fill the bytes behind the header of their field -/
theorem Strict.of_extensions {ys : List Strict.Extension} (h : Strict.extensions s = some ys) : s = [] ∧ ys = [] ∨
    ∃ x after list, strict.header s = some (x, after) ∧ strict.element after = some (list, []) ∧
      many Strict.extension list.contents = (ys, []) := by
  simp only [Strict.extensions] at h
  split at h
  · cases h
    exact .inl ⟨rfl, rfl⟩
  simp only [bind, Option.bind_eq_some_iff, Prod.exists] at h
  obtain ⟨x, after, hx, h⟩ := h
  split at h
  · cases h
  simp only [Option.bind_eq_some_iff, Prod.exists] at h
  obtain ⟨contents, rest, found, h⟩ := h
  split at h
  · cases h
  rename_i filled
  cases Decidable.not_not.1 filled
  obtain ⟨list, front, -, rfl⟩ := of_container found
  split at h <;> cases h
  rename_i all
  exact .inr ⟨x, after, list, hx, front, all⟩

open Der.Lenient in
theorem Lenient.of_extensions {xs : List Extension} (h : Lenient.extensions s = some xs) : s = [] ∧ xs = [] ∨
    ∃ e list es, lenient.element s = some (e, []) ∧ e.tag = Tag.ctx 3 ∧ e.header.constructed = true ∧
      lenient.element e.contents = some (list, []) ∧ list.tag = Tag.sequence ∧
      lenient.Series list.contents es ∧ es.mapM Lenient.extension = some xs := by
  simp only [Lenient.extensions] at h
  split at h
  · rename_i missing
    cases h
    obtain ⟨_, eq, -⟩ | ⟨-, rfl, -⟩ := of_explicit missing
    · cases eq
    · exact .inl ⟨rfl, rfl⟩
  · rename_i contents found
    obtain ⟨e, same, front, tag, made⟩ | ⟨absent, -⟩ := of_explicit found
    · cases same
      split at h
      · rename_i list hlist
        obtain ⟨es, hes, hx⟩ := of_listOf h
        exact .inr ⟨e, list, es, front, tag, made, (of_field hlist).1, (of_field hlist).2, hes, hx⟩
      · cases h
    · cases absent
  · cases h

theorem extensions_shared {xs : List Extension} (hx : Lenient.extensions s = some xs) {ys : List Strict.Extension}
    (hy : Strict.extensions s = some ys) : ys = xs.map Extension.kept ∧ ∀ x ∈ xs, x.value.length < Nat.pow 2 63 := by
  obtain ⟨rfl, rfl⟩ | ⟨e, list, es, front, -, -, inner, -, hes, hx⟩ := Lenient.of_extensions hx
  · obtain ⟨-, rfl⟩ | ⟨x, after, list, hx, -⟩ := Strict.of_extensions hy
    · exact ⟨rfl, fun x hx => by cases hx⟩
    · cases hx
  · obtain ⟨rfl, -⟩ | ⟨x, after, list', hx', inner', hy⟩ := Strict.of_extensions hy
    · cases Dialect.element_nil _ ▸ front
    -- the strict reader does not look at the length in the header, but the lenient one found it to fit
    have filled : after = e.contents := by
      obtain ⟨n, given⟩ := Dialect.length_given rfl hx'
      obtain ⟨after', hx, ⟨n', given', enough, contents, done⟩ | ⟨endless, -⟩⟩ := Dialect.element_cases front
      all_goals cases lenient_strict.header hx hx'
      · rw [contents, List.take_of_length_le (List.drop_eq_nil_iff.1 done.symm)]
      · rw [given] at endless
        cases endless
    subst filled
    cases lenient_strict.element inner inner'
    exact extensions_within_shared hes hx hy

/-! ## The signed part -/

/-- the value that both readers have taken a name from, and what each of them made of its contents -/
structure NameRead (e : Element) (n : Name) (vs : List Strict.NameValue) : Prop where
  tag : e.tag = Tag.sequence
  lenient : ∃ sets, Der.Lenient.listOf Lenient.attributeSet e.contents = some sets ∧ n = sets.flatten
  strict : vs = (Strict.many Strict.namePart e.contents).1.flatten
  short : e.contents.length < Nat.pow 2 63

theorem name_shared {n : Name} {vs : List Strict.NameValue} {rest' : Bytes} (h : Lenient.name s = some (n, rest))
    (h' : Strict.name s = some (vs, rest')) :
    rest = rest' ∧ ∃ e, lenient.element s = some (e, rest) ∧ NameRead e n vs := by
  obtain ⟨e, sets, front, tag, hsets, flat⟩ := Lenient.of_name h
  obtain ⟨e', front', values⟩ := Strict.of_name h'
  cases lenient_strict.element front front'
  exact ⟨rfl, e, front, tag, ⟨sets, hsets, flat⟩, values, lenient_contents_lt rfl front' front⟩

/-- the fields of the signed part of a certificate, without the version -/
def signedFields (s : Bytes) : List Element :=
  match distinguished.element s with
  | none => []
  | some (whole, _) => (whole.parts.head?.elim [] Element.parts).dropWhile fun e => e.tag = Tag.ctx 0

/-- the type and the value of an extension, which can have a mark of importance between them -/
def extensionPair (e : Element) : Bytes × Bytes :=
  ((e.parts.head?.map Element.contents).getD [], (e.parts.getLast?.map Element.contents).getD [])

/-- the types and the values of the extensions among these fields -/
def extensionsAmong (fields : List Element) : List (Bytes × Bytes) :=
  match fields.find? fun e => e.tag = Tag.ctx 3 with
  | none => []
  | some e => (e.parts.head?.elim [] Element.parts).map extensionPair

theorem fields_behind_version {u : Unit} (h : Lenient.version s = some (u, rest)) {serial : Element} {behind : Bytes}
    (front : lenient.element rest = some (serial, behind)) (tag : serial.tag = Tag.integer) {fs : List Element}
    (hfs : distinguished.Series s fs) : distinguished.Series rest (fs.dropWhile fun e => e.tag = Tag.ctx 0) := by
  have stays : ∀ {s fs}, lenient.element s = some (serial, behind) → distinguished.Series s fs →
      fs.dropWhile (fun e => decide (e.tag = Tag.ctx 0)) = fs := by
    intro s fs front hfs
    obtain ⟨more, rfl, -⟩ := hfs.front lenient_distinguished front
    rw [List.dropWhile_cons_of_neg (by rw [tag]; decide)]
  obtain ⟨v, hv, version⟩ | ⟨rfl, -⟩ := Lenient.of_version h
  · obtain ⟨more, rfl, hmore⟩ := hfs.front lenient_distinguished hv
    rw [List.dropWhile_cons_of_pos (by simpa using version), stays front hmore]
    exact hmore
  · rw [stays front hfs]
    exact hfs

/-- the type and the value of an extension -/
def Extension.pair (x : Extension) : Bytes × Bytes := (x.oid, x.value)

open Der.Lenient in
theorem extensionPair_eq {e : Element} (d : e.isDistinguished = true) {x : Extension}
    (h : Lenient.extension e = some x) : extensionPair e = x.pair := by
  obtain ⟨tag, o, more, critical, behind, v, fronto, ho, mark, frontv, tagv, hv⟩ := Lenient.of_extension h
  obtain ⟨series, parts⟩ := Element.of_composite d tag (by decide)
  obtain ⟨es, e₁, behindO⟩ := series.front lenient_distinguished fronto
  -- with or without a mark of importance, the value stands last
  have last : ∃ front, e.parts = o :: (front ++ [v]) := by
    obtain ⟨b, _, -, frontb, -, -⟩ | ⟨-, rfl, -⟩ := of_tagged mark
    · obtain ⟨es', rfl, behindB⟩ := behindO.front lenient_distinguished frontb
      obtain ⟨es', rfl, behindV⟩ := behindB.front lenient_distinguished frontv
      cases behindV.eq_nil
      exact ⟨[b], e₁⟩
    · obtain ⟨es', rfl, behindV⟩ := behindO.front lenient_distinguished frontv
      cases behindV.eq_nil
      exact ⟨[], e₁⟩
  obtain ⟨front, e₂⟩ := last
  obtain ⟨-, oid⟩ := contentsAs_atomic rfl ho
  have whole := Element.of_simple (parts v (by simp [e₂])) tagv (by decide)
  have value := contents_of_plain whole (by decide) hv
  rw [extensionPair, e₂, ← List.cons_append, List.getLast?_concat, List.cons_append, List.head?_cons]
  exact Prod.ext oid.symm value.symm

open Der.Lenient in
/-- an optional field in front of the extensions does not hide them -/
theorem extensionsAmong_behind {n m : Nat} {o : Option Bytes} (h : tagged (Tag.ctx n) m s = some (o, rest)) (other : n ≠ 3)
    {fs : List Element} (hfs : distinguished.Series s fs) (d : ∀ f ∈ fs, f.isDistinguished = true) :
    ∃ fs', distinguished.Series rest fs' ∧ (∀ f ∈ fs', f.isDistinguished = true) ∧
      extensionsAmong fs = extensionsAmong fs' := by
  obtain ⟨e, _, -, front, tag, -⟩ | ⟨-, rfl, -⟩ := of_tagged h
  · obtain ⟨fs', rfl, behind⟩ := hfs.front lenient_distinguished front
    refine ⟨fs', behind, fun f hf => d f (List.mem_cons_of_mem _ hf), ?_⟩
    have passed : e.tag ≠ Tag.ctx 3 := by
      rw [tag]
      exact fun same => other (Tag.mk.inj same).2
    simp only [extensionsAmong, List.find?_cons, decide_eq_false passed]
  · exact ⟨fs, hfs, d, rfl⟩

theorem extensionsAmong_eq {xs : List Extension} (hx : Lenient.extensions s = some xs) {fs : List Element}
    (hfs : distinguished.Series s fs) (d : ∀ f ∈ fs, f.isDistinguished = true) :
    extensionsAmong fs = xs.map Extension.pair := by
  obtain ⟨rfl, rfl⟩ | ⟨e, list, es, front, tag, made, inner, sequence, hes, hx⟩ := Lenient.of_extensions hx
  · cases hfs.eq_nil
    rfl
  · obtain ⟨fs', rfl, behind⟩ := hfs.front lenient_distinguished front
    obtain ⟨parts, partsD⟩ := Element.of_constructed (d e List.mem_cons_self) made
    obtain ⟨more, e₁, -⟩ := parts.front lenient_distinguished inner
    obtain ⟨series, seriesD⟩ := Element.of_composite (partsD list (e₁ ▸ List.mem_cons_self)) sequence (by decide)
    cases hes.agree lenient_distinguished series
    obtain ⟨all, rfl⟩ := of_mapM hx
    simp only [extensionsAmong, List.find?_cons, decide_eq_true tag, e₁, List.head?_cons, Option.elim_some]
    rw [List.map_filterMap]
    refine (List.filterMap_eq_map_iff_forall_eq_some.2 fun x hx => ?_).symm
    obtain ⟨y, hy⟩ := all x hx
    rw [hy, Option.map_some, extensionPair_eq (seriesD x hx) hy]

/-- what both readers have made of the fields of a signed part -/
structure FieldsRead (fs : List Element) (issuer subject : Name) (xs : List Extension) (r : Strict.Reading) : Prop where
  issuer : ∃ e, fs[2]? = some e ∧ e.isDistinguished = true ∧ NameRead e issuer r.issuer
  subject : ∃ e, fs[4]? = some e ∧ e.isDistinguished = true ∧ NameRead e subject r.subject
  extensions : extensionsAmong (fs.drop 6) = xs.map Extension.pair
  kept : r.extensions = xs.map Extension.kept
  short : ∀ x ∈ xs, x.value.length < Nat.pow 2 63

theorem signedPart_shared {a : Algorithm} {issuer subject : Name} {key : PublicKeyInfo} {xs : List Extension}
    (h : Lenient.signedPart s = some (a, issuer, subject, key, xs)) {r : Strict.Reading}
    (h' : Strict.signedPart s = some r) {fs : List Element} (hfs : distinguished.Series s fs)
    (d : ∀ f ∈ fs, f.isDistinguished = true) :
    FieldsRead (fs.dropWhile fun e => e.tag = Tag.ctx 0) issuer subject xs r := by
  simp only [Lenient.signedPart, bind, Option.bind_eq_some_iff, pure, Option.some.injEq, Prod.mk.injEq,
    Prod.exists] at h
  obtain ⟨_, s₁, version, _, s₂, number, _, s₃, algorithm, _, s₄, issuer', _, s₅, validity, _, s₆, subject', _, s₇,
    key', _, s₈, id₁, _, s₉, id₂, _, exts, rfl, rfl, rfl, rfl, rfl⟩ := h
  simp only [Strict.signedPart, bind, Option.bind_eq_some_iff, Prod.exists] at h'
  obtain ⟨_, t₁, versionS, n, t₂, numberS, h'⟩ := h'
  split at h'
  · cases h'
  simp only [Option.bind_eq_some_iff, pure, Option.some.injEq, Prod.exists] at h'
  obtain ⟨_, t₃, algorithmS, _, t₄, issuerS, _, t₅, validityS, _, t₆, subjectS, _, t₇, keyS, _, t₈, idS₁, _, t₉, idS₂,
    _, extsS, rfl⟩ := h'
  -- both readers are at the same place before every field
  cases version_shared version versionS
  obtain ⟨_, frontN, integer, -⟩ := Der.Lenient.of_basic number
  cases lenient_strictOpen.element frontN numberS
  cases Lenient.algorithm_takes.same_rest Strict.algorithm_takes lenient_strict algorithm algorithmS
  obtain ⟨rfl, i, frontI, readI⟩ := name_shared issuer' issuerS
  cases Lenient.validity_takes.same_rest Strict.validity_takes lenient_strict validity validityS
  obtain ⟨rfl, u, frontU, readU⟩ := name_shared subject' subjectS
  cases Lenient.publicKeyInfo_takes.same_rest Strict.publicKeyInfo_takes lenient_strict key' keyS
  cases uniqueId_shared id₁ idS₁
  cases uniqueId_shared id₂ idS₂
  -- and the fields are the values between these places
  have listed : ∀ f ∈ fs.dropWhile (fun e => decide (e.tag = Tag.ctx 0)), f.isDistinguished = true := fun f hf =>
    d f ((List.dropWhile_sublist _).subset hf)
  have fields := fields_behind_version version frontN integer hfs
  generalize fs.dropWhile (fun e => decide (e.tag = Tag.ctx 0)) = fields₀ at listed fields ⊢
  obtain ⟨fs₁, rfl, behindN⟩ := fields.front lenient_distinguished frontN
  obtain ⟨al, frontA⟩ := Lenient.algorithm_takes algorithm
  obtain ⟨fs₂, rfl, behindA⟩ := behindN.front lenient_distinguished frontA
  obtain ⟨fs₃, rfl, behindI⟩ := behindA.front lenient_distinguished frontI
  obtain ⟨va, frontV⟩ := Lenient.validity_takes validity
  obtain ⟨fs₄, rfl, behindV⟩ := behindI.front lenient_distinguished frontV
  obtain ⟨fs₅, rfl, behindU⟩ := behindV.front lenient_distinguished frontU
  obtain ⟨ke, frontK⟩ := Lenient.publicKeyInfo_takes key'
  obtain ⟨fs₆, rfl, behindK⟩ := behindU.front lenient_distinguished frontK
  obtain ⟨fs₇, behind₁, listed₁, same₁⟩ := extensionsAmong_behind id₁ (by decide) behindK fun f hf => listed f (by simp [hf])
  obtain ⟨fs₈, behind₂, listed₂, same₂⟩ := extensionsAmong_behind id₂ (by decide) behind₁ listed₁
  obtain ⟨kept, short⟩ := extensions_shared exts extsS
  exact
    { issuer := ⟨i, rfl, listed i (by simp), readI⟩
      subject := ⟨u, rfl, listed u (by simp), readU⟩
      extensions := same₁.trans (same₂.trans (extensionsAmong_eq exts behind₂ listed₂))
      kept
      short }

/-- what both readers have of a certificate in the distinguished form -/
theorem certificate_shared {c : Certificate} (h : Lenient.certificate s = some (c, rest)) {r : Strict.Reading}
    (h' : Strict.certificate s = some r) (d : isDistinguished s = true) :
    FieldsRead (signedFields s) c.issuer c.subject c.extensions r := by
  simp only [Lenient.certificate, bind, Option.bind_eq_some_iff, Prod.exists] at h
  obtain ⟨e, rest', whole, h⟩ := h
  split at h
  · cases h
  simp only [Option.bind_eq_some_iff, Prod.exists] at h
  obtain ⟨signed, behind, part, a, issuer, subject, key, xs, signedL, _, behind', _, h⟩ := h
  split at h <;> cases h
  simp only [Strict.certificate, bind, Option.bind_eq_some_iff, pure, Option.some.injEq, Prod.exists] at h'
  obtain ⟨contents, restS, wholeS, signed', behindS, partS, r', signedS, _, _, -, _, _, -, rfl⟩ := h'
  obtain ⟨frontW, sequence⟩ := Der.Lenient.of_field whole
  obtain ⟨_, frontW', -, rfl⟩ := Strict.of_container wholeS
  cases lenient_strict.element frontW frontW'
  obtain ⟨p, frontP, sequenceP, -, rfl⟩ := Der.Lenient.of_constructed part
  obtain ⟨_, frontP', -, rfl⟩ := Strict.of_container partS
  cases lenient_strict.element frontP frontP'
  obtain ⟨es, hes, all⟩ := isDistinguished_iff.1 d
  obtain ⟨more, rfl, -⟩ := hes.front lenient_distinguished frontW
  obtain ⟨_, frontD, -⟩ := hes.uncons
  obtain ⟨parts, partsD⟩ := Element.of_composite (all e List.mem_cons_self) sequence (by decide)
  obtain ⟨more', e', -⟩ := parts.front lenient_distinguished frontP
  obtain ⟨fields, fieldsD⟩ := Element.of_composite (partsD p (e' ▸ List.mem_cons_self)) sequenceP (by decide)
  have known : signedFields s = p.parts.dropWhile fun e => e.tag = Tag.ctx 0 := by
    simp only [signedFields, frontD, e', List.head?_cons, Option.elim_some]
  rw [known]
  exact signedPart_shared signedL signedS fields fieldsD

end Certificate
end SecureEndpoint
