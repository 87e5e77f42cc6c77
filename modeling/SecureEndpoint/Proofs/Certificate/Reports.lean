/-
What the two readers report about ordinary certificates.

A certificate in the distinguished form is ordinary if its common names are plain text and its alternative names, if it
has any, are a list of names of the usual kinds. `reports_of_ordinary` says what each reader reports about one that both
accept. The two reports are the same unless one of three things happens:
- a name has an empty part before its common name: the strict reader ends the name there (`<undef>`), the lenient one
  goes on;
- an alternative name of the kind `directoryName` has an attribute of a type that the lenient reader does not allow in
  names: it drops all alternative names, the strict one does not look inside;
- the value of an alternative name of the kind `otherName` is put together from pieces too deep for the lenient reader:
  again it drops all of them, and the strict one does not look inside.
`ordinary_reports_differ` shows one certificate for each of them.
-/
import SecureEndpoint.Proofs.Certificate.Fields
import SecureEndpoint.Pem.Section
import Mathlib

namespace SecureEndpoint.Certificate

open Der Dialect

/-! ## Text -/

/-- the text in bytes that each stand for one character -/
def asciiText (s : Bytes) : String := String.ofList (s.map fun b => Char.ofNat b.toNat)

theorem val_ofNat {n : Nat} (h : n < 128) : (Char.ofNat n).val.toNat = n := by
  have : n.isValidChar := .inl (by omega)
  simp [Char.ofNat, this, Char.ofNatAux]

theorem utf8EncodeChar_ascii {b : UInt8} (h : b < 128) : String.utf8EncodeChar (Char.ofNat b.toNat) = [b] := by
  have small : b.toNat < 128 := UInt8.lt_iff_toNat_lt.1 h
  have value := val_ofNat small
  have one : (Char.ofNat b.toNat).utf8Size = 1 := by
    rw [Char.utf8Size, if_pos]
    exact UInt32.le_iff_toNat_le.2 (by rw [value]; show b.toNat ≤ 127; omega)
  rw [String.utf8EncodeChar_eq_singleton one]
  refine congrArg (fun b => [b]) (UInt8.toNat_inj.1 ?_)
  rw [UInt32.toNat_toUInt8, value]
  omega

theorem utf8Encode_ascii {s : Bytes} (h : ∀ b ∈ s, b < 128) :
    (s.map fun b => Char.ofNat b.toNat).utf8Encode = ⟨s.toArray⟩ := by
  have each : (s.map fun b => Char.ofNat b.toNat).flatMap String.utf8EncodeChar = s := by
    induction s with
    | nil => rfl
    | cons b s ih =>
      obtain ⟨hb, hs⟩ := List.forall_mem_cons.1 h
      rw [List.map_cons, List.flatMap_cons, utf8EncodeChar_ascii hb, ih hs]
      rfl
  rw [List.utf8Encode, each]
  exact ByteArray.ext List.data_toByteArray

theorem text?_ascii {s : Bytes} (h : ∀ b ∈ s, b < 128) : Strict.text? s = some (asciiText s) := by
  rw [Strict.text?, ← utf8Encode_ascii h, String.fromUTF8?, dif_pos ByteArray.isValidUTF8_utf8Encode]
  refine congrArg some (String.toByteArray_inj.1 ?_)
  rw [asciiText, String.toByteArray_ofList]
  rfl

/-- a byte that stands for one character, and not for NUL -/
def isAscii (b : UInt8) : Bool := 0 < b && b < 128

theorem isAscii_iff {b : UInt8} : isAscii b = true ↔ 0 < b.toNat ∧ b.toNat < 128 := by
  simp only [isAscii, Bool.and_eq_true, decide_eq_true_eq, UInt8.lt_iff_toNat_lt]
  rfl

theorem lt_of_isAscii {s : Bytes} (h : s.all isAscii = true) : ∀ b ∈ s, b < 128 := fun b hb =>
  UInt8.lt_iff_toNat_lt.2 (isAscii_iff.1 (List.all_eq_true.1 h b hb)).2

theorem nul_not_mem_asciiText {s : Bytes} (h : s.all isAscii = true) : '\x00' ∉ (asciiText s).toList := by
  rw [asciiText, String.toList_ofList, List.mem_map]
  rintro ⟨b, hb, nul⟩
  obtain ⟨pos, small⟩ := isAscii_iff.1 (List.all_eq_true.1 h b hb)
  have := val_ofNat small
  rw [nul] at this
  exact absurd this.symm (Nat.pos_iff_ne_zero.1 pos)

/-! ## Names -/

/-- an attribute of a name: the contents of its type, and its value -/
def typeAndValue (a : Element) : Bytes × Element :=
  match a.parts with
  | [type, value] => (type.contents, value)
  | _ => ([], a)

/-- the attributes of a name, part by part -/
def nameParts (name : Element) : List (List (Bytes × Element)) := name.parts.map fun p => p.parts.map typeAndValue

/-- the value of the first common name -/
def firstCommonName? (parts : List (List (Bytes × Element))) : Option Element :=
  (parts.flatten.find? fun a => a.1 = commonNameOid).map Prod.snd

/-- the first common name as it is reported -/
def reportedName (parts : List (List (Bytes × Element))) : String :=
  match firstCommonName? parts with
  | none => undefinedName
  | some value => (Strict.text? value.contents).getD undefinedName

namespace Lenient

/-- what the lenient reader keeps of an attribute -/
def keptAttribute (a : Bytes × Element) : Attribute :=
  ⟨a.1, a.2.header.number, (Der.Lenient.contentsAs a.2.header.number a.2).getD []⟩

end Lenient

namespace Strict

/-- what the strict reader keeps of an attribute -/
def keptAttribute (a : Bytes × Element) : NameValue := ⟨a.1, a.2.header.number, a.2.contents⟩

/-- reading a series of values one by one, up to the first that `p` does not allow -/
theorem many_series {α : Type} {f : Bytes → Option (α × Bytes)} {k : Element → α} {p : Element → Bool}
    (nothing : f [] = none) {s : Bytes} {es : List Element} (h : strict.Series s es)
    (each : ∀ e ∈ es, ∀ {s rest}, strict.element s = some (e, rest) →
      f s = if p e then some (k e, rest) else none) :
    (many f s).1 = (es.takeWhile p).map k ∧ (es.all p = true → (many f s).2 = []) := by
  induction h with
  | nil => rw [many_none nothing]; exact ⟨rfl, fun _ => rfl⟩
  | @cons s rest e es front _ ih =>
    obtain ⟨first, others⟩ := List.forall_mem_cons.1 each
    obtain ⟨taken, left⟩ := ih others
    have reads := first front
    by_cases allowed : p e = true
    · rw [if_pos allowed] at reads
      rw [many_some reads (element_length front), List.takeWhile_cons_of_pos allowed, taken, List.all_cons, allowed]
      exact ⟨rfl, left⟩
    · rw [if_neg allowed] at reads
      rw [many_none reads, List.takeWhile_cons_of_neg allowed, List.all_cons]
      exact ⟨rfl, fun all => absurd (Bool.and_eq_true_iff.1 all).1 allowed⟩

end Strict

/-- both readers keep this attribute of a name -/
structure AttributeKept (a : Element) : Prop where
  number : a.header.number = 16
  value : (typeAndValue a).2.isDistinguished = true
  byLenient : Lenient.nameAttribute a = some (Lenient.keptAttribute (typeAndValue a))
  byStrict : ∀ {s rest}, strict.element s = some (a, rest) →
    Strict.nameValue s = some (Strict.keptAttribute (typeAndValue a), rest)

/-- both readers keep this part of a name, but the strict one only if it is not empty -/
structure PartKept (p : Element) : Prop where
  number : p.header.number = 17
  values : ∀ a ∈ p.parts.map typeAndValue, a.2.isDistinguished = true
  byLenient : Lenient.attributeSet p = some ((p.parts.map typeAndValue).map Lenient.keptAttribute)
  byStrict : ∀ {s rest}, strict.element s = some (p, rest) → Strict.namePart s =
    if p.parts.map typeAndValue ≠ [] then some ((p.parts.map typeAndValue).map Strict.keptAttribute, rest) else none

theorem attribute_kept {e : Element} (d : e.isDistinguished = true) (short : e.contents.length < Nat.pow 2 63)
    {a : Attribute} (h : Lenient.nameAttribute e = some a) : AttributeKept e := by
  have read := h
  simp only [Lenient.nameAttribute] at h
  split at h
  · cases h
  rename_i framed
  simp only [not_or, Decidable.not_not] at framed
  obtain ⟨-, number⟩ := Tag.mk.inj framed.1
  split at h
  · cases h
  rename_i oid more hoid
  split at h <;> cases h
  rename_i type value hvalue
  obtain ⟨o, fronto, tago, ho⟩ := Der.Lenient.of_basic hoid
  obtain ⟨simple, rfl⟩ := Der.Lenient.contentsAs_atomic rfl ho
  obtain ⟨v, frontv, tagv, known, hv⟩ := Der.Lenient.of_oneOf hvalue
  obtain ⟨-, numbero⟩ := Tag.mk.inj tago
  obtain ⟨-, numberv⟩ := Tag.mk.inj tagv
  -- in the distinguished form the type and the value are all there is
  obtain ⟨series, parts⟩ := Element.of_composite d framed.1 (by decide)
  obtain ⟨more₁, e₁, behindO⟩ := series.front lenient_distinguished fronto
  obtain ⟨more₂, rfl, behindV⟩ := behindO.front lenient_distinguished frontv
  cases behindV.eq_nil
  have pair : typeAndValue e = (o.contents, v) := by simp only [typeAndValue, e₁]
  have kept : Lenient.keptAttribute (typeAndValue e) = ⟨o.contents, type, value⟩ := by
    simp only [pair, Lenient.keptAttribute, numberv, hv, Option.getD_some]
  refine ⟨number, ?_, by rw [read, kept], fun {s rest} front => ?_⟩
  · rw [pair]
    exact parts v (by simp [e₁])
  · have low : type < 31 := by
      simp only [Lenient.attributeTypes, List.mem_cons, List.not_mem_nil, or_false] at known
      omega
    rw [e₁] at series
    obtain ⟨more, readO, behind⟩ := (series.covered strict_covers short (by simp [numbero, numberv, low])).uncons
    obtain ⟨_, readV, -⟩ := behind.uncons
    rw [pair]
    simp only [Strict.nameValue, Strict.container_of front number, Strict.plain_of readO numbero simple, readV]
    rfl

theorem part_kept {e : Element} (d : e.isDistinguished = true) (short : e.contents.length < Nat.pow 2 63)
    {attributes : List Attribute} (h : Lenient.attributeSet e = some attributes) : PartKept e := by
  have whole := h
  simp only [Lenient.attributeSet] at h
  split at h
  case isFalse => cases h
  rename_i tag
  obtain ⟨-, number⟩ := Tag.mk.inj tag
  obtain ⟨es, hes, read⟩ := Der.Lenient.of_listOf h
  obtain ⟨series, parts⟩ := Element.of_composite d tag (by decide)
  cases hes.agree lenient_distinguished series
  obtain ⟨all, same⟩ := of_mapM read
  have kept : ∀ a ∈ e.parts, AttributeKept a := by
    intro a ha
    obtain ⟨b, hb⟩ := all a ha
    exact attribute_kept (parts a ha) (Nat.lt_trans (series.contents_length ha) short) hb
  refine ⟨number, ?_, ?_, fun {s rest} front => ?_⟩
  · simpa using fun a ha => (kept a ha).value
  · rw [whole, same, List.map_map, List.filterMap_eq_map_iff_forall_eq_some.2 fun a ha => (kept a ha).byLenient]
    rfl
  · have low : ∀ a ∈ e.parts, a.header.number < 31 := fun a ha => by rw [(kept a ha).number]; decide
    obtain ⟨values, -⟩ := Strict.many_series (f := Strict.nameValue) (p := fun _ => true) rfl
      (series.covered strict_covers short low) fun a ha {_ _} front => (kept a ha).byStrict front
    rw [List.takeWhile_eq_self_iff.2 (fun _ _ => rfl)] at values
    obtain ⟨vs, left, read⟩ : ∃ vs left, Strict.many Strict.nameValue e.contents = (vs, left) := ⟨_, _, rfl⟩
    rw [read] at values
    cases values
    simp only [Strict.namePart, Strict.container_of front number, List.map_map, read]
    cases e.parts <;> rfl

/-- both readers keep the attributes of a name, the strict one up to the first empty part -/
theorem names_kept {e : Element} {n : Name} {vs : List Strict.NameValue} (h : NameRead e n vs)
    (d : e.isDistinguished = true) : n = (nameParts e).flatten.map Lenient.keptAttribute ∧
      vs = ((nameParts e).takeWhile (· ≠ [])).flatten.map Strict.keptAttribute ∧
      ∀ a ∈ (nameParts e).flatten, a.2.isDistinguished = true := by
  obtain ⟨sets, hsets, rfl⟩ := h.lenient
  obtain ⟨es, hes, read⟩ := Der.Lenient.of_listOf hsets
  obtain ⟨series, parts⟩ := Element.of_composite d h.tag (by decide)
  cases hes.agree lenient_distinguished series
  obtain ⟨all, rfl⟩ := of_mapM read
  have kept : ∀ p ∈ e.parts, PartKept p := by
    intro p hp
    obtain ⟨b, hb⟩ := all p hp
    exact part_kept (parts p hp) (Nat.lt_trans (series.contents_length hp) h.short) hb
  have low : ∀ p ∈ e.parts, p.header.number < 31 := fun p hp => by rw [(kept p hp).number]; decide
  refine ⟨?_, ?_, ?_⟩
  · rw [List.filterMap_eq_map_iff_forall_eq_some.2 fun p hp => (kept p hp).byLenient, nameParts, List.map_flatten,
      List.map_map]
    rfl
  · obtain ⟨values, -⟩ := Strict.many_series (f := Strict.namePart)
      (k := fun p => (p.parts.map typeAndValue).map Strict.keptAttribute)
      (p := fun p => decide (p.parts.map typeAndValue ≠ [])) rfl (series.covered strict_covers h.short low)
      fun p hp {_ _} front => ((kept p hp).byStrict front).trans (by simp only [decide_eq_true_eq])
    rw [h.strict, values, nameParts, List.takeWhile_map, List.map_flatten, List.map_map]
    rfl
  · simp only [nameParts, List.mem_flatten, List.mem_map]
    rintro a ⟨_, ⟨p, hp, rfl⟩, ha⟩
    exact (kept p hp).values a ha

/-! ## Common names -/

/-- a common name that both readers can show: text in UTF-8 without NUL, or printable characters -/
def isPlainText (value : Element) : Bool :=
  (value.tag = Tag.std utf8StringTag && (Strict.text? value.contents).any fun t => !t.toList.contains '\x00') ||
    (value.tag = Tag.std printableStringTag && value.contents.all isAscii)

theorem plainText_shown {a : Bytes × Element} (d : a.2.isDistinguished = true) (plain : isPlainText a.2 = true) :
    ∃ text, Strict.text? a.2.contents = some text ∧ '\x00' ∉ text.toList ∧
      textOf (Lenient.keptAttribute a).textType (Lenient.keptAttribute a).value = some text.toList ∧
      Strict.nameTypes.contains a.2.header.number = true := by
  have kept : ∀ {n}, a.2.tag = Tag.std n → n ∉ compositeTypes → Der.Lenient.hasForm n a.2.contents = true →
      Lenient.keptAttribute a = ⟨a.1, n, a.2.contents⟩ := by
    intro n tag simple form
    obtain ⟨-, number⟩ := Tag.mk.inj tag
    have whole := Element.of_simple d tag simple
    simp only [Lenient.keptAttribute, number, Der.Lenient.contentsAs_plain whole simple, form, if_true,
      Option.getD_some]
  simp only [isPlainText, Bool.or_eq_true, Bool.and_eq_true, decide_eq_true_eq, Option.any_eq_true,
    Bool.not_eq_true', List.contains_eq_mem, decide_eq_false_iff_not] at plain
  rcases plain with ⟨tag, text, read, free⟩ | ⟨tag, ascii⟩
  · obtain ⟨-, number⟩ := Tag.mk.inj tag
    refine ⟨text, read, free, ?_, by rw [number]; rfl⟩
    rw [kept tag (by decide) rfl]
    exact congrArg (Option.map String.toList) read
  · obtain ⟨-, number⟩ := Tag.mk.inj tag
    refine ⟨_, text?_ascii (lt_of_isAscii ascii), nul_not_mem_asciiText ascii, ?_, by rw [number]; rfl⟩
    rw [kept tag (by decide) rfl, asciiText, String.toList_ofList]
    rfl

theorem commonName_reported {parts : List (List (Bytes × Element))}
    (all : ∀ a ∈ parts.flatten, a.2.isDistinguished = true)
    (plain : ∀ value, firstCommonName? parts = some value → isPlainText value = true) :
    Lenient.commonName (parts.flatten.map Lenient.keptAttribute) = reportedName parts ∧
    Strict.commonName (parts.flatten.map Strict.keptAttribute) = reportedName parts := by
  have lenientFind : (parts.flatten.map Lenient.keptAttribute).find? (fun a => a.oid = commonNameOid) =
      (parts.flatten.find? fun a => a.1 = commonNameOid).map Lenient.keptAttribute := List.find?_map
  have strictFind : (parts.flatten.map Strict.keptAttribute).find? (fun a => a.oid = commonNameOid) =
      (parts.flatten.find? fun a => a.1 = commonNameOid).map Strict.keptAttribute := List.find?_map
  simp only [Lenient.commonName, Strict.commonName, lenientFind, strictFind, reportedName, firstCommonName?]
  cases found : parts.flatten.find? fun a => a.1 = commonNameOid with
  | none => exact ⟨rfl, rfl⟩
  | some a =>
    obtain ⟨text, read, free, lenientText, known⟩ := plainText_shown (all a (List.mem_of_find?_eq_some found))
      (plain a.2 (by rw [firstCommonName?, found]; rfl))
    have whole : text.toList.takeWhile (· ≠ '\x00') = text.toList :=
      List.takeWhile_eq_self_iff.2 fun c hc => decide_eq_true fun same => free (same ▸ hc)
    constructor
    · simp only [Option.map_some, lenientText, whole, String.ofList_toList, read, Option.getD_some]
    · simp only [Option.map_some, Strict.keptAttribute, known, if_true]

/-! ## Alternative names -/

/-- the type of another name, and its value under a tag of its own -/
def isOtherName : List Element → Bool
  | [type, value] => type.tag = Tag.objectId && !type.header.constructed && Der.Lenient.isObjectId type.contents &&
      value.tag = Tag.ctx 0 && value.header.constructed && value.parts.length = 1
  | _ => false

/-- the name of an entry of a directory -/
def isDirectoryName : List Element → Bool
  | [name] => name.tag = Tag.sequence
  | _ => false

/-- an alternative name of one of the usual kinds: `otherName`, `rfc822Name`, `dNSName`, `directoryName`,
`uniformResourceIdentifier`, `iPAddress` of any length, or `registeredID` -/
def isAlternativeName (e : Element) : Bool :=
  e.header.tagClass = .context && match e.header.number with
    | 0 => e.header.constructed && isOtherName e.parts
    | 4 => e.header.constructed && isDirectoryName e.parts
    | 1 | 2 | 6 => !e.header.constructed && e.contents.all isAscii
    | 7 => !e.header.constructed
    | 8 => !e.header.constructed && Der.Lenient.isObjectId e.contents
    | _ => false

/-- the entry of an alternative name in a report: hosts, and addresses of four or sixteen bytes -/
def reported? (e : Element) : Option String :=
  match e.header.number with
  | 2 => some (hostEntry (asciiText e.contents))
  | 7 => entryOfAddress? e.contents
  | _ => none

/-- what the strict reader makes of an alternative name -/
def Strict.kind (e : Element) : Strict.AlternativeName :=
  match e.header.number with
  | 2 => .host (asciiText e.contents)
  | 7 => .address e.contents
  | _ => .other

theorem Strict.entryOf?_kind (e : Element) : Strict.entryOf? (Strict.kind e) = reported? e := by
  simp only [Strict.kind, reported?]
  split <;> rfl

/-- the kinds of alternative names, and what each of them guarantees -/
theorem alternativeName_cases {e : Element} (h : isAlternativeName e = true) : e.header.tagClass = .context ∧
    ((e.header.number = 0 ∧ e.header.constructed = true ∧ isOtherName e.parts = true) ∨
      (e.header.number = 4 ∧ e.header.constructed = true ∧ isDirectoryName e.parts = true) ∨
      ((e.header.number = 1 ∨ e.header.number = 2 ∨ e.header.number = 6) ∧ e.header.constructed = false ∧
        e.contents.all isAscii = true) ∨
      (e.header.number = 7 ∧ e.header.constructed = false) ∨
      (e.header.number = 8 ∧ e.header.constructed = false ∧ Der.Lenient.isObjectId e.contents = true)) := by
  simp only [isAlternativeName, Bool.and_eq_true, decide_eq_true_eq] at h
  refine ⟨h.1, ?_⟩
  replace h := h.2
  split at h <;> simp_all

/-- a value that is made of others has them in the distinguished form -/
theorem series_of_parts {e p : Element} {ps : List Element} (h : e.parts = p :: ps) :
    distinguished.Series e.contents (p :: ps) := by
  cases hes : distinguished.elements e.contents with
  | none => rw [Element.parts, hes] at h; cases h
  | some es =>
    rw [Element.parts, hes] at h
    cases h
    exact elements_eq_some.1 hes

theorem isOtherName_cases {ps : List Element} (h : isOtherName ps = true) :
    ∃ type value, ps = [type, value] ∧ type.tag = Tag.objectId ∧ type.header.constructed = false := by
  simp only [isOtherName] at h
  split at h
  · rename_i type value
    simp only [Bool.and_eq_true, decide_eq_true_eq, Bool.not_eq_true'] at h
    obtain ⟨⟨⟨⟨⟨tag, whole⟩, -⟩, -⟩, -⟩, -⟩ := h
    exact ⟨type, value, rfl, tag, whole⟩
  · cases h

theorem isDirectoryName_cases {ps : List Element} (h : isDirectoryName ps = true) :
    ∃ name, ps = [name] ∧ name.tag = Tag.sequence := by
  simp only [isDirectoryName] at h
  split at h
  · rename_i name
    exact ⟨name, rfl, of_decide_eq_true h⟩
  · cases h

theorem Strict.alternativeName_eq {e : Element} (h : isAlternativeName e = true)
    (short : e.contents.length < Nat.pow 2 63) {s rest : Bytes} (front : strict.element s = some (e, rest)) :
    Strict.alternativeName s = some (Strict.kind e, rest) := by
  obtain ⟨context, kinds⟩ := alternativeName_cases h
  simp only [alternativeName, front, bind, Option.bind_some, context, ne_eq, not_true_eq_false, if_false]
  rcases kinds with ⟨number, -, other⟩ | ⟨number, -, directory⟩ | ⟨number | number | number, -, ascii⟩ | ⟨number, -⟩ |
    ⟨number, -⟩
  all_goals simp only [number, kind]
  · obtain ⟨type, value, ps, tag, whole⟩ := isOtherName_cases other
    obtain ⟨-, six⟩ := Tag.mk.inj tag
    obtain ⟨_, first, -⟩ := (series_of_parts ps).uncons
    rw [plain_of (strict_covers.element first short (by rw [six]; decide)) six whole]
    rfl
  · obtain ⟨name, ps, tag⟩ := isDirectoryName_cases directory
    obtain ⟨-, sixteen⟩ := Tag.mk.inj tag
    obtain ⟨_, first, behind⟩ := (series_of_parts ps).uncons
    cases behind
    simp only [Strict.name, container_of (strict_covers.element first short (by rw [sixteen]; decide)) sixteen]
    rfl
  all_goals try rw [text?_ascii (lt_of_isAscii ascii)]
  all_goals rfl

namespace Lenient

open Der.Lenient

theorem contentsAs_formed {n : Nat} {e : Element} (whole : e.header.constructed = false) (simple : n ∉ compositeTypes)
    (form : hasForm n e.contents = true) : contentsAs n e = some e.contents := by
  rw [contentsAs_plain whole simple, if_pos form]

/-- what the lenient reader makes of an alternative name gives the entry, if it can read the name at all -/
theorem entryOf?_alternativeName {e : Element} (h : isAlternativeName e = true) {a : AlternativeName}
    (read : alternativeName e = some a) : entryOf? a = reported? e := by
  obtain ⟨context, kinds⟩ := alternativeName_cases h
  simp only [alternativeName, context, ne_eq, not_true_eq_false, if_false] at read
  rcases kinds with ⟨number, made, -⟩ | ⟨number, made, -⟩ | ⟨number | number | number, whole, ascii⟩ | ⟨number, whole⟩ |
    ⟨number, whole, -⟩
  all_goals simp only [number] at read
  all_goals simp only [reported?, number]
  · rw [if_pos made] at read
    obtain ⟨_, -, rfl⟩ := Option.map_eq_some_iff.1 read
    rfl
  · simp only [made, Bool.not_true, Bool.false_eq_true, if_false] at read
    split at read <;> cases read
    rfl
  · obtain ⟨_, -, rfl⟩ := Option.map_eq_some_iff.1 read
    rfl
  · rw [contentsAs_formed whole (by decide) rfl] at read
    cases read
    rw [entryOf?, text?_ascii (lt_of_isAscii ascii)]
    rfl
  · obtain ⟨_, -, rfl⟩ := Option.map_eq_some_iff.1 read
    rfl
  · rw [contentsAs_formed whole (by decide) rfl] at read
    cases read
    rfl
  · obtain ⟨_, -, rfl⟩ := Option.map_eq_some_iff.1 read
    rfl

/-- it can, apart from other names and names of entries of a directory -/
theorem alternativeName_isSome {e : Element} (h : isAlternativeName e = true) (other : e.header.number ≠ 0)
    (directory : e.header.number ≠ 4) : (alternativeName e).isSome = true := by
  obtain ⟨context, kinds⟩ := alternativeName_cases h
  simp only [alternativeName, context, ne_eq, not_true_eq_false, if_false]
  rcases kinds with ⟨number, -⟩ | ⟨number, -⟩ | ⟨number | number | number, whole, -⟩ | ⟨number, whole⟩ |
    ⟨number, whole, form⟩
  · exact absurd number other
  · exact absurd number directory
  all_goals simp only [number]
  · rw [contentsAs_formed whole (by decide) rfl]
    rfl
  · rw [contentsAs_formed whole (by decide) rfl]
    rfl
  · rw [contentsAs_formed whole (by decide) rfl]
    rfl
  · rw [contentsAs_formed whole (by decide) rfl]
    rfl
  · rw [contentsAs_formed (n := 6) whole (by decide) form]
    rfl

end Lenient

/-- the values in the contents of an extension with alternative names -/
def listedNames (value : Bytes) : List Element :=
  match distinguished.element value with
  | none => []
  | some (list, _) => list.parts

/-- the bytes are a list of alternative names of the usual kinds -/
def isAlternativesList (value : Bytes) : Bool :=
  match distinguished.element value with
  | some (list, []) => list.tag = Tag.sequence && list.header.constructed && !list.parts.isEmpty &&
      list.parts.all isAlternativeName
  | _ => false

theorem alternativesList_read {value : Bytes} (h : isAlternativesList value = true)
    (short : value.length < Nat.pow 2 63) : (∀ e ∈ listedNames value, isAlternativeName e = true) ∧
      Lenient.alternativeNames value = (listedNames value).mapM Lenient.alternativeName ∧
      Strict.alternativeNames value = some ((listedNames value).map Strict.kind) := by
  simp only [isAlternativesList] at h
  split at h
  case h_2 => cases h
  rename_i list front
  simp only [Bool.and_eq_true, decide_eq_true_eq, Bool.not_eq_true', List.isEmpty_eq_false_iff, List.all_eq_true] at h
  obtain ⟨⟨⟨tag, -⟩, some_⟩, all⟩ := h
  obtain ⟨-, sixteen⟩ := Tag.mk.inj tag
  have low : list.header.number < 31 := by rw [sixteen]; decide
  obtain ⟨p, ps, parts⟩ := List.exists_cons_of_ne_nil some_
  have series := series_of_parts parts
  have contents := Dialect.contents_length front
  have kinds : ∀ e ∈ list.parts, e.header.number < 31 := by
    intro e he
    obtain ⟨-, kinds⟩ := alternativeName_cases (all e he)
    omega
  have listed : listedNames value = list.parts := by rw [listedNames, front]
  rw [listed]
  rw [← parts] at series
  refine ⟨all, ?_, ?_⟩
  · have frontL := lenient_covers.element front short low
    have seriesL := series.covered lenient_covers (by omega) kinds
    simp only [Lenient.alternativeNames, Der.Lenient.field, frontL, tag, if_true, Der.Lenient.listOf,
      elements_eq_some.2 seriesL]
  · have frontS := strict_covers.element front short low
    have seriesS := series.covered strict_covers (by omega) kinds
    obtain ⟨names, left⟩ := Strict.many_series (f := Strict.alternativeName) (p := fun _ => true) rfl seriesS
      fun e he {_ _} front => Strict.alternativeName_eq (all e he)
        (by have := series.contents_length he; omega) front
    rw [List.takeWhile_eq_self_iff.2 fun _ _ => rfl] at names
    have read : Strict.many Strict.alternativeName list.contents = (list.parts.map Strict.kind, []) :=
      Prod.ext names (left (List.all_eq_true.2 fun _ _ => rfl))
    simp only [Strict.alternativeNames, Strict.container_of frontS sixteen, read]

/-! ## Reports -/

/-- the attributes of the subject, part by part -/
def subjectParts (s : Bytes) : List (List (Bytes × Element)) := (signedFields s)[4]?.elim [] nameParts

/-- the attributes of the issuer, part by part -/
def issuerParts (s : Bytes) : List (List (Bytes × Element)) := (signedFields s)[2]?.elim [] nameParts

/-- the values of the extensions with alternative names -/
def alternativesValues (s : Bytes) : List Bytes :=
  ((extensionsAmong ((signedFields s).drop 6)).filter fun x => x.1 = alternativeNamesOid).map Prod.snd

/-- the alternative names of a certificate -/
def alternatives (s : Bytes) : List Element := (alternativesValues s).flatMap listedNames

/-- the alternative names are left out, or listed once -/
def hasPlainAlternatives (s : Bytes) : Bool :=
  match alternativesValues s with
  | [] => true
  | [value] => isAlternativesList value
  | _ => false

/-- an ordinary certificate -/
structure IsOrdinary (s : Bytes) : Prop where
  distinguished : isDistinguished s = true
  subject : (firstCommonName? (subjectParts s)).all isPlainText = true
  issuer : (firstCommonName? (issuerParts s)).all isPlainText = true
  alternatives : hasPlainAlternatives s = true

instance (s : Bytes) : Decidable (IsOrdinary s) :=
  decidable_of_iff (isDistinguished s = true ∧ (firstCommonName? (subjectParts s)).all isPlainText = true ∧
      (firstCommonName? (issuerParts s)).all isPlainText = true ∧ hasPlainAlternatives s = true)
    ⟨fun ⟨h₁, h₂, h₃, h₄⟩ => ⟨h₁, h₂, h₃, h₄⟩, fun ⟨h₁, h₂, h₃, h₄⟩ => ⟨h₁, h₂, h₃, h₄⟩⟩

theorem alternatives_reported {s : Bytes} {c : Certificate} {r : Strict.Reading}
    (read : FieldsRead (signedFields s) c.issuer c.subject c.extensions r) (plain : hasPlainAlternatives s = true) :
    (Lenient.names c).filterMap Lenient.entryOf? =
        (if (alternatives s).all (fun e => (Lenient.alternativeName e).isSome) then
          (alternatives s).filterMap reported? else []) ∧
      (Strict.names r).filterMap Strict.entryOf? = (alternatives s).filterMap reported? ∧
      ∀ e ∈ alternatives s, isAlternativeName e = true := by
  have values : alternativesValues s =
      (c.extensions.filter fun x => x.oid = alternativeNamesOid).map Extension.value := by
    rw [alternativesValues, read.extensions, List.filter_map, List.map_map]
    rfl
  have kept : (r.extensions.filter fun x => x.oid = alternativeNamesOid) =
      (c.extensions.filter fun x => x.oid = alternativeNamesOid).map Extension.kept := by
    rw [read.kept, List.filter_map]
    rfl
  simp only [Lenient.names, Strict.names, kept]
  simp only [hasPlainAlternatives] at plain
  split at plain
  · rename_i nothing
    have empty : alternatives s = [] := by rw [alternatives, nothing]; rfl
    rw [nothing] at values
    rw [empty, List.map_eq_nil_iff.1 values.symm]
    exact ⟨rfl, rfl, fun e he => by cases he⟩
  · rename_i value one
    have listed : alternatives s = listedNames value := by
      rw [alternatives, one, List.flatMap_cons, List.flatMap_nil, List.append_nil]
    rw [one] at values
    obtain ⟨x, found, rfl⟩ := List.map_eq_singleton_iff.1 values.symm
    have short := read.short x (List.mem_of_mem_filter (found ▸ List.mem_singleton_self x))
    obtain ⟨all, lenientNames, strictNames⟩ := alternativesList_read plain short
    rw [listed, found]
    refine ⟨?_, ?_, all⟩
    · simp only [single?, lenientNames, mapM_option]
      split
      · rename_i readable
        rw [Option.getD_some, List.filterMap_filterMap]
        refine List.filterMap_congr fun e he => ?_
        obtain ⟨a, ha⟩ := Option.isSome_iff_exists.1 (List.all_eq_true.1 readable e he)
        rw [ha, Option.bind_some, Lenient.entryOf?_alternativeName (all e he) ha]
      · rfl
    · simp only [List.map_cons, List.map_nil, single?, Extension.kept, strictNames]
      rw [Option.getD_some, List.filterMap_map]
      exact List.filterMap_congr fun e _ => Strict.entryOf?_kind e
  · cases plain

/-- what a name reports does not change if it is cut behind its common name -/
theorem firstCommonName?_of_take {parts : List (List (Bytes × Element))} {p : List (Bytes × Element) → Bool}
    {value : Element} (h : firstCommonName? (parts.takeWhile p) = some value) :
    firstCommonName? parts = some value := by
  obtain ⟨a, found, rfl⟩ := Option.map_eq_some_iff.1 h
  have split_ : parts.flatten = (parts.takeWhile p).flatten ++ (parts.dropWhile p).flatten := by
    rw [← List.flatten_append, List.takeWhile_append_dropWhile]
  rw [firstCommonName?, split_, List.find?_append, found]
  rfl

theorem names_reported {e : Element} {n : Name} {vs : List Strict.NameValue} (d : e.isDistinguished = true)
    (read : NameRead e n vs) (plain : (firstCommonName? (nameParts e)).all isPlainText = true) :
    Lenient.commonName n = reportedName (nameParts e) ∧
      Strict.commonName vs = reportedName ((nameParts e).takeWhile (· ≠ [])) := by
  obtain ⟨rfl, rfl, all⟩ := names_kept read d
  have plain : ∀ value, firstCommonName? (nameParts e) = some value → isPlainText value = true := by
    intro value h
    rwa [h] at plain
  refine ⟨(commonName_reported all plain).1, (commonName_reported (fun a ha => all a ?_) fun value h =>
    plain value (firstCommonName?_of_take h)).2⟩
  obtain ⟨p, hp, ha⟩ := List.mem_flatten.1 ha
  exact List.mem_flatten.2 ⟨p, (List.takeWhile_sublist _).subset hp, ha⟩

/-- **The reports about an ordinary certificate.** Of a certificate in the distinguished form that both readers accept,
with plain common names and alternative names of the usual kinds, the lenient reader reports the first common names, and
the hosts and addresses in their order if it can read every alternative name, else none of them. The strict reader
reports the first common names in front of any empty part, and the hosts and addresses in their order. So the reports
are equal if no name has an empty part and the lenient reader can read the alternative names of two kinds, other names
and names of entries of a directory. -/
theorem reports_of_ordinary {s rest : Bytes} {c : Certificate} {r : Strict.Reading}
    (lenient : Lenient.certificate s = some (c, rest)) (strict : Strict.certificate s = some r)
    (ordinary : IsOrdinary s) :
    CertInfo.ofCertificate c =
        { subject := reportedName (subjectParts s)
          issuer := reportedName (issuerParts s)
          alternativeNames :=
            if (alternatives s).all (fun e => (Lenient.alternativeName e).isSome) then
              (alternatives s).filterMap reported?
            else [] } ∧
      CertInfo.ofDer? s = some
        { subject := reportedName ((subjectParts s).takeWhile (· ≠ []))
          issuer := reportedName ((issuerParts s).takeWhile (· ≠ []))
          alternativeNames := (alternatives s).filterMap reported? } ∧
      ((∀ p ∈ subjectParts s, p ≠ []) → (∀ p ∈ issuerParts s, p ≠ []) →
        (∀ e ∈ alternatives s, e.header.number = 0 ∨ e.header.number = 4 → (Lenient.alternativeName e).isSome = true) →
        CertInfo.ofDer? s = some (CertInfo.ofCertificate c)) := by
  have read := certificate_shared lenient strict ordinary.distinguished
  obtain ⟨i, hi, di, readI⟩ := read.issuer
  obtain ⟨u, hu, du, readU⟩ := read.subject
  have issuer := ordinary.issuer
  have subject := ordinary.subject
  have ei : issuerParts s = nameParts i := by rw [issuerParts, hi]; rfl
  have eu : subjectParts s = nameParts u := by rw [subjectParts, hu]; rfl
  rw [ei] at issuer ⊢
  rw [eu] at subject ⊢
  obtain ⟨issuerL, issuerS⟩ := names_reported di readI issuer
  obtain ⟨subjectL, subjectS⟩ := names_reported du readU subject
  obtain ⟨entriesL, entriesS, usual⟩ := alternatives_reported read ordinary.alternatives
  have byLenient : CertInfo.ofCertificate c = CertInfo.mk (reportedName (nameParts u)) (reportedName (nameParts i))
      (if (alternatives s).all (fun e => (Lenient.alternativeName e).isSome) then
        (alternatives s).filterMap reported? else []) := by
    rw [CertInfo.ofCertificate, subjectL, issuerL, entriesL]
  have byStrict : CertInfo.ofDer? s = some (CertInfo.mk (reportedName ((nameParts u).takeWhile (· ≠ [])))
      (reportedName ((nameParts i).takeWhile (· ≠ []))) ((alternatives s).filterMap reported?)) := by
    rw [CertInfo.ofDer?, strict, Option.map_some, subjectS, issuerS, entriesS]
  refine ⟨byLenient, byStrict, fun filledU filledI readable => ?_⟩
  have all : (alternatives s).all (fun e => (Lenient.alternativeName e).isSome) = true := by
    refine List.all_eq_true.2 fun e he => ?_
    by_cases special : e.header.number = 0 ∨ e.header.number = 4
    · exact readable e he special
    · exact Lenient.alternativeName_isSome (usual e he) (fun h => special (.inl h)) fun h => special (.inr h)
  rw [byLenient, byStrict, if_pos all, List.takeWhile_eq_self_iff.2 fun p hp => decide_eq_true (filledU p hp),
    List.takeWhile_eq_self_iff.2 fun p hp => decide_eq_true (filledI p hp)]

/-! ## Examples of certificates -/

/-- an encoded value -/
def encoded (tag : UInt8) (contents : Bytes) : Bytes :=
  let n := contents.length
  tag :: ((if n < 128 then [UInt8.ofNat n] else if n < 256 then [0x81, UInt8.ofNat n]
    else [0x82, UInt8.ofNat (n / 256), UInt8.ofNat n]) ++ contents)

/-- an attribute of a name -/
def attributeEncoded (type value : Bytes) : Bytes := encoded 0x30 (encoded 0x06 type ++ value)

/-- a common name in UTF-8 -/
def commonNameEncoded (text : String) : Bytes := attributeEncoded commonNameOid (encoded 0x0c (Pem.ofText text))

/-- a name with these attributes in its parts -/
def nameEncoded (parts : List (List Bytes)) : Bytes := encoded 0x30 (parts.flatMap fun p => encoded 0x31 p.flatten)

/-- a host among the alternative names -/
def hostEncoded (text : String) : Bytes := encoded 0x82 (Pem.ofText text)

/-- a list of alternative names -/
def alternativesEncoded (names : List Bytes) : Bytes := encoded 0x30 names.flatten

/-- a certificate of the third version with keys and signatures of the right size -/
def certificateEncoded (issuer subject : List (List Bytes)) (alternatives : List Bytes) : Bytes :=
  let algorithm := encoded 0x30 (encoded 0x06 [0x2b, 0x65, 0x70])
  let validity := encoded 0x30 (encoded 0x17 (Pem.ofText "250101000000Z") ++ encoded 0x17 (Pem.ofText "350101000000Z"))
  let list := encoded 0x06 alternativeNamesOid ++ encoded 0x04 (alternativesEncoded alternatives)
  let signed := encoded 0xa0 (encoded 0x02 [2]) ++ encoded 0x02 [1] ++ algorithm ++ nameEncoded issuer ++ validity ++
    nameEncoded subject ++ encoded 0x30 (algorithm ++ encoded 0x03 (List.replicate 33 0)) ++
    encoded 0xa3 (encoded 0x30 (encoded 0x30 list))
  encoded 0x30 (encoded 0x30 signed ++ algorithm ++ encoded 0x03 (List.replicate 65 0))

/-- names with several attributes in a part, and alternative names of every kind -/
def everyKind : Bytes :=
  certificateEncoded
    [[attributeEncoded [0x55, 4, 10] (encoded 0x13 (Pem.ofText "I")), commonNameEncoded "ca"]]
    [[attributeEncoded [0x55, 4, 6] (encoded 0x13 (Pem.ofText "DE"))],
      [attributeEncoded [0x55, 4, 5] (encoded 0x13 (Pem.ofText "1")), commonNameEncoded "host"],
      [commonNameEncoded "other"]]
    [encoded 0xa0 (encoded 0x06 [0x2a, 3] ++ encoded 0xa0 (encoded 0x04 [1])), encoded 0x81 (Pem.ofText "a@b"),
      hostEncoded "one", encoded 0xa4 (nameEncoded [[commonNameEncoded "x"]]), encoded 0x86 (Pem.ofText "x:y"),
      encoded 0x87 [127, 0, 0, 1], encoded 0x87 [1, 2, 3], encoded 0x88 [0x2a, 3], hostEncoded "two"]

theorem reports_of_ordinary_every_kind : ∃ c rest r, Lenient.certificate everyKind = some (c, rest) ∧
    Strict.certificate everyKind = some r ∧ IsOrdinary everyKind ∧
    CertInfo.ofDer? everyKind = some (CertInfo.ofCertificate c) ∧
    CertInfo.ofDer? everyKind = some ⟨"host", "ca", ["DNS:one", "IP:127.0.0.1", "DNS:two"]⟩ := by
  have lenient : (Lenient.certificate everyKind).isSome = true := by decide +kernel
  have strict : (Strict.certificate everyKind).isSome = true := by decide +kernel
  obtain ⟨⟨c, rest⟩, lenient⟩ := Option.isSome_iff_exists.1 lenient
  obtain ⟨r, strict⟩ := Option.isSome_iff_exists.1 strict
  have ordinary : IsOrdinary everyKind := by decide +kernel
  obtain ⟨-, -, same⟩ := reports_of_ordinary lenient strict ordinary
  exact ⟨c, rest, r, lenient, strict, ordinary, same (by decide +kernel) (by decide +kernel) (by decide +kernel),
    by decide +kernel⟩

/-- a name whose first part is empty -/
def emptyPart : Bytes :=
  certificateEncoded [[commonNameEncoded "ca"]] [[], [commonNameEncoded "host"]] [hostEncoded "host"]

/-- an entry of a directory with a date of birth, which is a time -/
def datedEntry : Bytes :=
  let birth := attributeEncoded [0x2b, 6, 1, 5, 5, 7, 9, 1] (encoded 0x18 (Pem.ofText "19700101000000Z"))
  certificateEncoded [[commonNameEncoded "ca"]] [[commonNameEncoded "host"]]
    [hostEncoded "host", encoded 0xa4 (nameEncoded [[birth]])]

/-- another name whose value is an EXTERNAL in an EXTERNAL, and so on, four in all -/
def deepName : Bytes :=
  let external (inner : Bytes) := encoded 0x28 (encoded 0x06 [0x2a, 3] ++ encoded 0xa0 inner)
  encoded 0xa0 (encoded 0x06 [0x2a, 3] ++ encoded 0xa0 (external (external (external (external (encoded 0x04 [1]))))))

/-- a certificate with such a name -/
def deepOther : Bytes :=
  certificateEncoded [[commonNameEncoded "ca"]] [[commonNameEncoded "host"]] [hostEncoded "host", deepName]

/-- the lenient reader reports no alternative names if it cannot read their only extension -/
theorem ofLenient?_unread {s : Bytes} {subject issuer : String} {value : Bytes}
    (read : (Lenient.certificate s).map (fun p => (Lenient.commonName p.1.subject, Lenient.commonName p.1.issuer,
      (p.1.extensions.filter fun x => x.oid = alternativeNamesOid).map Extension.value)) =
        some (subject, issuer, [value]))
    (unread : Lenient.alternativeNames value = none) : CertInfo.ofLenient? s = some ⟨subject, issuer, []⟩ := by
  obtain ⟨⟨c, rest⟩, accepted, eq⟩ := Option.map_eq_some_iff.1 read
  simp only [Prod.mk.injEq] at eq
  obtain ⟨rfl, rfl, one⟩ := eq
  obtain ⟨x, found, rfl⟩ := List.map_eq_singleton_iff.1 one
  rw [CertInfo.ofLenient?, accepted, Option.map_some, CertInfo.ofCertificate, Lenient.names, found]
  simp only [single?, unread]
  rfl

/-- three ordinary certificates about which the two readers disagree -/
theorem ordinary_reports_differ :
    (IsOrdinary emptyPart ∧ CertInfo.ofLenient? emptyPart = some ⟨"host", "ca", ["DNS:host"]⟩ ∧
      CertInfo.ofDer? emptyPart = some ⟨"<undef>", "ca", ["DNS:host"]⟩) ∧
    (IsOrdinary datedEntry ∧ CertInfo.ofLenient? datedEntry = some ⟨"host", "ca", []⟩ ∧
      CertInfo.ofDer? datedEntry = some ⟨"host", "ca", ["DNS:host"]⟩) ∧
    (IsOrdinary deepOther ∧ CertInfo.ofLenient? deepOther = some ⟨"host", "ca", []⟩ ∧
      CertInfo.ofDer? deepOther = some ⟨"host", "ca", ["DNS:host"]⟩) := by
  have deep : Lenient.alternativeNames (alternativesEncoded [hostEncoded "host", deepName]) = none := by cbv
  refine ⟨⟨?_, ?_, ?_⟩, ⟨?_, ?_, ?_⟩, ?_, ofLenient?_unread ?_ deep, ?_⟩
  all_goals decide +kernel

end SecureEndpoint.Certificate
