/-
The dialects side by side.

Two dialects are `Compatible` if no header means two things in them; then what both of them read of some bytes is the
same (`Compatible.element`), and so is a series of values that both read to its end (`Series.agree`). The lenient
dialect is compatible with every other one here. The distinguished dialect admits a single way to write a header; where
it reads a value whose tag has one byte, the lenient and the strict dialect read that value too (`Series.covered`).
-/
import SecureEndpoint.Der.Field

namespace SecureEndpoint.Der

namespace Dialect

variable {d d' : Dialect} {s after : Bytes}

/-! ## What was read -/

theorem header_cases {x : Header} (h : d.header s = some (x, after)) :
    ∃ b rest behind, s = b :: rest ∧ x.tagClass = TagClass.ofByte b ∧ x.constructed = (b.toNat / 32 % 2 == 1) ∧
      d.tagNumber b rest = some (x.number, behind) ∧ d.length x.constructed behind = some (x.length, after) := by
  cases s with
  | nil => cases h
  | cons b rest =>
    simp only [Dialect.header] at h
    split at h
    · cases h
    rename_i number behind hn
    split at h
    · cases h
    rename_i l behind' hl
    cases h
    exact ⟨b, rest, behind, rfl, rfl, rfl, hn, hl⟩

/-- a length is short, open, or in as many bytes as the first one says -/
theorem length_cases {constructed : Bool} {l : Option Nat} (h : d.length constructed s = some (l, after)) :
    (∃ b, b < 128 ∧ s = b :: after ∧ l = some b.toNat) ∨
    (d.openEnded = true ∧ constructed = true ∧ s = 128 :: after ∧ l = none) ∨
    ∃ b bytes n, ¬ b < 128 ∧ b ≠ 128 ∧ bytes.length = b.toNat - 128 ∧ s = b :: (bytes ++ after) ∧
      d.longLength bytes after.length = some n ∧ l = some n := by
  cases s with
  | nil => cases h
  | cons b rest =>
    simp only [Dialect.length] at h
    split at h
    · rename_i short
      cases h
      exact .inl ⟨b, short, rfl, rfl⟩
    rename_i long
    split at h
    · rename_i marked
      split at h
      · rename_i allowed
        cases h
        rw [Bool.and_eq_true] at allowed
        exact .inr (.inl ⟨allowed.1, allowed.2, by rw [marked], rfl⟩)
      · cases h
    rename_i unmarked
    split at h
    · cases h
    · rename_i all
      obtain ⟨n, hn, e⟩ := Option.map_eq_some_iff.1 h
      cases e
      refine .inr (.inr ⟨b, rest.take (b.toNat - 128), n, long, unmarked, by simp; omega, by simp, ?_, rfl⟩)
      rwa [List.length_drop]

theorem element_cases {rest : Bytes} {e : Element} (h : d.element s = some (e, rest)) :
    ∃ after, d.header s = some (e.header, after) ∧
      ((∃ n, e.header.length = some n ∧ n ≤ after.length ∧ e.contents = after.take n ∧ rest = after.drop n) ∨
        (e.header.length = none ∧ e.contents.length ≤ after.length)) := by
  simp only [Dialect.element] at h
  split at h
  · cases h
  rename_i x after hx
  split at h
  · rename_i n hn
    split at h <;> cases h
    exact ⟨after, hx, .inl ⟨n, hn, by omega, rfl, rfl⟩⟩
  · rename_i hn
    split at h <;> cases h
    exact ⟨after, hx, .inr ⟨hn, by rw [List.length_take]; omega⟩⟩

theorem element_nil (d : Dialect) : d.element [] = none := rfl

/-- the contents of a value are shorter than the bytes it was read from -/
theorem contents_length {rest : Bytes} {e : Element} (h : d.element s = some (e, rest)) :
    e.contents.length < s.length := by
  obtain ⟨after, hx, ⟨n, -, -, contents, -⟩ | ⟨-, short⟩⟩ := element_cases h
  all_goals have := header_length hx
  · rw [contents, List.length_take]
    omega
  · omega

/-- without open ends a header gives the number of bytes in the contents -/
theorem length_given (closed : d.openEnded = false) {x : Header} (h : d.header s = some (x, after)) :
    ∃ n, x.length = some n := by
  obtain ⟨_, _, _, -, -, -, -, hl⟩ := header_cases h
  obtain ⟨b, -, -, l⟩ | ⟨open_, -⟩ | ⟨b, bytes, n, -, -, -, -, -, l⟩ := length_cases hl
  · exact ⟨_, l⟩
  · rw [closed] at open_
    cases open_
  · exact ⟨n, l⟩

/-! ## Compatible dialects -/

/-- rules under which no header means two things -/
structure Compatible (d d' : Dialect) : Prop where
  highTag : ∀ {groups n n'}, d.highTag groups = some n → d'.highTag groups = some n' → n = n'
  longLength : ∀ {bytes after n n'}, d.longLength bytes after = some n → d'.longLength bytes after = some n' → n = n'

namespace Compatible

theorem tagNumber (c : Compatible d d') {b : UInt8} {p p' : Nat × Bytes} (h : d.tagNumber b s = some p)
    (h' : d'.tagNumber b s = some p') : p = p' := by
  simp only [Dialect.tagNumber] at h h'
  split at h
  case isTrue low => rw [if_pos low, h] at h'; exact Option.some.inj h'
  case isFalse high =>
    rw [if_neg high] at h'
    split at h
    · cases h
    · rename_i groups rest e
      rw [e] at h'
      obtain ⟨n, hn, rfl⟩ := Option.map_eq_some_iff.1 h
      obtain ⟨n', hn', rfl⟩ := Option.map_eq_some_iff.1 h'
      rw [c.highTag hn hn']

theorem length (c : Compatible d d') {constructed : Bool} {l l' : Option Nat} {after' : Bytes}
    (h : d.length constructed s = some (l, after)) (h' : d'.length constructed s = some (l', after')) :
    l = l' ∧ after = after' := by
  obtain ⟨b, short, rfl, rfl⟩ | ⟨-, -, rfl, rfl⟩ | ⟨b, bytes, n, long, unmarked, count, rfl, hn, rfl⟩ := length_cases h
  all_goals
    obtain ⟨b', short', e, rfl⟩ | ⟨-, -, e, rfl⟩ | ⟨b', bytes', n', long', unmarked', count', e, hn', rfl⟩ :=
      length_cases h'
  all_goals obtain ⟨first, tails⟩ := List.cons.inj e
  all_goals try subst first
  all_goals try contradiction
  · exact ⟨rfl, tails⟩
  · exact ⟨rfl, tails⟩
  · obtain ⟨rfl, rfl⟩ := List.append_inj tails (count.trans count'.symm)
    exact ⟨congrArg some (c.longLength hn hn'), rfl⟩

theorem header (c : Compatible d d') {p p' : Header × Bytes} (h : d.header s = some p) (h' : d'.header s = some p') :
    p = p' := by
  obtain ⟨⟨class_, constructed, number, l⟩, after⟩ := p
  obtain ⟨⟨class', constructed', number', l'⟩, after'⟩ := p'
  obtain ⟨b, rest, behind, rfl, rfl, rfl, hn, hl⟩ := header_cases h
  obtain ⟨_, _, behind', e, rfl, rfl, hn', hl'⟩ := header_cases h'
  cases e
  cases c.tagNumber hn hn'
  obtain ⟨rfl, rfl⟩ := c.length hl hl'
  rfl

theorem behindEnd (c : Compatible d d') {n : Nat} {r r' : Bytes} (h : d.behindEnd n s = some r)
    (h' : d'.behindEnd n s = some r') : r = r' := by
  -- on the recursion of the first dialect: at every header the second one has found the same
  fun_induction Dialect.behindEnd d n s with
  | case1 => cases h
  | case2 n b rest mark last =>
    rw [Dialect.behindEnd, if_pos mark, if_pos last] at h'
    exact Option.some.inj (h.symm.trans h')
  | case3 n b rest mark more ih =>
    rw [Dialect.behindEnd, if_pos mark, if_neg more] at h'
    exact ih h h'
  | case4 => cases h
  | case5 n b rest mark x after hx _ endless ih =>
    rw [Dialect.behindEnd, if_neg mark] at h'
    split at h'
    · cases h'
    · rename_i x' after' hx'
      cases c.header hx hx'
      rw [endless] at h'
      exact ih h h'
  | case6 => cases h
  | case7 n b rest mark x after hx _ k given enough ih =>
    rw [Dialect.behindEnd, if_neg mark] at h'
    split at h'
    · cases h'
    · rename_i x' after' hx'
      cases c.header hx hx'
      rw [given] at h'
      simp only [enough, if_false] at h'
      exact ih h h'

/-- what two compatible dialects read at the front of some bytes is one value -/
theorem element (c : Compatible d d') {p p' : Element × Bytes} (h : d.element s = some p)
    (h' : d'.element s = some p') : p = p' := by
  simp only [Dialect.element] at h h'
  split at h
  · cases h
  rename_i x after hx
  split at h'
  · cases h'
  rename_i x' after' hx'
  cases c.header hx hx'
  split at h
  · rename_i n hn
    rw [hn] at h'
    exact Option.some.inj (h.symm.trans h')
  · rename_i hn
    simp only [hn] at h'
    split at h
    · cases h
    rename_i rest hrest
    split at h'
    · cases h'
    rename_i rest' hrest'
    cases c.behindEnd hrest hrest'
    exact Option.some.inj (h.symm.trans h')

end Compatible

/-! ## Series of values -/

/-- the bytes are these values, one behind the other -/
inductive Series (d : Dialect) : Bytes → List Element → Prop where
  | nil : d.Series [] []
  | cons {s rest e es} (front : d.element s = some (e, rest)) (behind : d.Series rest es) : d.Series s (e :: es)

theorem elements_eq_some {es : List Element} : d.elements s = some es ↔ d.Series s es := by
  constructor
  · intro h
    fun_induction Dialect.elements d s generalizing es with
    | case1 => cases h; exact .nil
    | case2 => cases h
    | case3 b rest e after front _ ih =>
      obtain ⟨es', h', rfl⟩ := Option.map_eq_some_iff.1 h
      exact .cons front (ih h')
  · intro h
    induction h with
    | nil => rw [Dialect.elements]
    | @cons s rest e es front behind ih =>
      cases s with
      | nil => cases d.element_nil ▸ front
      | cons b s =>
        rw [Dialect.elements]
        split
        · rename_i nothing
          rw [front] at nothing
          cases nothing
        · rename_i front'
          rw [front] at front'
          cases front'
          rw [ih]
          rfl

namespace Series

variable {es es' : List Element}

theorem eq_nil (h : d.Series [] es) : es = [] := by
  cases h with
  | nil => rfl
  | cons front _ => cases d.element_nil ▸ front

theorem uncons {e : Element} (h : d.Series s (e :: es)) :
    ∃ rest, d.element s = some (e, rest) ∧ d.Series rest es := by
  cases h with
  | cons front behind => exact ⟨_, front, behind⟩

/-- two compatible dialects that both read the bytes to their end find the same values -/
theorem agree (c : Compatible d d') (h : d.Series s es) (h' : d'.Series s es') : es = es' := by
  induction h generalizing es' with
  | nil => exact h'.eq_nil.symm
  | cons front behind ih =>
    cases h' with
    | nil => cases d.element_nil ▸ front
    | cons front' behind' =>
      cases c.element front front'
      rw [ih behind']

/-- the first of the values is the one that a compatible dialect reads at the front -/
theorem front (c : Compatible d' d) (h : d.Series s es) {rest : Bytes} {e : Element}
    (read : d'.element s = some (e, rest)) : ∃ more, es = e :: more ∧ d.Series rest more := by
  cases h with
  | nil => cases d'.element_nil ▸ read
  | cons front behind =>
    cases c.element read front
    exact ⟨_, rfl, behind⟩

theorem contents_length (h : d.Series s es) {e : Element} (he : e ∈ es) : e.contents.length < s.length := by
  induction h with
  | nil => cases he
  | cons front _ ih =>
    have := element_length front
    rcases List.mem_cons.1 he with rfl | he
    · exact Dialect.contents_length front
    · have := ih he
      omega

end Series

end Dialect

/-! ## The lenient dialect and the others -/

theorem bigEndian_dropWhile_zero (s : Bytes) : bigEndian (s.dropWhile (· = 0)) = bigEndian s := by
  induction s with
  | nil => rfl
  | cons b s ih =>
    by_cases zero : b = 0
    · rw [List.dropWhile_cons_of_pos (by simpa using zero), ih, zero]
      rfl
    · rw [List.dropWhile_cons_of_neg (by simpa using zero)]

/-- the lenient dialect goes with any that counts tags and lengths as it does -/
theorem lenient_compatible {d : Dialect}
    (tags : ∀ {groups n}, d.highTag groups = some n → n = base128 groups ∨ n = base128 groups % Nat.pow 2 32)
    (lengths : ∀ {bytes after n}, d.longLength bytes after = some n → n = bigEndian bytes) :
    lenient.Compatible d where
  highTag {groups n n'} h h' := by
    simp only [lenient] at h
    split at h
    · rename_i small
      cases h
      obtain e | e := tags h'
      · exact e.symm
      · rw [e, Nat.mod_eq_of_lt (Nat.lt_trans small (by decide))]
    · cases h
  longLength {bytes after n n'} h h' := by
    simp only [lenient] at h
    split at h
    · cases h
    · split at h
      · cases h
      · cases h
        rw [bigEndian_dropWhile_zero, lengths h']

theorem lenient_strict : lenient.Compatible strict :=
  lenient_compatible (fun h => by simp only [strict] at h; split at h <;> cases h; exact .inr rfl)
    (fun h => by simp only [strict] at h; split at h <;> cases h; rfl)

theorem lenient_strictOpen : lenient.Compatible strictOpen := ⟨lenient_strict.highTag, lenient_strict.longLength⟩

/-- the lenient dialect knows no larger lengths -/
theorem lenient_length_lt {s after : Bytes} {x : Header} {n : Nat} (h : lenient.header s = some (x, after))
    (given : x.length = some n) : n < Nat.pow 2 63 := by
  obtain ⟨_, _, _, -, -, -, -, hl⟩ := Dialect.header_cases h
  rw [given] at hl
  obtain ⟨b, -, -, e⟩ | ⟨-, -, -, e⟩ | ⟨b, bytes, k, -, -, -, -, hk, e⟩ := Dialect.length_cases hl
  · cases e
    have := b.toNat_lt
    exact Nat.lt_trans this (by decide)
  · cases e
  · cases e
    simp only [lenient, Bool.or_eq_true, decide_eq_true_eq] at hk
    split at hk
    · cases hk
    · split at hk <;> cases hk
      omega

/-- the contents of a value that both the lenient dialect and one without open ends read -/
theorem lenient_contents_lt {d : Dialect} (closed : d.openEnded = false) {s s' rest rest' : Bytes} {e : Element}
    (h : d.element s = some (e, rest)) (h' : lenient.element s' = some (e, rest')) :
    e.contents.length < Nat.pow 2 63 := by
  obtain ⟨after, hx, _⟩ := Dialect.element_cases h
  obtain ⟨n, given⟩ := Dialect.length_given closed hx
  obtain ⟨after', hx', ⟨n', given', -, contents, -⟩ | ⟨endless, -⟩⟩ := Dialect.element_cases h'
  · have := lenient_length_lt hx' given'
    rw [contents, List.length_take]
    omega
  · rw [given] at endless
    cases endless

/-! ## The distinguished form -/

/-- every tag and every length in its shortest form, and no open ends -/
def distinguished : Dialect where
  highTag groups := if groups.head? = some 128 ∨ base128 groups < 31 then none else some (base128 groups)
  longLength := (canonicalUpTo 126).longLength
  openEnded := false

/-- a long length in its shortest form takes all its bytes -/
theorem distinguished_longLength {bytes : Bytes} {after n : Nat} (h : distinguished.longLength bytes after = some n) :
    n = bigEndian bytes ∧ bytes.length ≤ 126 ∧ 0 < n ∧ Nat.pow 256 (bytes.length - 1) ≤ n := by
  simp only [distinguished, canonicalUpTo] at h
  split at h
  · cases h
  rename_i few
  refine ⟨?_, by omega, ?_⟩
  · split at h <;> split at h <;> cases h <;> rfl
  · split at h
    · rename_i one
      split at h <;> cases h
      rw [one]
      exact ⟨by omega, by show 1 ≤ _; omega⟩
    · split at h <;> cases h
      rename_i long
      exact ⟨Nat.lt_of_lt_of_le (Nat.pow_pos (by decide)) (Nat.not_lt.1 long), Nat.not_lt.1 long⟩

theorem lenient_distinguished : lenient.Compatible distinguished :=
  lenient_compatible (fun h => by simp only [distinguished] at h; split at h <;> cases h; exact .inl rfl)
    (fun h => (distinguished_longLength h).1)

/-- the dialect allows the long lengths of the distinguished form, as far as the bytes behind them go -/
def Dialect.Covers (d : Dialect) : Prop :=
  ∀ {bytes after n}, distinguished.longLength bytes after = some n → n ≤ after → n < Nat.pow 2 63 →
    d.longLength bytes after = some n

theorem strict_covers : strict.Covers := by
  intro bytes after n h _ small
  obtain ⟨rfl, few, -⟩ := distinguished_longLength h
  have wide : Nat.pow 2 63 < Nat.pow 2 64 := by decide
  simp only [strict, Bool.or_eq_true, decide_eq_true_eq]
  rw [if_neg (by omega)]

theorem lenient_covers : lenient.Covers := by
  intro bytes after n h enough small
  obtain ⟨rfl, -, pos, long⟩ := distinguished_longLength h
  -- a ninth byte would stand for more than the length that was found to fit
  have few : bytes.length ≤ 8 := by
    refine Nat.le_of_not_lt fun many => ?_
    have : Nat.pow 256 8 ≤ Nat.pow 256 (bytes.length - 1) := Nat.pow_le_pow_right (by decide) (by omega)
    have : Nat.pow 2 63 < Nat.pow 256 8 := by decide
    omega
  have := (List.dropWhile_sublist (l := bytes) (fun b => decide (b = 0))).length_le
  simp only [lenient, bigEndian_dropWhile_zero, Bool.or_eq_true, decide_eq_true_eq]
  rw [if_neg (by omega), if_neg (by omega)]

namespace Dialect.Covers

variable {d : Dialect} {s after : Bytes}

theorem tagNumber {b : UInt8} {n : Nat} (h : distinguished.tagNumber b s = some (n, after)) (low : n < 31) :
    d.tagNumber b s = some (n, after) := by
  simp only [Dialect.tagNumber] at h ⊢
  split at h
  · rename_i one
    rw [if_pos one, h]
  · split at h
    · cases h
    · obtain ⟨k, hk, e⟩ := Option.map_eq_some_iff.1 h
      cases e
      simp only [distinguished] at hk
      split at hk <;> cases hk
      rename_i high
      exact absurd (.inr low) high

theorem length (c : d.Covers) {constructed : Bool} {n : Nat}
    (h : distinguished.length constructed s = some (some n, after)) (enough : n ≤ after.length)
    (small : n < Nat.pow 2 63) : d.length constructed s = some (some n, after) := by
  obtain ⟨b, short, rfl, e⟩ | ⟨endless, -⟩ | ⟨b, bytes, k, long, unmarked, count, rfl, hk, e⟩ := length_cases h
  · rw [Dialect.length, if_pos short, e]
  · cases endless
  · cases e
    have all : ¬ (bytes ++ after).length < b.toNat - 128 := by simp only [List.length_append]; omega
    have front : (bytes ++ after).take (b.toNat - 128) = bytes := by rw [← count, List.take_left]
    have behind : (bytes ++ after).drop (b.toNat - 128) = after := by rw [← count, List.drop_left]
    have room : (bytes ++ after).length - (b.toNat - 128) = after.length := by simp only [List.length_append]; omega
    simp only [Dialect.length, if_neg long, if_neg unmarked, if_neg all, front, behind, room, c hk enough small]
    rfl

theorem header (c : d.Covers) {x : Header} {n : Nat} (h : distinguished.header s = some (x, after))
    (given : x.length = some n) (enough : n ≤ after.length) (small : n < Nat.pow 2 63) (low : x.number < 31) :
    d.header s = some (x, after) := by
  obtain ⟨class_, constructed, number, l⟩ := x
  obtain ⟨b, rest, behind, rfl, rfl, rfl, hn, hl⟩ := header_cases h
  cases given
  simp only [Dialect.header, tagNumber hn low, c.length hl enough small]

/-- a value in the distinguished form whose tag has one byte is read by every dialect that covers that form -/
theorem element (c : d.Covers) {rest : Bytes} {e : Element} (h : distinguished.element s = some (e, rest))
    (short : s.length < Nat.pow 2 63) (low : e.header.number < 31) : d.element s = some (e, rest) := by
  obtain ⟨after, hx, ⟨n, given, enough, -, -⟩ | ⟨endless, -⟩⟩ := element_cases h
  · have := header_length hx
    have hx' := c.header hx given enough (by omega) low
    simp only [Dialect.element, hx, given] at h
    simp only [Dialect.element, hx', given]
    exact h
  · obtain ⟨n, given⟩ := length_given rfl hx
    rw [given] at endless
    cases endless

end Dialect.Covers

theorem Dialect.Series.covered {d : Dialect} (c : d.Covers) {s : Bytes} {es : List Element}
    (h : distinguished.Series s es) (short : s.length < Nat.pow 2 63) (low : ∀ e ∈ es, e.header.number < 31) :
    d.Series s es := by
  induction h with
  | nil => exact .nil
  | cons front _ ih =>
    have := Dialect.element_length front
    exact .cons (c.element front short (low _ List.mem_cons_self))
      (ih (by omega) fun e he => low e (List.mem_cons_of_mem _ he))

/-! ## Values that are in the distinguished form throughout -/

/-- the types of the standard that are made of other values: EXTERNAL, EMBEDDED PDV, SEQUENCE, SET, CHARACTER STRING -/
def compositeTypes : List Nat := [8, 11, 16, 17, 29]

/-- a value of the standard's types is made of others exactly if its type is -/
def Element.hasFormOfType (e : Element) : Bool :=
  e.header.tagClass ≠ .universal || e.header.constructed == compositeTypes.contains e.header.number

/-- the bytes are values in the distinguished form, and so is what they are made of; the contents of the types that are
not made of others, and the order in sets, are not looked at -/
def isDistinguished (s : Bytes) : Bool :=
  match h : distinguished.elements s with
  | none => false
  | some es => es.attach.all fun e =>
      have := (Dialect.elements_eq_some.1 h).contents_length e.2
      e.1.hasFormOfType && (!e.1.header.constructed || isDistinguished e.1.contents)
termination_by s.length

namespace Element

/-- the value is in the distinguished form, and so is what it is made of -/
def isDistinguished (e : Element) : Bool :=
  e.hasFormOfType && (!e.header.constructed || Der.isDistinguished e.contents)

/-- the values that a value is made of -/
def parts (e : Element) : List Element := (distinguished.elements e.contents).getD []

end Element

theorem isDistinguished_iff {s : Bytes} : isDistinguished s = true ↔
    ∃ es, distinguished.Series s es ∧ ∀ e ∈ es, e.isDistinguished = true := by
  simp only [← Dialect.elements_eq_some]
  rw [isDistinguished]
  split
  · rename_i h
    simp [h]
  · rename_i es h
    simp [h, Element.isDistinguished]

namespace Element

variable {e : Element}

theorem parts_of_elements {es : List Element} (h : distinguished.Series e.contents es) : e.parts = es := by
  rw [parts, Dialect.elements_eq_some.2 h]
  rfl

/-- a value that is made of others is made of its parts -/
theorem of_constructed (h : e.isDistinguished = true) (made : e.header.constructed = true) :
    distinguished.Series e.contents e.parts ∧ ∀ p ∈ e.parts, p.isDistinguished = true := by
  simp only [isDistinguished, made, Bool.not_true, Bool.false_or, Bool.and_eq_true] at h
  obtain ⟨es, hes, all⟩ := isDistinguished_iff.1 h.2
  rw [parts_of_elements hes]
  exact ⟨hes, all⟩

/-- a composite type is made of its parts -/
theorem of_composite (h : e.isDistinguished = true) {n : Nat} (tag : e.tag = Tag.std n)
    (composite : n ∈ compositeTypes) :
    distinguished.Series e.contents e.parts ∧ ∀ p ∈ e.parts, p.isDistinguished = true := by
  refine of_constructed h ?_
  obtain ⟨class_, number⟩ := Tag.mk.inj tag
  simp only [isDistinguished, hasFormOfType, class_, number, List.contains_iff_mem.2 composite, Bool.and_eq_true,
    ne_eq, not_true_eq_false, decide_false, Bool.false_or, beq_iff_eq] at h
  exact h.1

/-- a type that is not composite is not made of others -/
theorem of_simple (h : e.isDistinguished = true) {n : Nat} (tag : e.tag = Tag.std n)
    (simple : n ∉ compositeTypes) : e.header.constructed = false := by
  obtain ⟨class_, number⟩ := Tag.mk.inj tag
  have absent : compositeTypes.contains n = false := by simpa using simple
  simp only [isDistinguished, hasFormOfType, class_, number, absent, Bool.and_eq_true, Bool.or_eq_true, ne_eq,
    not_true_eq_false, decide_false, Bool.false_eq_true, false_or, beq_iff_eq] at h
  exact h.1

end Element

end SecureEndpoint.Der
