/-
The grammar of JSON, and the readers of its leaves.

How a document may be written is said here without a reader: strings (`IsString`), strings with what they spell (`Spells`),
numbers, values of any depth (`Written`). A string that only has to be passed over may hold any four hexadecimal digits
behind `\u`; one that is read may hold no half of a surrogate pair.

Each reader of a leaf takes exactly what the grammar derives. One lemma says that what a reader took was written as the
grammar says (`…_sound`), one that the reader takes what is written so, whatever follows (`…_append`). A number goes on as
long as it can, so what follows it has to end it (`Ends`).
-/
import SecureEndpoint.Json.Record

namespace SecureEndpoint.Json

/-! ## Leaves -/

/-- nothing but blanks -/
def Blank (s : Bytes) : Prop := ∀ b ∈ s, isBlank b

/-- a byte that stands for itself in a string -/
def isPlain (b : UInt8) : Bool := 32 ≤ b && b ≠ 34 && b ≠ 92

/-- four hexadecimal digits, and what they stand for -/
inductive Code : Bytes → Nat → Prop
  | digits {a b c d : UInt8} {x y z w : Nat} (ha : hexValue? a = some x) (hb : hexValue? b = some y)
      (hc : hexValue? c = some z) (hd : hexValue? d = some w) : Code [a, b, c, d] (((x * 16 + y) * 16 + z) * 16 + w)

/-- what may follow a backslash, and what it stands for -/
inductive Escape : Bytes → Bytes → Prop
  | short {b c} (h : shortEscape? b = some c) : Escape [b] [c]
  | code {h n} (hc : Code h n) (whole : n < 0xD800 ∨ 0xDFFF < n) : Escape (117 :: h) (utf8 n)
  | pair {h l hi lo} (hh : Code h hi) (hl : Code l lo) (high : 0xD800 ≤ hi ∧ hi ≤ 0xDBFF)
      (low : 0xDC00 ≤ lo ∧ lo ≤ 0xDFFF) :
      Escape (117 :: (h ++ 92 :: 117 :: l)) (utf8 (0x10000 + (hi - 0xD800) * 0x400 + (lo - 0xDC00)))

/-- what stands between the marks of a string, and what it spells -/
inductive Spells : Bytes → Bytes → Prop
  | done : Spells [] []
  | plain {b s t} (hb : isPlain b) (hs : Spells s t) : Spells (b :: s) (b :: t)
  | escape {e c s t} (he : Escape e c) (hs : Spells s t) : Spells (92 :: (e ++ s)) (c ++ t)

/-- what may stand between the marks of a string that is passed over -/
inductive IsString : Bytes → Prop
  | done : IsString []
  | plain {b s} (hb : isPlain b) (hs : IsString s) : IsString (b :: s)
  | short {b s} (hb : (shortEscape? b).isSome) (hs : IsString s) : IsString (92 :: b :: s)
  | code {h n s} (hc : Code h n) (hs : IsString s) : IsString (92 :: 117 :: (h ++ s))

/-- digits, at least one -/
structure Digits (s : Bytes) : Prop where
  some : s ≠ []
  all : ∀ b ∈ s, isDigit b

/-- the integer part of a number: no zero in front of other digits -/
inductive IsInteger : Bytes → Prop
  | zero : IsInteger [48]
  | digits {b s} (hb : isDigit b) (nonzero : b ≠ 48) (hs : ∀ d ∈ s, isDigit d) : IsInteger (b :: s)

inductive IsFraction : Bytes → Prop
  | absent : IsFraction []
  | digits {s} (hs : Digits s) : IsFraction (46 :: s)

inductive IsExponent : Bytes → Prop
  | absent : IsExponent []
  | digits {e sign s} (he : e = 101 ∨ e = 69) (hsign : sign = [] ∨ sign = [43] ∨ sign = [45]) (hs : Digits s) :
      IsExponent (e :: (sign ++ s))

/-- a number without a sign -/
inductive IsUnsigned : Bytes → Prop
  | parts {i f e} (hi : IsInteger i) (hf : IsFraction f) (he : IsExponent e) : IsUnsigned (i ++ (f ++ e))

/-- a value that is not a list or an object -/
inductive IsScalar : Bytes → Prop
  | null : IsScalar (110 :: nullTail)
  | true : IsScalar (116 :: trueTail)
  | false : IsScalar (102 :: falseTail)
  | positive {u} (hu : IsUnsigned u) : IsScalar u
  | negative {u} (hu : IsUnsigned u) : IsScalar (45 :: u)
  | string {s} (hs : IsString s) : IsScalar (34 :: (s ++ [34]))

/-! ## Values -/

/-- the byte that opens a frame -/
def Frame.opening : Frame → UInt8
  | .list => 91
  | .object => 123

/-- what stands before a value in a frame: nothing in a list, the name and the colon in an object -/
inductive IsLead : Frame → Bytes → Prop
  | list : IsLead .list []
  | object {w s w'} (hw : Blank w) (hs : IsString s) (hw' : Blank w') : IsLead .object (w ++ 34 :: (s ++ 34 :: (w' ++ [58])))

/-- a part of a document -/
inductive Part where
  | value
  /-- the items of a frame, with the commas between them -/
  | items (f : Frame)

/-- how a part of a document may be written -/
inductive Written : Part → Bytes → Prop
  | scalar {s} (hs : IsScalar s) : Written .value s
  | empty (f : Frame) {w} (hw : Blank w) : Written .value (f.opening :: (w ++ [f.closing]))
  | frame (f : Frame) {s} (hs : Written (.items f) s) : Written .value (f.opening :: (s ++ [f.closing]))
  | last {f l w v w'} (hl : IsLead f l) (hw : Blank w) (hv : Written .value v) (hw' : Blank w') :
      Written (.items f) (l ++ (w ++ (v ++ w')))
  | more {f l w v w' s} (hl : IsLead f l) (hw : Blank w) (hv : Written .value v) (hw' : Blank w')
      (hs : Written (.items f) s) : Written (.items f) (l ++ (w ++ (v ++ (w' ++ 44 :: s))))

/-- what follows here ends a number -/
def Ends (s : Bytes) : Prop := ∀ b ∈ s.head?, isBlank b ∨ b = 44 ∨ b = 93 ∨ b = 125

theorem Ends.not_number {b : UInt8} {s : Bytes} (h : Ends (b :: s)) :
    isDigit b = false ∧ b ≠ 46 ∧ b ≠ 101 ∧ b ≠ 69 := by
  have hb := h b rfl
  simp only [isBlank, Bool.or_eq_true, decide_eq_true_eq] at hb
  obtain (((rfl | rfl) | rfl) | rfl) | rfl | rfl | rfl := hb <;> decide

theorem ends_nil : Ends [] := nofun

/-- blanks end a number, and so does what ends it behind them -/
theorem Ends.blank {w s : Bytes} (hs : Ends s) (hw : Blank w) : Ends (w ++ s) := by
  cases w with
  | nil => exact hs
  | cons b w =>
    intro c hc
    cases hc
    exact .inl (hw b (.head _))

theorem Frame.ends (f : Frame) (s : Bytes) : Ends (f.closing :: s) := by
  intro b hb
  cases hb
  cases f <;> decide

theorem ends_comma (s : Bytes) : Ends (44 :: s) := by
  intro b hb
  cases hb
  decide

/-! ## Blanks and words -/

theorem Blank.append {w w' : Bytes} (hw : Blank w) (hw' : Blank w') : Blank (w ++ w') := fun b hb =>
  (List.mem_append.1 hb).elim (hw b) (hw' b)

/-- what stands behind the blanks is the rest -/
theorem skipBlanks_sound (s : Bytes) : ∃ w, s = w ++ skipBlanks s ∧ Blank w :=
  ⟨s.takeWhile isBlank, List.takeWhile_append_dropWhile.symm, fun b hb => List.all_eq_true.1 List.all_takeWhile b hb⟩

@[simp] theorem skipBlanks_append {w : Bytes} (hw : Blank w) (s : Bytes) : skipBlanks (w ++ s) = skipBlanks s :=
  List.dropWhile_append_of_pos hw

theorem skipBlanks_cons {b : UInt8} (hb : isBlank b = false) (s : Bytes) : skipBlanks (b :: s) = b :: s :=
  List.dropWhile_cons_of_neg (by simp [hb])

theorem word_sound {e s r : Bytes} (h : word e s = .ok r) : s = e ++ r := by
  induction e generalizing s with
  | nil => cases h; rfl
  | cons b e ih =>
    cases s with
    | nil => cases h
    | cons c s =>
      simp only [word] at h
      split at h
      · rename_i hc
        rw [hc, ih h]
        rfl
      · cases h

theorem word_append (e r : Bytes) : word e (e ++ r) = .ok r := by
  induction e with
  | nil => rfl
  | cons b e ih => simpa [word] using ih

/-! ## Strings -/

theorem fourHex_sound {s r : Bytes} {n : Nat} (h : fourHex s = .ok (n, r)) : ∃ c, s = c ++ r ∧ Code c n := by
  unfold fourHex at h
  split at h
  · rename_i a b c d rest
    split at h
    · cases h
      exact ⟨[a, b, c, d], rfl, .digits ‹_› ‹_› ‹_› ‹_›⟩
    · cases h
  · cases h

theorem Code.read {c : Bytes} {n : Nat} (h : Code c n) (r : Bytes) : fourHex (c ++ r) = .ok (n, r) := by
  cases h with
  | digits ha hb hc hd => simp [fourHex, ha, hb, hc, hd]

theorem lowSurrogate_sound {high n : Nat} {s r : Bytes} (h : lowSurrogate high s = .ok (n, r)) :
    ∃ l lo, s = 92 :: 117 :: l ++ r ∧ Code l lo ∧ (0xDC00 ≤ lo ∧ lo ≤ 0xDFFF) ∧
      n = 0x10000 + (high - 0xD800) * 0x400 + (lo - 0xDC00) := by
  unfold lowSurrogate at h
  split at h
  · cases h
  split at h
  · cases h
  split at h
  · cases h
  split at h
  · cases h
  split at h
  · cases h
  rename_i b _ hb _ c s' hc _ low s'' hf
  split at h
  · cases h
  · rename_i hlow
    obtain ⟨l, rfl, hl⟩ := fourHex_sound hf
    simp only [ne_eq, Decidable.not_not] at hb hc
    simp only [Bool.or_eq_true, decide_eq_true_eq, not_or, Nat.not_lt] at hlow
    simp only [Except.ok.injEq, Prod.mk.injEq] at h
    obtain ⟨rfl, rfl⟩ := h
    subst hb hc
    exact ⟨l, low, rfl, hl, hlow, rfl⟩

theorem escape_sound {s c r : Bytes} (h : escape s = .ok (c, r)) : ∃ e, s = e ++ r ∧ Escape e c := by
  unfold escape at h
  split at h
  · cases h
  · rename_i b rest
    split at h
    · cases h
      exact ⟨[b], rfl, .short ‹_›⟩
    · split at h
      · rename_i hb
        subst hb
        split at h
        · rename_i n rest' he
          cases h
          unfold hexEscape at he
          split at he
          · cases he
          · rename_i hi s' hf
            obtain ⟨d, rfl, hd⟩ := fourHex_sound hf
            split at he
            · cases he
            · rename_i hlow
              simp only [Bool.and_eq_true, decide_eq_true_eq, not_and, Nat.not_le] at hlow
              split at he
              · rename_i hhigh
                simp only [Bool.and_eq_true, decide_eq_true_eq] at hhigh
                obtain ⟨l, lo, rfl, hl, hlo, hn⟩ := lowSurrogate_sound he
                rw [hn]
                exact ⟨117 :: (d ++ 92 :: 117 :: l), by simp, .pair hd hl hhigh hlo⟩
              · rename_i hhigh
                simp only [Bool.and_eq_true, decide_eq_true_eq, not_and, Nat.not_le] at hhigh
                cases he
                exact ⟨117 :: d, rfl, .code hd (by omega)⟩
        · cases h
      · cases h

theorem Escape.read {e c : Bytes} (h : Escape e c) (r : Bytes) : escape (e ++ r) = .ok (c, r) := by
  cases h with
  | short h => simp [escape, h]
  | @code h n hc whole =>
    have hlow : ¬ (0xDC00 ≤ n ∧ n ≤ 0xDFFF) := by omega
    have hhigh : ¬ (0xD800 ≤ n ∧ n ≤ 0xDBFF) := by omega
    simp [escape, shortEscape?, hexEscape, hc.read, hlow, hhigh]
  | @pair h l hi lo hh hl high low =>
    have hlow : ¬ (0xDC00 ≤ hi ∧ hi ≤ 0xDFFF) := by omega
    have hlo : ¬ (lo < 0xDC00 ∨ 0xDFFF < lo) := by omega
    simp [escape, shortEscape?, hexEscape, lowSurrogate, hh.read, hl.read, hlow, high, hlo]

theorem isPlain_iff {b : UInt8} : isPlain b ↔ ¬ b < 32 ∧ b ≠ 34 ∧ b ≠ 92 := by
  simp [isPlain, and_assoc]

theorem stringTail_sound {read s t r : Bytes} (h : stringTail read s = .ok (t, r)) :
    ∃ body u, s = body ++ 34 :: r ∧ Spells body u ∧ t = read.reverse ++ u := by
  fun_induction stringTail read s with
  | case1 => cases h
  | case2 =>
    cases h
    exact ⟨[], [], rfl, .done, by simp⟩
  | case3 => cases h
  | case4 read rest bytes after he _ _ ih =>
    obtain ⟨body, u, rfl, hs, rfl⟩ := ih h
    obtain ⟨e, rfl, hesc⟩ := escape_sound he
    exact ⟨92 :: (e ++ body), bytes ++ u, by simp, .escape hesc hs, by simp⟩
  | case5 => cases h
  | case6 read b rest hquote hslash hcontrol ih =>
    obtain ⟨body, u, rfl, hs, rfl⟩ := ih h
    exact ⟨b :: body, b :: u, rfl, .plain (isPlain_iff.2 ⟨hcontrol, hquote, hslash⟩) hs, by simp⟩

theorem Spells.read {body u : Bytes} (h : Spells body u) (r : Bytes) (front : Bytes) :
    stringTail front (body ++ 34 :: r) = .ok (front.reverse ++ u, r) := by
  induction h generalizing front with
  | done => rw [List.nil_append, stringTail]; simp
  | plain hb hs ih =>
    obtain ⟨hcontrol, hquote, hslash⟩ := isPlain_iff.1 hb
    rw [List.cons_append, stringTail, if_neg hquote, if_neg hslash, if_neg hcontrol, ih]
    simp
  | @escape e c s t he hs ih =>
    have hread := he.read (s ++ 34 :: r)
    rw [List.cons_append, List.append_assoc, stringTail, if_neg (by decide), if_pos rfl]
    split
    · rename_i hf
      rw [hread] at hf
      cases hf
    · rename_i hf
      rw [hread] at hf
      cases hf
      rw [ih]
      simp

theorem skipEscape_sound {s r : Bytes} (h : skipEscape s = .ok r) :
    (∃ b, s = b :: r ∧ (shortEscape? b).isSome) ∨ ∃ c n, s = 117 :: c ++ r ∧ Code c n := by
  unfold skipEscape at h
  split at h
  · cases h
  · split at h
    · cases h
      exact .inl ⟨_, rfl, ‹_›⟩
    · split at h
      · rename_i hb
        subst hb
        split at h
        · rename_i hf
          cases h
          obtain ⟨c, rfl, hc⟩ := fourHex_sound hf
          exact .inr ⟨c, _, rfl, hc⟩
        · cases h
      · cases h

theorem skipString_sound {s r : Bytes} (h : skipString s = .ok r) : ∃ body, s = body ++ 34 :: r ∧ IsString body := by
  fun_induction skipString s with
  | case1 => cases h
  | case2 =>
    cases h
    exact ⟨[], rfl, .done⟩
  | case3 => cases h
  | case4 rest after he _ _ ih =>
    obtain ⟨body, rfl, hs⟩ := ih h
    rcases skipEscape_sound he with ⟨b, rfl, hb⟩ | ⟨c, n, rfl, hc⟩
    · exact ⟨92 :: b :: body, rfl, .short hb hs⟩
    · exact ⟨92 :: 117 :: (c ++ body), by simp, .code hc hs⟩
  | case5 => cases h
  | case6 b rest hquote hslash hcontrol ih =>
    obtain ⟨body, rfl, hs⟩ := ih h
    exact ⟨b :: body, rfl, .plain (isPlain_iff.2 ⟨hcontrol, hquote, hslash⟩) hs⟩

/-- passing over an escape, then over the rest of the string -/
theorem skipString_escape {s after : Bytes} (h : skipEscape s = .ok after) : skipString (92 :: s) = skipString after := by
  rw [skipString, if_neg (by decide), if_pos rfl]
  split
  · rename_i hf
    rw [h] at hf
    cases hf
  · rename_i hf
    rw [h] at hf
    cases hf
    rfl

theorem IsString.skip {body : Bytes} (h : IsString body) (r : Bytes) : skipString (body ++ 34 :: r) = .ok r := by
  induction h with
  | done => rw [List.nil_append, skipString, if_pos rfl]
  | plain hb hs ih =>
    obtain ⟨hcontrol, hquote, hslash⟩ := isPlain_iff.1 hb
    rw [List.cons_append, skipString, if_neg hquote, if_neg hslash, if_neg hcontrol, ih]
  | @short b s hb hs ih =>
    have hread : skipEscape (b :: (s ++ 34 :: r)) = .ok (s ++ 34 :: r) := by simp [skipEscape, hb]
    rw [List.cons_append, List.cons_append, skipString_escape hread, ih]
  | @code c n s hc hs ih =>
    have hread : skipEscape (117 :: (c ++ (s ++ 34 :: r))) = .ok (s ++ 34 :: r) := by
      simp [skipEscape, shortEscape?, hc.read]
    rw [List.cons_append, List.cons_append, List.append_assoc, skipString_escape hread, ih]

/-- a string without escapes spells itself -/
theorem spells_plain {s : Bytes} (h : ∀ b ∈ s, isPlain b) : Spells s s := by
  induction s with
  | nil => exact .done
  | cons b s ih =>
    obtain ⟨hb, hs⟩ := List.forall_mem_cons.1 h
    exact .plain hb (ih hs)

/-- a string that can be read can be passed over -/
theorem Spells.isString {body u : Bytes} (h : Spells body u) : IsString body := by
  induction h with
  | done => exact .done
  | plain hb hs ih => exact .plain hb ih
  | escape he hs ih =>
    cases he with
    | short h => exact .short (by simp [h]) ih
    | code hc whole => exact .code hc ih
    | pair hh hl high low => simpa using IsString.code hh (.code hl ih)

/-- where a string ends does not depend on what follows -/
theorem IsString.end_unique {body body' r r' : Bytes} (h : IsString body) (h' : IsString body')
    (he : body ++ 34 :: r = body' ++ 34 :: r') : body = body' ∧ r = r' := by
  have hr : Except.ok (ε := Fault) r = .ok r' := by rw [← h.skip r, he, h'.skip r']
  cases hr
  exact ⟨List.append_cancel_right he, rfl⟩

/-! ## Numbers -/

theorem digits_sound (s : Bytes) : s = (digits s).1 ++ (digits s).2 ∧ ∀ b ∈ (digits s).1, isDigit b :=
  ⟨List.takeWhile_append_dropWhile.symm, fun b hb => List.all_eq_true.1 List.all_takeWhile b hb⟩

/-- nothing that follows goes on with digits -/
def Undigited (s : Bytes) : Prop := ∀ b ∈ s.head?, isDigit b = false

theorem digits_append {s r : Bytes} (hs : ∀ b ∈ s, isDigit b) (hr : Undigited r) : digits (s ++ r) = (s, r) := by
  have hnone : r.takeWhile isDigit = [] ∧ r.dropWhile isDigit = r := by
    cases r with
    | nil => exact ⟨rfl, rfl⟩
    | cons b r => simp [hr b rfl]
  rw [digits, List.takeWhile_append_of_pos hs, List.dropWhile_append_of_pos hs, hnone.1, hnone.2, List.append_nil]

theorem Ends.undigited {s : Bytes} (h : Ends s) : Undigited s := by
  cases s with
  | nil => nofun
  | cons b s =>
    intro c hc
    cases hc
    exact h.not_number.1

theorem skipExponentDigits_sound {s r : Bytes} (h : skipExponentDigits s = .ok r) : ∃ ds, s = ds ++ r ∧ Digits ds := by
  unfold skipExponentDigits at h
  split at h
  · cases h
  · rename_i b rest
    split at h
    · rename_i hb
      cases h
      obtain ⟨hsplit, hall⟩ := digits_sound rest
      refine ⟨b :: (digits rest).1, by rw [List.cons_append, ← hsplit], by simp, ?_⟩
      exact List.forall_mem_cons.2 ⟨hb, hall⟩
    · cases h

theorem Digits.skip_exponent {ds r : Bytes} (h : Digits ds) (hr : Undigited r) : skipExponentDigits (ds ++ r) = .ok r := by
  obtain ⟨hsome, hall⟩ := h
  cases ds with
  | nil => exact absurd rfl hsome
  | cons b ds =>
    obtain ⟨hb, hall⟩ := List.forall_mem_cons.1 hall
    simp [skipExponentDigits, hb, digits_append hall hr]

theorem skipExponent_sound {s r : Bytes} (h : skipExponent s = .ok r) :
    ∃ sign ds, s = sign ++ ds ++ r ∧ (sign = [] ∨ sign = [43] ∨ sign = [45]) ∧ Digits ds := by
  unfold skipExponent at h
  split at h <;> obtain ⟨ds, rfl, hds⟩ := skipExponentDigits_sound h
  · exact ⟨[43], ds, rfl, by simp, hds⟩
  · exact ⟨[45], ds, rfl, by simp, hds⟩
  · exact ⟨[], ds, rfl, by simp, hds⟩

theorem skipExponent_append {sign ds r : Bytes} (hsign : sign = [] ∨ sign = [43] ∨ sign = [45]) (hds : Digits ds)
    (hr : Undigited r) : skipExponent (sign ++ ds ++ r) = .ok r := by
  have hskip := hds.skip_exponent hr
  obtain rfl | rfl | rfl := hsign
  · obtain ⟨hsome, hall⟩ := hds
    cases ds with
    | nil => exact absurd rfl hsome
    | cons b ds =>
      have hb := hall b (.head _)
      rw [List.nil_append, skipExponent]
      · exact hskip
      · rintro t ht
        cases ht
        cases hb
      · rintro t ht
        cases ht
        cases hb
  · exact hskip
  · exact hskip

/-- passes over an exponent, or over nothing where none begins -/
def skipExponentIfAny (s : Bytes) : Except Fault Bytes :=
  match s with
  | 101 :: r | 69 :: r => skipExponent r
  | after => .ok after

theorem skipNumberTail_point (s : Bytes) : skipNumberTail (46 :: s) =
    if (digits s).1.isEmpty then Fault.next .invalidNumber (digits s).2 else skipExponentIfAny (digits s).2 := rfl

theorem skipNumberTail_pointless {s : Bytes} (h : ∀ t, s ≠ 46 :: t) : skipNumberTail s = skipExponentIfAny s := by
  unfold skipNumberTail skipExponentIfAny
  split
  · exact absurd rfl (h _)
  · rfl
  · rfl
  · rename_i hsmall hlarge
    split
    · exact absurd rfl (hsmall _)
    · exact absurd rfl (hlarge _)
    · rfl

theorem skipExponentIfAny_sound {s r : Bytes} (h : skipExponentIfAny s = .ok r) : ∃ e, s = e ++ r ∧ IsExponent e := by
  unfold skipExponentIfAny at h
  split at h
  · obtain ⟨sign, ds, rfl, hsign, hds⟩ := skipExponent_sound h
    exact ⟨101 :: (sign ++ ds), by simp, .digits (.inl rfl) hsign hds⟩
  · obtain ⟨sign, ds, rfl, hsign, hds⟩ := skipExponent_sound h
    exact ⟨69 :: (sign ++ ds), by simp, .digits (.inr rfl) hsign hds⟩
  · cases h
    exact ⟨[], rfl, .absent⟩

theorem IsExponent.skip {e r : Bytes} (he : IsExponent e) (hr : Ends r) : skipExponentIfAny (e ++ r) = .ok r := by
  cases he with
  | absent =>
    cases r with
    | nil => rfl
    | cons b r =>
      obtain ⟨-, -, hsmall, hlarge⟩ := hr.not_number
      unfold skipExponentIfAny
      split
      · rename_i h
        cases h
        exact absurd rfl hsmall
      · rename_i h
        cases h
        exact absurd rfl hlarge
      · rfl
  | @digits c sign s hc hsign hs =>
    have hskip := skipExponent_append hsign hs hr.undigited
    obtain rfl | rfl := hc <;> simpa [skipExponentIfAny] using hskip

/-- neither an exponent nor what ends a number goes on with a digit or a point -/
theorem IsExponent.front {e r : Bytes} (he : IsExponent e) (hr : Ends r) :
    ∀ b ∈ (e ++ r).head?, isDigit b = false ∧ b ≠ 46 := by
  intro b hb
  cases he with
  | absent =>
    cases r with
    | nil => cases hb
    | cons c r =>
      cases hb
      exact ⟨hr.not_number.1, hr.not_number.2.1⟩
  | digits hc hsign hs =>
    cases hb
    obtain rfl | rfl := hc <;> decide

theorem skipNumberTail_sound {s r : Bytes} (h : skipNumberTail s = .ok r) :
    ∃ f e, s = f ++ e ++ r ∧ IsFraction f ∧ IsExponent e := by
  by_cases hpoint : ∃ t, s = 46 :: t
  · obtain ⟨t, rfl⟩ := hpoint
    obtain ⟨hsplit, hall⟩ := digits_sound t
    rw [skipNumberTail_point] at h
    split at h
    · cases h
    · rename_i hsome
      obtain ⟨e, he, hexp⟩ := skipExponentIfAny_sound h
      refine ⟨46 :: (digits t).1, e, ?_, .digits ⟨by simpa using hsome, hall⟩, hexp⟩
      rw [List.append_assoc, List.cons_append, ← he, ← hsplit]
  · rw [skipNumberTail_pointless fun t ht => hpoint ⟨t, ht⟩] at h
    obtain ⟨e, rfl, he⟩ := skipExponentIfAny_sound h
    exact ⟨[], e, rfl, .absent, he⟩

theorem skipNumberTail_append {f e r : Bytes} (hf : IsFraction f) (he : IsExponent e) (hr : Ends r) :
    skipNumberTail (f ++ e ++ r) = .ok r := by
  have hfront := he.front hr
  cases hf with
  | absent =>
    rw [List.nil_append, skipNumberTail_pointless, he.skip hr]
    intro t ht
    rw [ht] at hfront
    exact (hfront 46 rfl).2 rfl
  | @digits ds hds =>
    rw [List.append_assoc, List.cons_append, skipNumberTail_point,
      digits_append hds.all fun b hb => (hfront b hb).1, if_neg (by simpa using hds.some), he.skip hr]

theorem skipNumber_sound {s r : Bytes} (h : skipNumber s = .ok r) : ∃ u, s = u ++ r ∧ IsUnsigned u := by
  unfold skipNumber at h
  split at h
  · cases h
  · rename_i b rest
    have htail : ∀ {t : Bytes} {i : Bytes}, skipNumberTail t = .ok r → IsInteger i →
        ∃ u, i ++ t = u ++ r ∧ IsUnsigned u := by
      intro t i ht hi
      obtain ⟨f, e, rfl, hf, he⟩ := skipNumberTail_sound ht
      exact ⟨i ++ (f ++ e), by simp, .parts hi hf he⟩
    split at h
    · rename_i hb
      subst hb
      split at h
      · split at h
        · cases h
        · exact htail h .zero
      · exact htail h .zero
    · rename_i hzero
      split at h
      · rename_i hb
        obtain ⟨hsplit, hall⟩ := digits_sound rest
        obtain ⟨u, hu, hun⟩ := htail h (.digits hb hzero hall)
        exact ⟨u, by rw [← hu, List.cons_append, ← hsplit], hun⟩
      · cases h

/-- neither a fraction nor what may follow it begins with a digit -/
theorem IsFraction.front {f e r : Bytes} (hf : IsFraction f) (he : IsExponent e) (hr : Ends r) :
    Undigited (f ++ e ++ r) := by
  intro b hb
  cases hf with
  | absent => exact (he.front hr b hb).1
  | digits hds =>
    cases hb
    decide

theorem IsUnsigned.skip {u r : Bytes} (hu : IsUnsigned u) (hr : Ends r) : skipNumber (u ++ r) = .ok r := by
  cases hu with
  | @parts i f e hi hf he =>
    have htail := skipNumberTail_append hf he hr
    have hfront := hf.front he hr
    rw [List.append_assoc]
    cases hi with
    | zero =>
      simp only [List.singleton_append, skipNumber, if_pos]
      split
      · rename_i c t ht
        rwa [ht, if_neg (by simp [hfront c (by rw [ht]; rfl)]), ← ht]
      · exact htail
    | @digits b s hb nonzero hs =>
      simp only [List.cons_append, skipNumber, if_neg nonzero, if_pos hb]
      rw [digits_append hs hfront, htail]

/-! ## Values that are not lists or objects -/

theorem IsUnsigned.head {u : Bytes} (hu : IsUnsigned u) : ∃ b t, u = b :: t ∧ isDigit b := by
  cases hu with
  | parts hi hf he =>
    cases hi with
    | zero => exact ⟨48, _, rfl, by decide⟩
    | digits hb nonzero hs => exact ⟨_, _, rfl, hb⟩

/-- a digit begins nothing but a number -/
theorem digit_ne {b c : UInt8} (hb : isDigit b) (hc : isDigit c = false) : b ≠ c := by
  rintro rfl
  rw [hb] at hc
  cases hc

/-- a reader that took something as a value -/
theorem of_map_some {x : Except Fault Bytes} {r : Bytes} (h : x.map some = .ok (some r)) : x = .ok r := by
  obtain ⟨_, hx, he⟩ := map_eq_ok h
  cases he
  exact hx

theorem skipScalar_sound {s r : Bytes} (h : skipScalar s = .ok (some r)) : ∃ v, s = v ++ r ∧ IsScalar v := by
  unfold skipScalar at h
  split at h
  · cases h
  · rename_i b rest
    split at h
    · rename_i hb
      exact ⟨_, by rw [hb, word_sound (of_map_some h)]; rfl, .null⟩
    split at h
    · rename_i hb
      exact ⟨_, by rw [hb, word_sound (of_map_some h)]; rfl, .true⟩
    split at h
    · rename_i hb
      exact ⟨_, by rw [hb, word_sound (of_map_some h)]; rfl, .false⟩
    split at h
    · rename_i hb
      obtain ⟨u, hu, hun⟩ := skipNumber_sound (of_map_some h)
      exact ⟨45 :: u, by rw [hb, hu]; rfl, .negative hun⟩
    split at h
    · obtain ⟨u, hu, hun⟩ := skipNumber_sound (of_map_some h)
      exact ⟨u, hu, .positive hun⟩
    split at h
    · rename_i hb
      obtain ⟨body, hbody, hs⟩ := skipString_sound (of_map_some h)
      exact ⟨34 :: (body ++ [34]), by rw [hb, hbody]; simp, .string hs⟩
    split at h <;> cases h

theorem IsScalar.skip {v r : Bytes} (hv : IsScalar v) (hr : Ends r) : skipScalar (v ++ r) = .ok (some r) := by
  cases hv with
  | null | true | false => simp [skipScalar, word_append, Except.map]
  | positive hu =>
    have hskip := hu.skip hr
    obtain ⟨b, t, rfl, hb⟩ := hu.head
    rw [List.cons_append] at hskip ⊢
    rw [skipScalar, if_neg (digit_ne hb (by decide)), if_neg (digit_ne hb (by decide)), if_neg (digit_ne hb (by decide)),
      if_neg (digit_ne hb (by decide)), if_pos hb, hskip]
    rfl
  | negative hu => simp [skipScalar, hu.skip hr, Except.map]
  | string hs => simp [skipScalar, isDigit, hs.skip, Except.map]

/-- a list or an object begins where no other value does -/
theorem skipScalar_frame {s : Bytes} (h : skipScalar s = .ok none) :
    ∃ (f : Frame) (rest : Bytes), s = f.opening :: rest := by
  have map_some : ∀ {x : Except Fault Bytes}, x.map some ≠ .ok none := by
    intro x h
    obtain ⟨_, -, he⟩ := map_eq_ok h
    cases he
  unfold skipScalar at h
  split at h
  · cases h
  · rename_i b rest
    repeat' split at h
    all_goals try exact absurd h map_some
    · rename_i hb
      simp only [Bool.or_eq_true, decide_eq_true_eq] at hb
      obtain rfl | rfl := hb
      · exact ⟨.list, rest, rfl⟩
      · exact ⟨.object, rest, rfl⟩
    · cases h

/-- nothing else begins like a list or an object -/
theorem skipScalar_opening (f : Frame) (s : Bytes) : skipScalar (f.opening :: s) = .ok none := by
  cases f <;> rfl

end SecureEndpoint.Json
