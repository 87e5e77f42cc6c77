/-
Reading the parts of a JSON document from the bytes of a text.

A reader takes the bytes that are left and gives what it read with the bytes that are left after it, or a `Fault`. A
fault says what is wrong and how many bytes were left at that place; `Fault.place` turns that into a line and a column,
both counted in bytes. A fault at the next byte is placed behind that byte (`Fault.next`), one at the last byte that
was read behind that one (`Fault.here`).

Strings must be closed, hold no control characters and no lone surrogates. Numbers have no leading zeros. A number that
fits neither the unsigned nor the signed 64-bit integers is a double.
-/
import SecureEndpoint.Text.Quoted
import SecureEndpoint.Number.Shortest

namespace SecureEndpoint.Json

/-- the bytes of a text -/
abbrev Bytes := List UInt8

/-- a number of a document -/
inductive Num where
  | natural (n : Nat)
  /-- a negative integer -/
  | negative (i : Int)
  | double (f : Float)

/-- the value that was found where another one was expected -/
inductive Found where
  | null
  | bool (b : Bool)
  | number (n : Num)
  | text (s : String)
  | sequence
  | map

/-- what can be wrong with a document -/
inductive Cause where
  | eofInList
  | eofInObject
  | eofInString
  | eofInValue
  | expectedColon
  | expectedListCommaOrEnd
  | expectedObjectCommaOrEnd
  | expectedIdent
  | expectedValue
  | invalidEscape
  | invalidNumber
  | numberOutOfRange
  | loneSurrogate
  | endOfHexEscape
  | controlCharacter
  | keyMustBeString
  | trailingComma
  | trailingCharacters
  /-- a value of another type than expected -/
  | wrongType (found : Found) (expected : String)
  /-- a value of the expected type that is out of range -/
  | wrongValue (found : Found) (expected : String)
  | tooShort (length : Nat) (expected : String)
  | missingField (name : String)
  | duplicateField (name : String)

/-- doubles are written positionally from 10^-5 to 10^15 -/
def doubleFormat : Number.DecimalFormat := ⟨(-5, 15)⟩

/-- how a value is described that was found in the wrong place -/
def Found.message : Found → String
  | .null => "null"
  | .bool b => "boolean `" ++ toString b ++ "`"
  | .number (.natural n) => "integer `" ++ toString n ++ "`"
  | .number (.negative i) => "integer `" ++ toString i ++ "`"
  | .number (.double f) => "floating point `" ++ doubleFormat.text f ++ "`"
  | .text s => "string " ++ Text.quote s
  | .sequence => "sequence"
  | .map => "map"

/-- the wording of what is wrong -/
def Cause.message : Cause → String
  | .eofInList => "EOF while parsing a list"
  | .eofInObject => "EOF while parsing an object"
  | .eofInString => "EOF while parsing a string"
  | .eofInValue => "EOF while parsing a value"
  | .expectedColon => "expected `:`"
  | .expectedListCommaOrEnd => "expected `,` or `]`"
  | .expectedObjectCommaOrEnd => "expected `,` or `\x7d`"
  | .expectedIdent => "expected ident"
  | .expectedValue => "expected value"
  | .invalidEscape => "invalid escape"
  | .invalidNumber => "invalid number"
  | .numberOutOfRange => "number out of range"
  | .loneSurrogate => "lone leading surrogate in hex escape"
  | .endOfHexEscape => "unexpected end of hex escape"
  | .controlCharacter => "control character (\\u0000-\\u001F) found while parsing a string"
  | .keyMustBeString => "key must be a string"
  | .trailingComma => "trailing comma"
  | .trailingCharacters => "trailing characters"
  | .wrongType found expected => "invalid type: " ++ found.message ++ ", expected " ++ expected
  | .wrongValue found expected => "invalid value: " ++ found.message ++ ", expected " ++ expected
  | .tooShort n expected => "invalid length " ++ toString n ++ ", expected " ++ expected
  | .missingField name => "missing field `" ++ name ++ "`"
  | .duplicateField name => "duplicate field `" ++ name ++ "`"

/-- something wrong at a place of the document -/
structure Fault where
  cause : Cause
  /-- the bytes that were left at the place -/
  left : Nat

namespace Fault

/-- wrong behind the last byte that was read -/
def here {α : Type} (c : Cause) (rest : Bytes) : Except Fault α := .error ⟨c, rest.length⟩

/-- wrong at the next byte, if there is one -/
def next {α : Type} (c : Cause) (rest : Bytes) : Except Fault α := .error ⟨c, rest.length - 1⟩

/-- line and column of the place: lines count from one, columns from zero -/
def place (text : Bytes) (f : Fault) : Nat × Nat :=
  (text.take (text.length - f.left)).foldl (fun p b => if b = 10 then (p.1 + 1, 0) else (p.1, p.2 + 1)) (1, 0)

/-- the wording of a fault of a document -/
def message (text : Bytes) (f : Fault) : String :=
  let p := f.place text
  f.cause.message ++ " at line " ++ toString p.1 ++ " column " ++ toString p.2

end Fault

/-! ## Blanks and words -/

/-- a space, a tab or a line end -/
def isBlank (b : UInt8) : Bool := b = 32 || b = 10 || b = 9 || b = 13

def isDigit (b : UInt8) : Bool := 48 ≤ b && b ≤ 57

def skipBlanks (s : Bytes) : Bytes := s.dropWhile isBlank

/-- reads the rest of a word whose first letter was read -/
def word (rest : Bytes) (s : Bytes) : Except Fault Bytes :=
  match rest, s with
  | [], s => .ok s
  | _ :: _, [] => Fault.here .eofInValue []
  | e :: es, b :: bs => if b = e then word es bs else Fault.here .expectedIdent bs

/-- the letters of null, true and false that follow the first -/
def nullTail : Bytes := [117, 108, 108]
def trueTail : Bytes := [114, 117, 101]
def falseTail : Bytes := [97, 108, 115, 101]

/-! ## Strings -/

/-- the value of a hexadecimal digit -/
def hexValue? (b : UInt8) : Option Nat :=
  if 48 ≤ b && b ≤ 57 then some (b.toNat - 48)
  else if 97 ≤ b && b ≤ 102 then some (b.toNat - 87)
  else if 65 ≤ b && b ≤ 70 then some (b.toNat - 55)
  else none

/-- four hexadecimal digits -/
def fourHex (s : Bytes) : Except Fault (Nat × Bytes) :=
  match s with
  | a :: b :: c :: d :: rest =>
    match hexValue? a, hexValue? b, hexValue? c, hexValue? d with
    | some a, some b, some c, some d => .ok (((a * 16 + b) * 16 + c) * 16 + d, rest)
    | _, _, _, _ => Fault.here .invalidEscape rest
  | _ => Fault.here .eofInString []

/-- the bytes of a code point -/
def utf8 (n : Nat) : Bytes := (String.singleton (Char.ofNat n)).toUTF8.toList

/-- the second half of a surrogate pair, which must follow -/
def lowSurrogate (high : Nat) (s : Bytes) : Except Fault (Nat × Bytes) :=
  match s with
  | [] => Fault.here .eofInString []
  | b :: s =>
    if b ≠ 92 then Fault.here .endOfHexEscape s else
    match s with
    | [] => Fault.here .eofInString []
    | b :: s =>
      if b ≠ 117 then Fault.here .endOfHexEscape s else
      match fourHex s with
      | .error f => .error f
      | .ok (low, s) =>
        if low < 0xDC00 || 0xDFFF < low then Fault.here .loneSurrogate s
        else .ok (0x10000 + (high - 0xD800) * 0x400 + (low - 0xDC00), s)

/-- the code point of a hexadecimal escape -/
def hexEscape (s : Bytes) : Except Fault (Nat × Bytes) :=
  match fourHex s with
  | .error f => .error f
  | .ok (n, s) =>
    if 0xDC00 ≤ n && n ≤ 0xDFFF then Fault.here .loneSurrogate s
    else if 0xD800 ≤ n && n ≤ 0xDBFF then lowSurrogate n s
    else .ok (n, s)

/-- what a letter stands for behind a backslash -/
def shortEscape? (b : UInt8) : Option UInt8 :=
  match b with
  | 34 => some 34
  | 92 => some 92
  | 47 => some 47
  | 98 => some 8
  | 102 => some 12
  | 110 => some 10
  | 114 => some 13
  | 116 => some 9
  | _ => none

/-- what follows a backslash -/
def escape (s : Bytes) : Except Fault (Bytes × Bytes) :=
  match s with
  | [] => Fault.here .eofInString []
  | b :: rest =>
    match shortEscape? b with
    | some c => .ok ([c], rest)
    | none =>
      if b = 117 then
        match hexEscape rest with
        | .ok (n, rest) => .ok (utf8 n, rest)
        | .error f => .error f
      else Fault.here .invalidEscape rest

theorem fourHex_length {s : Bytes} {n : Nat} {r : Bytes} (h : fourHex s = .ok (n, r)) : r.length < s.length := by
  unfold fourHex at h
  split at h
  · split at h
    · cases h; simp; omega
    · cases h
  · cases h

theorem lowSurrogate_length {k : Nat} {s : Bytes} {n : Nat} {r : Bytes} (h : lowSurrogate k s = .ok (n, r)) :
    r.length < s.length := by
  unfold lowSurrogate at h
  split at h
  · cases h
  · split at h
    · cases h
    · split at h
      · cases h
      · split at h
        · cases h
        · split at h
          · cases h
          · rename_i low s e
            have := fourHex_length e
            split at h
            · cases h
            · obtain rfl := (Prod.mk.inj (Except.ok.inj h)).2
              simp; omega

theorem hexEscape_length {s : Bytes} {n : Nat} {r : Bytes} (h : hexEscape s = .ok (n, r)) : r.length < s.length := by
  unfold hexEscape at h
  split at h
  · cases h
  · rename_i m t e
    have := fourHex_length e
    split at h
    · cases h
    · split at h
      · have := lowSurrogate_length h; omega
      · cases h; assumption

theorem escape_length {s b r : Bytes} (h : escape s = .ok (b, r)) : r.length < s.length := by
  unfold escape at h
  split at h
  · cases h
  · split at h
    · cases h; simp
    · split at h
      · split at h
        · cases h
          rename_i e
          have := hexEscape_length e
          simp; omega
        · cases h
      · cases h

/-- the contents of a string whose opening mark was read, up to and with the closing mark; `read` holds the bytes read
so far, the last one first -/
def stringTail (read : Bytes) (s : Bytes) : Except Fault (Bytes × Bytes) :=
  match s with
  | [] => Fault.here .eofInString []
  | b :: rest =>
    if b = 34 then .ok (read.reverse, rest)
    else if b = 92 then
      match h : escape rest with
      | .error f => .error f
      | .ok (bytes, after) =>
        have := escape_length h
        stringTail (bytes.reverse ++ read) after
    else if b < 32 then Fault.here .controlCharacter rest
    else stringTail (b :: read) rest
termination_by s.length

/-- what follows a backslash in a string that is passed over: surrogates need not be in pairs -/
def skipEscape (s : Bytes) : Except Fault Bytes :=
  match s with
  | [] => Fault.here .eofInString []
  | b :: rest =>
    if (shortEscape? b).isSome then .ok rest
    else if b = 117 then
      match fourHex rest with
      | .ok (_, rest) => .ok rest
      | .error f => .error f
    else Fault.here .invalidEscape rest

theorem skipEscape_length {s r : Bytes} (h : skipEscape s = .ok r) : r.length < s.length := by
  unfold skipEscape at h
  split at h
  · cases h
  · split at h
    · cases h; simp
    · split at h
      · split at h
        · cases h
          rename_i e
          have := fourHex_length e
          simp; omega
        · cases h
      · cases h

/-- passes over a string whose opening mark was read -/
def skipString (s : Bytes) : Except Fault Bytes :=
  match s with
  | [] => Fault.here .eofInString []
  | b :: rest =>
    if b = 34 then .ok rest
    else if b = 92 then
      match h : skipEscape rest with
      | .error f => .error f
      | .ok after =>
        have := skipEscape_length h
        skipString after
    else if b < 32 then Fault.here .controlCharacter s
    else skipString rest
termination_by s.length

/-- the text of the bytes of a string -/
def textOf (bytes : Bytes) : String := (String.fromUTF8? ⟨bytes.toArray⟩).getD ""

/-! ## Numbers -/

/-- the largest unsigned 64-bit integer -/
def maxNatural : Nat := Nat.pow 2 64 - 1

/-- a power of ten up to 10^308, none above -/
def powerOfTen? (n : Nat) : Option Float := if n ≤ 308 then some (Float.ofScientific 1 false n) else none

/-- `f * 10 ^ exponent` for a large negative exponent: divides by 10^308 until the rest fits -/
def shrink (f : Float) (n : Nat) : Float :=
  if n ≤ 308 then f / Float.ofScientific 1 false n
  else if f == 0.0 then f
  else shrink (f / Float.ofScientific 1 false 308) (n - 308)
termination_by n

/-- `significand * 10 ^ exponent`, with one rounding for each operation; none where it overflows -/
def scaled? (significand : Nat) (exponent : Int) : Option Float :=
  let f := (UInt64.ofNat significand).toFloat
  if exponent < 0 then some (shrink f exponent.natAbs)
  else match powerOfTen? exponent.toNat with
    | some p => let r := f * p; if r.isInf then none else some r
    | none => if f == 0.0 then some f else none

/-- the double with these parts, at the end of its text -/
def doubleOf (positive : Bool) (significand : Nat) (exponent : Int) (rest : Bytes) : Except Fault (Float × Bytes) :=
  match scaled? significand exponent with
  | some f => .ok (if positive then f else -f, rest)
  | none => Fault.here .numberOutOfRange rest

/-- the largest exponent that is told apart from larger ones -/
def maxExponent : Nat := Nat.pow 2 31 - 1

/-- the digits at the front, and the rest -/
def digits (s : Bytes) : Bytes × Bytes := (s.takeWhile isDigit, s.dropWhile isDigit)

/-- the number that digits stand for -/
def valueOf (ds : Bytes) : Nat := ds.foldl (fun n d => n * 10 + (d.toNat - 48)) 0

/-- takes digits into a significand as long as it fits: the significand, how many were taken, those left -/
def accumulate (significand : Nat) (ds : Bytes) : Nat × Nat × Bytes :=
  match ds with
  | [] => (significand, 0, [])
  | d :: rest =>
    let n := significand * 10 + (d.toNat - 48)
    if maxNatural < n then (significand, 0, d :: rest)
    else let (m, taken, left) := accumulate n rest; (m, taken + 1, left)

/-- the digits of an exponent and the double they complete -/
def exponentDigits (positive : Bool) (significand : Nat) (start : Int) (up : Bool) (s : Bytes) :
    Except Fault (Float × Bytes) :=
  match s with
  | [] => Fault.here .eofInValue []
  | b :: rest =>
    if !isDigit b then Fault.here .invalidNumber rest else
    let (ds, after) := digits (b :: rest)
    -- the digits that keep the exponent within range
    let fitting := (List.range (ds.length + 1)).takeWhile fun k => valueOf (ds.take k) ≤ maxExponent
    if fitting.length = ds.length + 1 then
      let e : Int := valueOf ds
      doubleOf positive significand (if up then start + e else start - e) after
    else if significand ≠ 0 && up then Fault.here .numberOutOfRange ((b :: rest).drop fitting.length)
    else .ok (if positive then 0.0 else -0.0, after)

/-- an exponent, behind its letter -/
def exponentTail (positive : Bool) (significand : Nat) (start : Int) (s : Bytes) : Except Fault (Float × Bytes) :=
  match s with
  | 43 :: r => exponentDigits positive significand start true r
  | 45 :: r => exponentDigits positive significand start false r
  | _ => exponentDigits positive significand start true s

/-- what follows the point of a number -/
def fractionTail (positive : Bool) (significand : Nat) (before : Int) (s : Bytes) : Except Fault (Float × Bytes) :=
  if (digits s).1.isEmpty then
    match (digits s).2 with
    | [] => Fault.next .eofInValue []
    | after => Fault.next .invalidNumber after
  else
    let (m, taken, _) := accumulate significand (digits s).1
    match (digits s).2 with
    | 101 :: r | 69 :: r => exponentTail positive m (before - taken) r
    | after => doubleOf positive m (before - taken) after

/-- a double as a number -/
def asDouble (r : Except Fault (Float × Bytes)) : Except Fault (Num × Bytes) :=
  match r with
  | .ok (f, rest) => .ok (.double f, rest)
  | .error e => .error e

/-- what follows the integer part of a number whose last `dropped` digits did not fit -/
def numberTail (positive : Bool) (significand : Nat) (dropped : Nat) (s : Bytes) : Except Fault (Num × Bytes) :=
  match s with
  | 46 :: r => asDouble (fractionTail positive significand dropped r)
  | 101 :: r | 69 :: r => asDouble (exponentTail positive significand dropped r)
  | _ =>
    if dropped ≠ 0 then asDouble (doubleOf positive significand dropped s)
    else if positive then .ok (.natural significand, s)
    else if significand = 0 || Nat.pow 2 63 < significand then
      .ok (.double (-(UInt64.ofNat significand).toFloat), s)
    else .ok (.negative (-(significand : Int)), s)

/-- a number, behind its sign -/
def number (positive : Bool) (s : Bytes) : Except Fault (Num × Bytes) :=
  match s with
  | [] => Fault.here .eofInValue []
  | b :: rest =>
    if b = 48 then
      match rest with
      | c :: _ => if isDigit c then Fault.next .invalidNumber rest else numberTail positive 0 0 rest
      | [] => numberTail positive 0 0 rest
    else if isDigit b then
      let (m, _, left) := accumulate 0 (digits (b :: rest)).1
      numberTail positive m left.length (digits (b :: rest)).2
    else Fault.here .invalidNumber rest

/-- passes over the digits of an exponent -/
def skipExponentDigits (s : Bytes) : Except Fault Bytes :=
  match s with
  | [] => Fault.here .invalidNumber []
  | b :: rest => if isDigit b then .ok (digits rest).2 else Fault.here .invalidNumber rest

/-- passes over an exponent, behind its letter -/
def skipExponent (s : Bytes) : Except Fault Bytes :=
  match s with
  | 43 :: r => skipExponentDigits r
  | 45 :: r => skipExponentDigits r
  | _ => skipExponentDigits s

/-- passes over what follows the integer part of a number -/
def skipNumberTail (s : Bytes) : Except Fault Bytes :=
  match s with
  | 46 :: r =>
    if (digits r).1.isEmpty then Fault.next .invalidNumber (digits r).2
    else match (digits r).2 with
      | 101 :: r | 69 :: r => skipExponent r
      | after => .ok after
  | 101 :: r | 69 :: r => skipExponent r
  | _ => .ok s

/-- passes over a number, behind its sign -/
def skipNumber (s : Bytes) : Except Fault Bytes :=
  match s with
  | [] => Fault.here .invalidNumber []
  | b :: rest =>
    if b = 48 then
      match rest with
      | c :: _ => if isDigit c then Fault.next .invalidNumber rest else skipNumberTail rest
      | [] => skipNumberTail rest
    else if isDigit b then skipNumberTail (digits rest).2
    else Fault.here .invalidNumber rest

/-! ## What is left is shorter -/

theorem dropWhile_length_le {α : Type} (p : α → Bool) (s : List α) : (s.dropWhile p).length ≤ s.length := by
  induction s with
  | nil => simp
  | cons b s ih =>
    simp only [List.dropWhile]
    split
    · simp only [List.length_cons]; omega
    · exact Nat.le_refl _

theorem skipBlanks_length_le (s : Bytes) : (skipBlanks s).length ≤ s.length := dropWhile_length_le ..

theorem digits_length_le (s : Bytes) : (digits s).2.length ≤ s.length := dropWhile_length_le ..

theorem word_length_le {e s r : Bytes} (h : word e s = .ok r) : r.length ≤ s.length := by
  induction e generalizing s with
  | nil => simp [word] at h; simp [h]
  | cons b e ih =>
    cases s with
    | nil => cases h
    | cons c s =>
      simp only [word] at h
      split at h
      · have := ih h; simp; omega
      · cases h

theorem stringTail_length_lt {read s b r : Bytes} (h : stringTail read s = .ok (b, r)) : r.length < s.length := by
  fun_induction stringTail read s with
  | case1 => cases h
  | case2 => cases h; simp
  | case3 => cases h
  | case4 read rest _ bytes after e this ih => have := ih h; simp; omega
  | case5 => cases h
  | case6 read b rest _ _ _ ih => have := ih h; simp; omega

theorem skipString_length_lt {s r : Bytes} (h : skipString s = .ok r) : r.length < s.length := by
  fun_induction skipString s with
  | case1 => cases h
  | case2 => cases h; simp
  | case3 => cases h
  | case4 rest _ after e this ih => have := ih h; simp; omega
  | case5 => cases h
  | case6 b rest _ _ _ ih => have := ih h; simp; omega

theorem doubleOf_rest {p : Bool} {m : Nat} {e : Int} {s r : Bytes} {f : Float} (h : doubleOf p m e s = .ok (f, r)) :
    r = s := by
  unfold doubleOf at h
  split at h
  · cases h; rfl
  · cases h

theorem exponentTail_length_le {p : Bool} {m : Nat} {e : Int} {s r : Bytes} {f : Float}
    (h : exponentTail p m e s = .ok (f, r)) : r.length ≤ s.length := by
  have finish : ∀ (up : Bool) (t : Bytes), exponentDigits p m e up t = .ok (f, r) → r.length ≤ t.length := by
    intro up t h
    unfold exponentDigits at h
    split at h
    · cases h
    · split at h
      · cases h
      · dsimp only at h
        split at h
        · obtain rfl := doubleOf_rest h; exact digits_length_le _
        · split at h
          · cases h
          · cases h; exact digits_length_le _
  unfold exponentTail at h
  split at h
  · have := finish _ _ h; simp; omega
  · have := finish _ _ h; simp; omega
  · exact finish _ _ h

theorem fractionTail_length_le {p : Bool} {m : Nat} {e : Int} {s r : Bytes} {f : Float}
    (h : fractionTail p m e s = .ok (f, r)) : r.length ≤ s.length := by
  unfold fractionTail at h
  have hd := digits_length_le s
  split at h
  · split at h <;> cases h
  · dsimp only at h
    split at h
    · rename_i e; have := exponentTail_length_le h; simp [e] at hd; omega
    · rename_i e; have := exponentTail_length_le h; simp [e] at hd; omega
    · obtain rfl := doubleOf_rest h; assumption

theorem numberTail_length_le {p : Bool} {m d : Nat} {s r : Bytes} {n : Num}
    (h : numberTail p m d s = .ok (n, r)) : r.length ≤ s.length := by
  have as_double : ∀ {x : Except Fault (Float × Bytes)}, asDouble x = .ok (n, r) → ∃ f, x = .ok (f, r) := by
    intro x h
    cases x with
    | error => cases h
    | ok v => cases h; exact ⟨_, rfl⟩
  unfold numberTail at h
  split at h
  · obtain ⟨_, h⟩ := as_double h; have := fractionTail_length_le h; simp; omega
  · obtain ⟨_, h⟩ := as_double h; have := exponentTail_length_le h; simp; omega
  · obtain ⟨_, h⟩ := as_double h; have := exponentTail_length_le h; simp; omega
  · split at h
    · obtain ⟨_, h⟩ := as_double h; obtain rfl := doubleOf_rest h; simp
    · split at h
      · cases h; simp
      · split at h <;> cases h <;> simp

theorem number_length_lt {p : Bool} {s r : Bytes} {n : Num} (h : number p s = .ok (n, r)) : r.length < s.length := by
  unfold number at h
  split at h
  · cases h
  · rename_i b rest
    split at h
    · split at h
      · split at h
        · cases h
        · have := numberTail_length_le h; simp at this ⊢; omega
      · have := numberTail_length_le h; simp at this ⊢; omega
    · split at h
      · rename_i hb
        have h1 := numberTail_length_le h
        have h2 : (digits (b :: rest)).2 = (digits rest).2 := by simp [digits, List.dropWhile, hb]
        have h3 := digits_length_le rest
        rw [h2] at h1
        simp; omega
      · cases h

theorem skipExponent_length_lt {s r : Bytes} (h : skipExponent s = .ok r) : r.length < s.length := by
  have finish : ∀ t : Bytes, skipExponentDigits t = .ok r → r.length < t.length := by
    intro t h
    unfold skipExponentDigits at h
    split at h
    · cases h
    · split at h
      · cases h
        rename_i b rest _
        have := digits_length_le rest
        simp; omega
      · cases h
  unfold skipExponent at h
  split at h
  · have := finish _ h; simp; omega
  · have := finish _ h; simp; omega
  · exact finish _ h

theorem skipNumberTail_length_le {s r : Bytes} (h : skipNumberTail s = .ok r) : r.length ≤ s.length := by
  unfold skipNumberTail at h
  split at h
  · rename_i t
    have hd := digits_length_le t
    split at h
    · cases h
    · split at h
      · rename_i e; have := skipExponent_length_lt h; simp [e] at hd; simp; omega
      · rename_i e; have := skipExponent_length_lt h; simp [e] at hd; simp; omega
      · cases h; simp; omega
  · have := skipExponent_length_lt h; simp; omega
  · have := skipExponent_length_lt h; simp; omega
  · cases h; simp

theorem skipNumber_length_lt {s r : Bytes} (h : skipNumber s = .ok r) : r.length < s.length := by
  unfold skipNumber at h
  split at h
  · cases h
  · rename_i b rest
    split at h
    · split at h
      · split at h
        · cases h
        · have := skipNumberTail_length_le h; simp at this ⊢; omega
      · have := skipNumberTail_length_le h; simp at this ⊢; omega
    · split at h
      · have := skipNumberTail_length_le h
        have := digits_length_le rest
        simp; omega
      · cases h

end SecureEndpoint.Json
