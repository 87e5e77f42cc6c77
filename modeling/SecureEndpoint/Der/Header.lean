/-
The header of an encoded value: class, form and number of its tag, and the length of its contents.

There is one reader of headers, and a `Dialect` for every set of rules that is in use: how a tag number that does not fit
into the first byte is read, which long lengths are allowed, and whether a value may leave its length open and end with a
mark instead. `Dialect.element` reads a whole value: its header, its contents, and what follows it.
-/

namespace SecureEndpoint.Der

/-- encoded bytes -/
abbrev Bytes := List UInt8

/-- the class of a tag -/
inductive TagClass where
  | universal
  | application
  | context
  | reserved
  deriving DecidableEq, Repr

/-- the class in the top two bits of a first byte -/
def TagClass.ofByte (b : UInt8) : TagClass :=
  match b.toNat / 64 with
  | 0 => .universal
  | 1 => .application
  | 2 => .context
  | _ => .reserved

/-- the header of a value -/
structure Header where
  tagClass : TagClass
  /-- the contents are values themselves -/
  constructed : Bool
  number : Nat
  /-- the number of bytes of the contents; none if they end with a mark -/
  length : Option Nat
  deriving DecidableEq, Repr

/-- the rules for headers that differ between readers -/
structure Dialect where
  /-- the number in the bytes that follow a first byte without room for it -/
  highTag : Bytes → Option Nat
  /-- the length in these bytes, when so many bytes follow them -/
  longLength : Bytes → Nat → Option Nat
  /-- constructed values may end with a mark -/
  openEnded : Bool

/-- the number that bytes stand for, the first one most significant -/
def bigEndian (s : Bytes) : Nat := s.foldl (fun n b => n * 256 + b.toNat) 0

/-- the number in groups of seven bits, the first group most significant -/
def base128 (s : Bytes) : Nat := s.foldl (fun n b => n * 128 + b.toNat % 128) 0

/-- the bytes up to the first one without its top bit, and the rest -/
def splitGroups : Bytes → Option (Bytes × Bytes)
  | [] => none
  | b :: rest =>
    if b < 128 then some ([b], rest)
    else match splitGroups rest with
      | some (groups, rest) => some (b :: groups, rest)
      | none => none

namespace Dialect

/-- the number of a tag, given its first byte -/
def tagNumber (d : Dialect) (b : UInt8) (s : Bytes) : Option (Nat × Bytes) :=
  if b.toNat % 32 ≠ 31 then some (b.toNat % 32, s)
  else match splitGroups s with
    | none => none
    | some (groups, rest) => (d.highTag groups).map fun n => (n, rest)

/-- the length of the contents -/
def length (d : Dialect) (constructed : Bool) (s : Bytes) : Option (Option Nat × Bytes) :=
  match s with
  | [] => none
  | b :: rest =>
    if b < 128 then some (some b.toNat, rest)
    else if b = 128 then
      if d.openEnded && constructed then some (none, rest) else none
    else
      let n := b.toNat - 128
      if rest.length < n then none
      else (d.longLength (rest.take n) (rest.length - n)).map fun l => (some l, rest.drop n)

/-- reads a header -/
def header (d : Dialect) (s : Bytes) : Option (Header × Bytes) :=
  match s with
  | [] => none
  | b :: rest =>
    let constructed := b.toNat / 32 % 2 == 1
    match d.tagNumber b rest with
    | none => none
    | some (number, rest) =>
      match d.length constructed rest with
      | none => none
      | some (length, rest) => some (⟨TagClass.ofByte b, constructed, number, length⟩, rest)

theorem splitGroups_length {s g r : Bytes} (h : splitGroups s = some (g, r)) : r.length < s.length := by
  induction s generalizing g r with
  | nil => cases h
  | cons b s ih =>
    simp only [splitGroups] at h
    split at h
    · cases h; simp
    · split at h
      · rename_i e
        cases h
        have := ih e
        simp; omega
      · cases h

theorem tagNumber_length {d : Dialect} {b : UInt8} {s r : Bytes} {n : Nat} (h : d.tagNumber b s = some (n, r)) :
    r.length ≤ s.length := by
  unfold tagNumber at h
  split at h
  · cases h; simp
  · split at h
    · cases h
    · rename_i g t e
      have := splitGroups_length e
      cases hn : d.highTag g with
      | none => rw [hn] at h; cases h
      | some k => rw [hn] at h; cases h; omega

theorem length_length {d : Dialect} {c : Bool} {s r : Bytes} {l : Option Nat} (h : d.length c s = some (l, r)) :
    r.length < s.length := by
  unfold length at h
  split at h
  · cases h
  · split at h
    · cases h; simp
    · split at h
      · split at h
        · cases h; simp
        · cases h
      · dsimp only at h
        split at h
        · cases h
        · rename_i b rest _ _ _
          cases hn : d.longLength (rest.take (b.toNat - 128)) (rest.length - (b.toNat - 128)) with
          | none => rw [hn] at h; cases h
          | some k => rw [hn] at h; cases h; simp only [List.length_drop, List.length_cons]; omega

/-- a header takes at least two bytes -/
theorem header_length {d : Dialect} {s r : Bytes} {x : Header} (h : d.header s = some (x, r)) :
    r.length + 2 ≤ s.length := by
  unfold header at h
  split at h
  · cases h
  · dsimp only at h
    split at h
    · cases h
    · rename_i e1
      split at h
      · cases h
      · rename_i e2
        cases h
        have := tagNumber_length e1
        have := length_length e2
        simp; omega

end Dialect

/-- the mark that ends a value whose length was left open: two zero bytes -/
def isEndMark : Bytes → Bool
  | 0 :: 0 :: _ => true
  | _ => false

/-- the bytes behind the mark that ends `pending` open values -/
def Dialect.behindEnd (d : Dialect) (pending : Nat) (s : Bytes) : Option Bytes :=
  match s with
  | [] => none
  | b :: rest =>
    if isEndMark (b :: rest) then
      if pending ≤ 1 then some (rest.drop 1) else d.behindEnd (pending - 1) (rest.drop 1)
    else match h : d.header (b :: rest) with
      | none => none
      | some (x, after) =>
        have := Dialect.header_length h
        match x.length with
        | none => d.behindEnd (pending + 1) after
        | some n => if after.length < n then none else d.behindEnd pending (after.drop n)
termination_by s.length
decreasing_by
  · simp only [List.length_drop, List.length_cons]; omega
  · simp only [List.length_cons] at this ⊢; omega
  · simp only [List.length_drop, List.length_cons] at this ⊢; omega

/-- a value: its header, its contents and its whole encoding -/
structure Element where
  header : Header
  contents : Bytes
  encoding : Bytes
  deriving DecidableEq, Repr

/-- reads a value and gives what follows it -/
def Dialect.element (d : Dialect) (s : Bytes) : Option (Element × Bytes) :=
  match d.header s with
  | none => none
  | some (x, after) =>
    match x.length with
    | some n =>
      if after.length < n then none
      else some (⟨x, after.take n, s.take (s.length - (after.length - n))⟩, after.drop n)
    | none =>
      match d.behindEnd 1 after with
      | none => none
      | some rest => some (⟨x, after.take (after.length - rest.length - 2), s.take (s.length - rest.length)⟩, rest)

theorem Dialect.behindEnd_length {d : Dialect} {n : Nat} {s r : Bytes} (h : d.behindEnd n s = some r) :
    r.length ≤ s.length := by
  fun_induction Dialect.behindEnd d n s with
  | case1 => cases h
  | case2 => cases h; simp; omega
  | case3 _ _ _ _ _ ih => have := ih h; simp at this ⊢; omega
  | case4 => cases h
  | case5 _ _ _ _ _ _ _ hl _ ih => have h2 := ih h; simp at hl ⊢; omega
  | case6 => cases h
  | case7 _ _ _ _ _ _ _ hl _ _ _ ih => have h2 := ih h; simp at hl h2 ⊢; omega

theorem Dialect.element_length {d : Dialect} {s r : Bytes} {e : Element} (h : d.element s = some (e, r)) :
    r.length < s.length := by
  unfold Dialect.element at h
  split at h
  · cases h
  · rename_i e1
    have h1 := header_length e1
    split at h
    · split at h
      · cases h
      · cases h; simp; omega
    · split at h
      · cases h
      · rename_i e2
        have h2 := behindEnd_length e2
        cases h
        omega

/-- reads values to the end of the bytes -/
def Dialect.elements (d : Dialect) (s : Bytes) : Option (List Element) :=
  match s with
  | [] => some []
  | b :: rest =>
    match h : d.element (b :: rest) with
    | none => none
    | some (e, after) =>
      have := Dialect.element_length h
      (d.elements after).map (e :: ·)
termination_by s.length
decreasing_by assumption

/-! ## The dialects -/

/-- tag numbers below 2^31, lengths of up to eight bytes behind any number of zeros; values may leave their length open -/
def lenient : Dialect where
  highTag groups := if base128 groups < Nat.pow 2 31 then some (base128 groups) else none
  longLength bytes after :=
    if after = 0 then none
    else
      let significant := bytes.dropWhile (· = 0)
      if 8 < significant.length || Nat.pow 2 63 ≤ bigEndian significant then none else some (bigEndian significant)
  openEnded := true

/-- tag numbers of up to five bytes, of which 32 bits count; lengths below 2^64 in up to 126 bytes -/
def strict : Dialect where
  highTag groups := if groups.length ≤ 5 then some (base128 groups % Nat.pow 2 32) else none
  longLength bytes _ :=
    if bytes.length = 127 || Nat.pow 2 64 ≤ bigEndian bytes then none else some (bigEndian bytes)
  openEnded := false

/-- like `strict`, but values may leave their length open -/
def strictOpen : Dialect := { strict with openEnded := true }

/-- no large tag numbers, and the shortest form of a length, in at most `most` bytes behind the first -/
def canonicalUpTo (most : Nat) : Dialect where
  highTag _ := none
  longLength bytes _ :=
    let n := bigEndian bytes
    if most < bytes.length then none
    else if n < (if bytes.length = 1 then 128 else Nat.pow 256 (bytes.length - 1)) then none
    else some n
  openEnded := false

namespace Canonical

/-! The first bytes of values whose tags have one byte -/

def booleanTag : UInt8 := 0x01
def integerTag : UInt8 := 0x02
def bitsTag : UInt8 := 0x03
def bytesTag : UInt8 := 0x04
def objectIdTag : UInt8 := 0x06
def sequenceTag : UInt8 := 0x30

/-- the first byte of a value made of others whose meaning depends on the place -/
def contextTag (n : UInt8) : UInt8 := 0xa0 + n

end Canonical

/-- the contents of a value with this first byte -/
def Dialect.contentsOf (d : Dialect) (first : UInt8) (s : Bytes) : Option (Bytes × Bytes) :=
  match d.element s with
  | some (e, rest) => if s.head? = some first then some (e.contents, rest) else none
  | none => none

/-- the contents of a value with this first byte that fills the bytes -/
def Dialect.whole (d : Dialect) (first : UInt8) (s : Bytes) : Option Bytes :=
  match d.contentsOf first s with
  | some (contents, []) => some contents
  | _ => none

end SecureEndpoint.Der
