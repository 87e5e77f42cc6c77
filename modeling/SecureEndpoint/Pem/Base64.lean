/-
Bytes written in base64, four characters for three bytes.

Two readers differ in what they make of padding and of characters outside the alphabet. `decodeOptional` lets the padding
be left out but refuses every foreign character except blanks; `decodeRequired` wants whole groups of four, and a hyphen
ends the text for it.
-/
import SecureEndpoint.Der.Header

namespace SecureEndpoint.Pem

open Der (Bytes)

/-- the value of a character of the alphabet -/
def sextet? (b : UInt8) : Option Nat :=
  let n := b.toNat
  if 65 ≤ n ∧ n ≤ 90 then some (n - 65)
  else if 97 ≤ n ∧ n ≤ 122 then some (n - 71)
  else if 48 ≤ n ∧ n ≤ 57 then some (n + 4)
  else if n = 43 then some 62
  else if n = 47 then some 63
  else none

/-- the padding character -/
def pad : UInt8 := 61

/-- the hyphen -/
def hyphen : UInt8 := 45

/-- the bytes of a list of values; what is left behind the last whole byte is dropped -/
def ofSextets : List Nat → Bytes
  | a :: b :: c :: d :: rest =>
    UInt8.ofNat (a * 4 + b / 16) :: UInt8.ofNat (b % 16 * 16 + c / 4) :: UInt8.ofNat (c % 4 * 64 + d) :: ofSextets rest
  | [a, b, c] => [UInt8.ofNat (a * 4 + b / 16), UInt8.ofNat (b % 16 * 16 + c / 4)]
  | [a, b] => [UInt8.ofNat (a * 4 + b / 16)]
  | _ => []

/-- why a text is not base64 -/
inductive Base64Error where
  /-- a character outside the alphabet -/
  | foreign (b : UInt8)
  /-- padding in front of the last group of four -/
  | early
  /-- a last group that is incomplete or has padding in the wrong place -/
  | last
  deriving DecidableEq, Repr

/-- the text of an error -/
def Base64Error.message : Base64Error → String
  | .foreign b => "InvalidCharacter(" ++ toString b.toNat ++ ")"
  | .early => "PrematurePadding"
  | .last => "InvalidTrailingPadding"

/-! ## Padding may be left out -/

/-- characters that are passed over: the blanks from tab to carriage return, and the space -/
def isBlank (b : UInt8) : Bool := (9 ≤ b.toNat && b.toNat ≤ 13) || b == 32

/-- the bytes of the last group; none in it stands for padding -/
def lastGroup (group : List (Option Nat)) : Except Base64Error Bytes :=
  let values := group.filterMap id
  let pads := group.length - values.length
  if group.take values.length ≠ values.map some then .error .last
  else match values.length, pads with
    | 0, 0 | 2, 0 | 2, 2 | 3, 0 | 3, 1 | 4, 0 => .ok (ofSextets values)
    | _, _ => .error .last

/-- the bytes of the last eight characters or fewer -/
def lastGroups (group : List (Option Nat)) : Except Base64Error Bytes :=
  if group.length ≤ 4 then lastGroup group
  else if (group.take 4).any Option.isNone then .error .early
  else (lastGroup (group.drop 4)).map (ofSextets ((group.take 4).filterMap id) ++ ·)

/-- reads characters behind a group of at most eight -/
def decodeBehind (group : List (Option Nat)) : Bytes → Except Base64Error Bytes
  | [] => lastGroups group
  | b :: rest =>
    if isBlank b then decodeBehind group rest
    else if (sextet? b).isNone && b != pad then .error (.foreign b)
    else if group.length < 8 then decodeBehind (group ++ [sextet? b]) rest
    else if group.any Option.isNone then .error .early
    else (decodeBehind [sextet? b] rest).map (ofSextets (group.filterMap id) ++ ·)

/-- the bytes of a text whose padding may be left out -/
def decodeOptional (s : Bytes) : Except Base64Error Bytes := decodeBehind [] s

/-! ## Padding is required -/

/-- the values up to a hyphen or the end, the number of padding characters behind them, and whether a hyphen came -/
def collectValues (values : List Nat) (pads : Nat) : Bytes → Option (List Nat × Nat)
  | [] => if (values.length + pads) % 4 = 0 then some (values.reverse, pads) else none
  | b :: rest =>
    if b == 32 || b == 9 || b == 10 || b == 13 then collectValues values pads rest
    else if b == hyphen then if (values.length + pads) % 4 = 0 then some (values.reverse, pads) else none
    else if b == pad then if 2 ≤ pads then none else collectValues values (pads + 1) rest
    else match sextet? b with
      | some v => if 0 < pads then none else collectValues (v :: values) 0 rest
      | none => none

/-- the bytes of a text in whole groups of four, of which there is at least one -/
def decodeRequired (s : Bytes) : Option Bytes :=
  match collectValues [] 0 s with
  | some (v :: values, _) => some (ofSextets (v :: values))
  | _ => none

end SecureEndpoint.Pem
