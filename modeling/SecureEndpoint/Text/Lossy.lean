/-
Bytes shown as text.

Bytes that are UTF-8 are shown as their characters. Where they are not, every longest piece that begins a character
without finishing it, and every single byte that begins none, is shown as one replacement character.
-/

namespace SecureEndpoint.Text

/-- stands for bytes that are not text -/
def replacement : Char := '\ufffd'

/-- a character that has begun: the bits read, the number of bytes to come and the range of the next of them -/
structure Begun where
  bits : Nat
  missing : Nat
  low : Nat := 0x80
  high : Nat := 0xbf

/-- what a first byte gives: characters to show, and a character that it begins -/
def first (b : UInt8) : List Char × Option Begun :=
  let n := b.toNat
  if n < 0x80 then ([Char.ofNat n], none)
  else if n < 0xc2 then ([replacement], none)
  else if n < 0xe0 then ([], some { bits := n % 32, missing := 1 })
  else if n = 0xe0 then ([], some { bits := 0, missing := 2, low := 0xa0 })
  else if n = 0xed then ([], some { bits := 13, missing := 2, high := 0x9f })
  else if n < 0xf0 then ([], some { bits := n % 16, missing := 2 })
  else if n = 0xf0 then ([], some { bits := 0, missing := 3, low := 0x90 })
  else if n < 0xf4 then ([], some { bits := n % 8, missing := 3 })
  else if n = 0xf4 then ([], some { bits := 4, missing := 3, high := 0x8f })
  else ([replacement], none)

/-- what a byte gives behind a character that has begun, or behind none -/
def next (p : Option Begun) (b : UInt8) : List Char × Option Begun :=
  match p with
  | none => first b
  | some q =>
    if q.low ≤ b.toNat ∧ b.toNat ≤ q.high then
      let bits := q.bits * 64 + b.toNat % 64
      if q.missing = 1 then ([Char.ofNat bits], none) else ([], some { bits, missing := q.missing - 1 })
    else (replacement :: (first b).1, (first b).2)

/-- the characters of the bytes, the first of which may finish `p` -/
def lossyChars (p : Option Begun) : List UInt8 → List Char
  | [] => if p.isSome then [replacement] else []
  | b :: rest => (next p b).1 ++ lossyChars (next p b).2 rest

/-- bytes shown as text -/
def lossy (s : List UInt8) : String := String.ofList (lossyChars none s)

end SecureEndpoint.Text
