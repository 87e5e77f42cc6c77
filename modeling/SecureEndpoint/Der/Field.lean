/-
Fields of sequences in the lenient dialect, and what the contents of the basic types must look like.

A field reader takes the bytes that are left of a sequence and gives the field with the bytes behind it. `field` wants a
value of a tag, `optional` takes one if it is there; a header that cannot be read is an error in both. Texts may be put
together from pieces (`collect`), the other basic types may not.
-/
import SecureEndpoint.Der.Header

namespace SecureEndpoint.Der

/-- a tag: its class and its number -/
structure Tag where
  tagClass : TagClass
  number : Nat
  deriving DecidableEq, Repr

/-- a tag of the standard's own types -/
def Tag.std (n : Nat) : Tag := ⟨.universal, n⟩

/-- a tag whose meaning depends on the place -/
def Tag.ctx (n : Nat) : Tag := ⟨.context, n⟩

/-- the tag of a value -/
def Element.tag (e : Element) : Tag := ⟨e.header.tagClass, e.header.number⟩

namespace Tag

def boolean : Tag := std 1
def integer : Tag := std 2
def bitString : Tag := std 3
def octetString : Tag := std 4
def null : Tag := std 5
def objectId : Tag := std 6
def enumerated : Tag := std 10
def sequence : Tag := std 16
def set : Tag := std 17

end Tag

/-- the numbers of the text types and of the times -/
def utf8StringTag : Nat := 12
def numericStringTag : Nat := 18
def printableStringTag : Nat := 19
def teletexStringTag : Nat := 20
def ia5StringTag : Nat := 22
def utcTimeTag : Nat := 23
def generalizedTimeTag : Nat := 24
def visibleStringTag : Nat := 26
def universalStringTag : Nat := 28
def bmpStringTag : Nat := 30

namespace Lenient

/-- a field of this tag -/
def field (t : Tag) (s : Bytes) : Option (Element × Bytes) :=
  match lenient.element s with
  | some (e, rest) => if e.tag = t then some (e, rest) else none
  | none => none

/-- a field of this tag, if it is there -/
def optional (t : Tag) (s : Bytes) : Option (Option Element × Bytes) :=
  match s with
  | [] => some (none, [])
  | _ =>
    match lenient.header s with
    | none => none
    | some (x, after) =>
      if ¬ (x.length.all fun n => n ≤ after.length) then none
      else if x.tagClass = t.tagClass ∧ x.number = t.number then
        (lenient.element s).map fun p => (some p.1, p.2)
      else some (none, s)

/-- the contents of a constructed field of this tag -/
def constructed (t : Tag) (s : Bytes) : Option (Bytes × Bytes) :=
  match field t s with
  | some (e, rest) => if e.header.constructed then some (e.contents, rest) else none
  | none => none

/-- the contents of the pieces of a text, which may themselves be put together, `nest` levels deep -/
def collect (nest : Nat) (s : Bytes) : Option Bytes :=
  match s with
  | [] => some []
  | b :: rest =>
    if isEndMark (b :: rest) then none
    else match h : lenient.element (b :: rest) with
      | none => none
      | some (e, after) =>
        have := Dialect.element_length h
        let piece : Option Bytes :=
          if e.header.constructed then
            match nest with
            | 0 => none
            | n + 1 => collect n e.contents
          else some e.contents
        match piece with
        | none => none
        | some bytes => (collect nest after).map (bytes ++ ·)
termination_by (nest, s.length)

/-- the bytes of a text -/
def textBytes (e : Element) : Option Bytes := if e.header.constructed then collect 5 e.contents else some e.contents

/-- the shortest form of an integer, which has at least one byte -/
def isInteger (s : Bytes) : Bool :=
  match s with
  | [] => false
  | [_] => true
  | a :: b :: rest =>
    if a = 0 then 128 ≤ b
    else if a = 255 then b < 128 || !(b :: rest).any (· ≠ 0)
    else true

/-- groups of seven bits, none of which begins with an empty one -/
def isObjectId (s : Bytes) : Bool :=
  let starts := true :: s.map (· < 128)
  !s.isEmpty && s.getLast?.any (· < 128) && !(s.zip starts).any fun p => p.1 = 128 && p.2

/-- a bit string begins with the number of unused bits -/
def isBitString (s : Bytes) : Bool := s.head?.any (· ≤ 7)

/-- contents that have the form of a basic type -/
def hasForm (number : Nat) (s : Bytes) : Bool :=
  match number with
  | 1 => s.length == 1
  | 2 | 10 => isInteger s
  | 3 => isBitString s
  | 5 => s.isEmpty
  | 6 => isObjectId s
  | 23 => 13 ≤ s.length
  | 24 => 15 ≤ s.length
  | 28 => s.length % 4 == 0
  | 30 => s.length % 2 == 0
  | _ => true

/-- the bits of a bit string in whole bytes, where the unused ones are zero -/
def bitsOf (s : Bytes) : Bytes :=
  match s with
  | [] => []
  | unused :: bits =>
    match bits.reverse with
    | [] => []
    | last :: front => (UInt8.ofNat (last.toNat / Nat.pow 2 unused.toNat * Nat.pow 2 unused.toNat) :: front).reverse

/-- types that cannot be put together from pieces -/
def isAtomic (number : Nat) : Bool := [1, 2, 5, 6, 10].contains number

/-- the contents of a value as one of the standard's type `number`, whatever its own tag -/
def contentsAs (number : Nat) (e : Element) : Option Bytes :=
  if number = 16 || number = 17 then if e.header.constructed then some e.encoding else none
  else if e.header.constructed && isAtomic number then none
  else match textBytes e with
    | some s => if hasForm number s then some s else none
    | none => none

/-- a field of one of the standard's types -/
def basic (number : Nat) (s : Bytes) : Option (Bytes × Bytes) :=
  match field (Tag.std number) s with
  | some (e, rest) => (contentsAs number e).map fun c => (c, rest)
  | none => none

/-- a field of one of the standard's types under another tag -/
def tagged (t : Tag) (number : Nat) (s : Bytes) : Option (Option Bytes × Bytes) :=
  match optional t s with
  | some (some e, rest) => (contentsAs number e).map fun c => (some c, rest)
  | some (none, rest) => some (none, rest)
  | none => none

/-- a value of any type -/
def anyValue (s : Bytes) : Option (Element × Bytes) :=
  if isEndMark s then none
  else match lenient.element s with
    | none => none
    | some (e, rest) =>
      if e.header.tagClass = .universal then (contentsAs e.header.number e).map fun _ => (e, rest)
      else some (e, rest)

/-- a field of one of several types of the standard: its type and its contents -/
def oneOf (numbers : List Nat) (s : Bytes) : Option ((Nat × Bytes) × Bytes) :=
  match lenient.element s with
  | none => none
  | some (e, rest) =>
    if e.header.tagClass = .universal ∧ numbers.contains e.header.number then
      (contentsAs e.header.number e).map fun c => ((e.header.number, c), rest)
    else none

/-- every value of a list of values is read by `f`, which must use it up -/
def listOf {α : Type} (f : Element → Option α) (s : Bytes) : Option (List α) :=
  match lenient.elements s with
  | none => none
  | some es => es.mapM f

end Lenient

end SecureEndpoint.Der
