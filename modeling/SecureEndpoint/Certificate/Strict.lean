/-
Reading a certificate in the strict dialect.

Lengths are always given, bit strings and times must be well formed, but what is left over at the end of most sequences is
passed over, and a tag is known by its number alone. A name ends silently before the first part that cannot be read.
-/
import SecureEndpoint.Der.Field
import SecureEndpoint.Certificate.Time

namespace SecureEndpoint.Certificate.Strict

open Der

/-- an attribute of a name: its type, and its value with the number of its tag -/
structure NameValue where
  oid : Bytes
  number : Nat
  value : Bytes
  deriving DecidableEq, Repr

/-- an extension -/
structure Extension where
  oid : Bytes
  value : Bytes
  deriving DecidableEq, Repr

/-- what is used of a certificate -/
structure Reading where
  issuer : List NameValue
  subject : List NameValue
  extensions : List Extension
  deriving DecidableEq, Repr

/-- a value whose tag has this number -/
def numbered (n : Nat) (s : Bytes) : Option (Element × Bytes) :=
  match strict.element s with
  | some (e, rest) => if e.header.number = n then some (e, rest) else none
  | none => none

/-- the contents of a value whose tag has this number -/
def container (n : Nat) (s : Bytes) : Option (Bytes × Bytes) := (numbered n s).map fun p => (p.1.contents, p.2)

/-- the contents of a value that is not made of others -/
def plain (n : Nat) (s : Bytes) : Option (Bytes × Bytes) :=
  match numbered n s with
  | some (e, rest) => if e.header.constructed then none else some (e.contents, rest)
  | none => none

/-- reads values with `f` as long as that succeeds -/
def many {α : Type} (f : Bytes → Option (α × Bytes)) (s : Bytes) : List α × Bytes :=
  match f s with
  | none => ([], s)
  | some (a, rest) =>
    if _h : rest.length < s.length then
      let (as, rest) := many f rest
      (a :: as, rest)
    else ([], s)
termination_by s.length

/-- an attribute of a name -/
def nameValue (s : Bytes) : Option (NameValue × Bytes) :=
  match container 16 s with
  | none => none
  | some (contents, rest) =>
    match plain 6 contents with
    | none => none
    | some (oid, more) =>
      match strict.element more with
      | none => none
      | some (e, _) => some (⟨oid, e.header.number, e.contents⟩, rest)

/-- a part of a name, with at least one attribute -/
def namePart (s : Bytes) : Option (List NameValue × Bytes) :=
  match container 17 s with
  | none => none
  | some (contents, rest) =>
    match many nameValue contents with
    | ([], _) => none
    | (values, _) => some (values, rest)

/-- a name, up to the first part that cannot be read -/
def name (s : Bytes) : Option (List NameValue × Bytes) :=
  match container 16 s with
  | none => none
  | some (contents, rest) => some ((many namePart contents).1.flatten, rest)

/-- an algorithm; its parameters are not looked at -/
def algorithm (s : Bytes) : Option (Unit × Bytes) :=
  match container 16 s with
  | none => none
  | some (contents, rest) => (plain 6 contents).map fun _ => ((), rest)

/-- the number of zero bits at the end of a byte -/
def trailingZeros (b : UInt8) : Nat :=
  if b = 0 then 8 else ((List.range 8).takeWhile fun i => b.toNat % Nat.pow 2 (i + 1) = 0).length

/-- a bit string whose unused bits are zero -/
def bitString (s : Bytes) : Option (Bytes × Bytes) :=
  match plain 3 s with
  | none => none
  | some (contents, rest) =>
    match contents with
    | [] => none
    | [unused] => if unused = 0 then some ([], rest) else none
    | unused :: bits =>
      if unused.toNat ≤ trailingZeros (bits.getLastD 0) then some (bits, rest) else none

/-- a time in one of its two forms -/
def time (s : Bytes) : Option (Unit × Bytes) :=
  match strict.element s with
  | none => none
  | some (e, rest) =>
    if e.header.number = utcTimeTag ∧ isShortTime e.contents then some ((), rest)
    else if e.header.number = generalizedTimeTag ∧ isLongTime e.contents then some ((), rest)
    else none

/-- the two times between which a certificate is valid -/
def validity (s : Bytes) : Option (Unit × Bytes) := do
  let (contents, rest) ← container 16 s
  let (_, more) ← time contents
  let _ ← time more
  return ((), rest)

/-- a public key; it is not kept -/
def publicKeyInfo (s : Bytes) : Option (Unit × Bytes) := do
  let (contents, rest) ← container 16 s
  let (_, more) ← algorithm contents
  let _ ← bitString more
  return ((), rest)

/-- a number of 32 bits in its shortest form -/
def isWord (s : Bytes) : Bool := Lenient.isInteger s && s.head?.any (· < 128) && bigEndian s < Nat.pow 2 32

/-- the version, if it is given -/
def version (s : Bytes) : Option (Unit × Bytes) :=
  match s with
  | [] => some ((), [])
  | _ =>
    match strict.element s with
    | none => none
    | some (e, rest) =>
      if e.tag ≠ Tag.ctx 0 then some ((), s)
      else match plain 2 e.contents with
        | some (n, _) => if isWord n then some ((), rest) else none
        | none => none

/-- a unique identifier under the tag `n`, if it is there -/
def uniqueId (n : Nat) (s : Bytes) : Option (Unit × Bytes) :=
  match s with
  | [] => some ((), [])
  | _ =>
    match strict.element s with
    | none => none
    | some (e, rest) =>
      if e.header.number ≠ n then some ((), s)
      else if e.header.tagClass = .context ∧ e.contents ≠ [] then some ((), rest)
      else none

/-- passes over a mark of importance, if it is there and is one byte long -/
def skipMark (s : Bytes) : Bytes :=
  match strictOpen.element s with
  | some (e, rest) => if e.header.number = 1 ∧ e.header.length = some 1 then rest else s
  | none => s

/-- an extension -/
def extension (s : Bytes) : Option (Extension × Bytes) := do
  let (contents, rest) ← container 16 s
  let (oid, more) ← plain 6 contents
  let (value, _) ← plain 4 (skipMark more)
  return (⟨oid, value⟩, rest)

/-- the extensions, which end the signed part -/
def extensions (s : Bytes) : Option (List Extension) :=
  match s with
  | [] => some []
  | _ => do
    let (h, after) ← strict.header s
    if h.number ≠ 3 then none
    let (contents, rest) ← container 16 after
    if rest ≠ [] then none
    match many extension contents with
    | (es, []) => some es
    | _ => none

/-- the names and the extensions of the signed part -/
def signedPart (s : Bytes) : Option Reading := do
  let (_, s) ← version s
  let (serial, s) ← strictOpen.element s
  if serial.header.number ≠ 2 then none
  let (_, s) ← algorithm s
  let (issuer, s) ← name s
  let (_, s) ← validity s
  let (subject, s) ← name s
  let (_, s) ← publicKeyInfo s
  let (_, s) ← uniqueId 1 s
  let (_, s) ← uniqueId 2 s
  let extensions ← extensions s
  return { issuer, subject, extensions }

/-- reads a certificate at the front of the bytes -/
def certificate (s : Bytes) : Option Reading := do
  let (contents, _) ← container 16 s
  let (signed, s) ← container 16 contents
  let reading ← signedPart signed
  let (_, s) ← algorithm s
  let _ ← bitString s
  return reading

/-! ## Alternative names -/

/-- an alternative name, as far as it is used -/
inductive AlternativeName where
  | host (name : String)
  | address (bytes : Bytes)
  | other
  deriving DecidableEq, Repr

/-- the text of bytes -/
def text? (s : Bytes) : Option String := String.fromUTF8? ⟨s.toArray⟩

/-- an alternative name -/
def alternativeName (s : Bytes) : Option (AlternativeName × Bytes) := do
  let (e, rest) ← strict.element s
  if e.header.tagClass ≠ .context then none
  let kind ← match e.header.number with
    | 0 => (plain 6 e.contents).map fun _ => .other
    | 1 => (text? e.contents).map fun _ => .other
    | 2 => (text? e.contents).map .host
    | 3 => some .other
    | 4 =>
      match name e.contents with
      | some (_, []) => some .other
      | _ => none
    | 5 => some .other
    | 6 => (text? e.contents).map fun _ => .other
    | 7 => some (.address e.contents)
    | 8 => some .other
    | _ => none
  return (kind, rest)

/-- the list of alternative names at the front of the bytes -/
def alternativeNames (s : Bytes) : Option (List AlternativeName) :=
  match container 16 s with
  | none => none
  | some (contents, _) =>
    match many alternativeName contents with
    | (names, []) => some names
    | _ => none

end SecureEndpoint.Certificate.Strict
