/-
Reading a certificate in the lenient dialect.

Every sequence must be used up and every basic value must have the form of its type, but tags may be written in more than
one way, texts may be put together from pieces, and the times are only looked at for their lengths. What follows the
certificate is left alone. A name whose text in one of the common types is not text is an error of the whole
certificate.
-/
import SecureEndpoint.Der.Field

namespace SecureEndpoint

open Der

namespace Certificate

/-- an attribute of a name: its type, and its text with the number of its text type -/
structure Attribute where
  oid : Bytes
  textType : Nat
  value : Bytes
  deriving DecidableEq, Repr

/-- a name: its attributes in order -/
abbrev Name := List Attribute

/-- an algorithm with its parameters -/
structure Algorithm where
  oid : Bytes
  parameters : Option Element
  deriving DecidableEq, Repr

/-- a public key: its algorithm and its bits, in whole bytes -/
structure PublicKeyInfo where
  algorithm : Algorithm
  key : Bytes
  deriving DecidableEq, Repr

/-- an extension of a certificate -/
structure Extension where
  oid : Bytes
  critical : Bool
  value : Bytes
  deriving DecidableEq, Repr

end Certificate

/-- what the endpoint uses of a certificate -/
structure Certificate where
  issuer : Certificate.Name
  subject : Certificate.Name
  publicKey : Certificate.PublicKeyInfo
  /-- the algorithm of the signature, as the signed part names it -/
  signedAlgorithm : Certificate.Algorithm
  /-- the algorithm of the signature, as it stands beside the signature -/
  signatureAlgorithm : Certificate.Algorithm
  extensions : List Certificate.Extension
  /-- the whole encoding -/
  encoding : Bytes
  deriving DecidableEq, Repr

namespace Certificate

/-- the type of common names -/
def commonNameOid : Bytes := [0x55, 0x04, 0x03]

/-- the type of the extension with alternative names -/
def alternativeNamesOid : Bytes := [0x55, 0x1d, 0x11]

/-- a code point that text can hold -/
def isUnicode (n : Nat) : Bool := n < 0xD800 || (0xE000 ≤ n && n ≤ 0x10FFFF)

/-- units of `size` bytes as code points -/
def unitsOf (size : Nat) (s : Bytes) : Option (List Char) :=
  match s with
  | [] => some []
  | b :: rest =>
    let n := bigEndian ((b :: rest).take size)
    if isUnicode n then (unitsOf size ((b :: rest).drop (max size 1))).map (Char.ofNat n :: ·) else none
termination_by s.length
decreasing_by simp only [List.length_drop, List.length_cons]; omega

/-- the text of a value of a text type, where that type has one -/
def textOf (textType : Nat) (s : Bytes) : Option (List Char) :=
  if textType = utf8StringTag then (String.fromUTF8? ⟨s.toArray⟩).map String.toList
  else if textType = bmpStringTag then unitsOf 2 s
  else if textType = universalStringTag then unitsOf 4 s
  else if [numericStringTag, printableStringTag, teletexStringTag, ia5StringTag, utcTimeTag, generalizedTimeTag,
      visibleStringTag].contains textType then some (s.map fun b => Char.ofNat b.toNat)
  else none

/-- the text types whose values are compared as text -/
def comparedAsText : List Nat :=
  [utf8StringTag, bmpStringTag, universalStringTag, printableStringTag, teletexStringTag, ia5StringTag,
    visibleStringTag]

namespace Lenient

open Der.Lenient

/-- the types that an attribute of a name can have -/
def attributeTypes : List Nat := [3, 7, 8, 9, 11, 12, 13, 14, 15, 16, 18, 19, 20, 22, 28, 29, 30]

/-- an attribute of a name -/
def nameAttribute (e : Element) : Option Attribute :=
  if e.tag ≠ Tag.sequence ∨ !e.header.constructed then none
  else match basic 6 e.contents with
    | none => none
    | some (oid, rest) =>
      match oneOf attributeTypes rest with
      | some ((textType, value), []) => some ⟨oid, textType, value⟩
      | _ => none

/-- the attributes of one step of a name -/
def attributeSet (e : Element) : Option (List Attribute) :=
  if e.tag = Tag.set then listOf nameAttribute e.contents else none

/-- the text of an attribute is text -/
def isComparable (a : Attribute) : Bool := !comparedAsText.contains a.textType || (textOf a.textType a.value).isSome

/-- a name -/
def name (s : Bytes) : Option (Name × Bytes) :=
  match field Tag.sequence s with
  | none => none
  | some (e, rest) =>
    match listOf attributeSet e.contents with
    | none => none
    | some sets => if sets.flatten.all isComparable then some (sets.flatten, rest) else none

/-- an algorithm with its parameters -/
def algorithm (s : Bytes) : Option (Algorithm × Bytes) :=
  match constructed Tag.sequence s with
  | none => none
  | some (contents, rest) =>
    match basic 6 contents with
    | none => none
    | some (oid, []) => some (⟨oid, none⟩, rest)
    | some (oid, more) =>
      match anyValue more with
      | some (e, []) => some (⟨oid, some e⟩, rest)
      | _ => none

/-- the two times between which a certificate is valid -/
def validity (s : Bytes) : Option (Unit × Bytes) :=
  match constructed Tag.sequence s with
  | none => none
  | some (contents, rest) =>
    match oneOf [utcTimeTag, generalizedTimeTag] contents with
    | none => none
    | some (_, more) =>
      match oneOf [utcTimeTag, generalizedTimeTag] more with
      | some (_, []) => some ((), rest)
      | _ => none

/-- a public key -/
def publicKeyInfo (s : Bytes) : Option (PublicKeyInfo × Bytes) :=
  match constructed Tag.sequence s with
  | none => none
  | some (contents, rest) =>
    match algorithm contents with
    | none => none
    | some (a, more) =>
      match basic 3 more with
      | some (bits, []) => some (⟨a, bitsOf bits⟩, rest)
      | _ => none

/-- an extension -/
def extension (e : Element) : Option Extension :=
  if e.tag ≠ Tag.sequence ∨ !e.header.constructed then none
  else match basic 6 e.contents with
    | none => none
    | some (oid, rest) =>
      match tagged Tag.boolean 1 rest with
      | none => none
      | some (critical, rest) =>
        match basic 4 rest with
        | some (value, []) => some ⟨oid, critical.any fun b => b ≠ [0], value⟩
        | _ => none

/-- the contents of a value under a tag of its own, if it is there -/
def explicit? (t : Tag) (s : Bytes) : Option (Option Bytes × Bytes) :=
  match optional t s with
  | none => none
  | some (none, rest) => some (none, rest)
  | some (some e, rest) => if e.header.constructed then some (some e.contents, rest) else none

/-- the extensions, which end the signed part -/
def extensions (s : Bytes) : Option (List Extension) :=
  match explicit? (Tag.ctx 3) s with
  | some (none, []) => some []
  | some (some contents, []) =>
    match field Tag.sequence contents with
    | some (e, []) => listOf extension e.contents
    | _ => none
  | _ => none

/-- the version, if it is given -/
def version (s : Bytes) : Option (Unit × Bytes) :=
  match explicit? (Tag.ctx 0) s with
  | none => none
  | some (none, rest) => some ((), rest)
  | some (some contents, rest) =>
    match basic 2 contents with
    | some (_, []) => some ((), rest)
    | _ => none

/-- the algorithm, the names, the key and the extensions of the signed part -/
def signedPart (s : Bytes) : Option (Algorithm × Name × Name × PublicKeyInfo × List Extension) := do
  let (_, s) ← version s
  let (_, s) ← basic 2 s
  let (a, s) ← algorithm s
  let (issuer, s) ← name s
  let (_, s) ← validity s
  let (subject, s) ← name s
  let (key, s) ← publicKeyInfo s
  let (_, s) ← tagged (Tag.ctx 1) 3 s
  let (_, s) ← tagged (Tag.ctx 2) 3 s
  let exts ← extensions s
  return (a, issuer, subject, key, exts)

/-- reads a certificate at the front of the bytes -/
def certificate (s : Bytes) : Option (Certificate × Bytes) := do
  let (e, rest) ← field Tag.sequence s
  if !e.header.constructed then none
  let (signed, s) ← constructed Tag.sequence e.contents
  let (signedAlgorithm, issuer, subject, publicKey, extensions) ← signedPart signed
  let (signatureAlgorithm, s) ← algorithm s
  match basic 3 s with
  | some (_, []) =>
    return ({ issuer, subject, publicKey, signedAlgorithm, signatureAlgorithm, extensions, encoding := e.encoding }, rest)
  | _ => none

/-! ## Alternative names -/

/-- an alternative name, as far as it is used -/
inductive AlternativeName where
  | host (name : Bytes)
  | address (bytes : Bytes)
  | other
  deriving DecidableEq, Repr

/-- a name of another kind: its type and a value -/
def otherName (s : Bytes) : Option Unit :=
  match basic 6 s with
  | none => none
  | some (_, rest) =>
    match explicit? (Tag.ctx 0) rest with
    | some (some contents, []) =>
      match anyValue contents with
      | some (_, []) => some ()
      | _ => none
    | _ => none

/-- the text types of a party's name -/
def partyTypes : List Nat := [utf8StringTag, printableStringTag, teletexStringTag, universalStringTag, bmpStringTag]

/-- the text of a party's name, alone in the bytes -/
def partyName (s : Bytes) : Option Unit :=
  match oneOf partyTypes s with
  | some (_, []) => some ()
  | _ => none

/-- the names of two parties, the first of which can be left out -/
def parties (s : Bytes) : Option Unit := do
  let (assigner, s) ← explicit? (Tag.ctx 0) s
  if let some a := assigner then partyName a
  match explicit? (Tag.ctx 1) s with
  | some (some b, []) => partyName b
  | _ => none

/-- an alternative name -/
def alternativeName (e : Element) : Option AlternativeName :=
  if e.header.tagClass ≠ .context then none
  else match e.header.number with
    | 0 => if e.header.constructed then (otherName e.contents).map fun _ => .other else none
    | 1 => (contentsAs ia5StringTag e).map fun _ => .other
    | 2 => (contentsAs ia5StringTag e).map .host
    | 3 => (contentsAs 16 e).map fun _ => .other
    | 4 =>
      if !e.header.constructed then none
      else match name e.contents with
        | some (_, []) => some .other
        | _ => none
    | 5 => if e.header.constructed then (parties e.contents).map fun _ => .other else none
    | 6 => (contentsAs ia5StringTag e).map fun _ => .other
    | 7 => (contentsAs 4 e).map .address
    | 8 => (contentsAs 6 e).map fun _ => .other
    | _ => none

/-- the list of alternative names at the front of the bytes -/
def alternativeNames (s : Bytes) : Option (List AlternativeName) :=
  match field Tag.sequence s with
  | some (e, _) => listOf alternativeName e.contents
  | none => none

end Lenient

end Certificate

end SecureEndpoint
