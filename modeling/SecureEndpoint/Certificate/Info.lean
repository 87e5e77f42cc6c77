/-
What an endpoint reports about a certificate: the common names of its subject and its issuer, and its host names and
addresses.

`CertInfo.ofCertificate` takes them from a certificate that was read in the lenient dialect, `CertInfo.ofDer?` reads the
bytes in the strict dialect. A name without a usable common name is reported as `<undef>`. Of the alternative names only
hosts and addresses of four or sixteen bytes are reported; if their extension occurs more than once or cannot be read,
there are none.
-/
import SecureEndpoint.Certificate.Lenient
import SecureEndpoint.Certificate.Strict
import SecureEndpoint.Certificate.Address

namespace SecureEndpoint.Certificate

open Der

/-- what is reported about a certificate -/
structure CertInfo where
  subject : String
  issuer : String
  /-- hosts and addresses, in the order of the certificate -/
  alternativeNames : List String
  deriving DecidableEq, Repr

/-- stands for a missing name -/
def undefinedName : String := "<undef>"

/-- the entry of a host -/
def hostEntry (name : String) : String := "DNS:" ++ name

/-- the single value of an extension type; none if it occurs more than once -/
def single? {α : Type} : List α → Option α
  | [a] => some a
  | _ => none

namespace Lenient

/-- the first common name, up to its first NUL -/
def commonName (n : Name) : String :=
  match n.find? fun a => a.oid = commonNameOid with
  | none => undefinedName
  | some a =>
    match textOf a.textType a.value with
    | none => undefinedName
    | some cs => String.ofList (cs.takeWhile (· ≠ '\x00'))

/-- the entry of an alternative name -/
def entryOf? : AlternativeName → Option String
  | .host name => (Strict.text? name).map hostEntry
  | .address bytes => entryOfAddress? bytes
  | .other => none

/-- the alternative names of a certificate -/
def names (c : Certificate) : List AlternativeName :=
  match single? (c.extensions.filter fun x => x.oid = alternativeNamesOid) with
  | none => []
  | some x => (alternativeNames x.value).getD []

end Lenient

/-- what is reported about a certificate that was read in the lenient dialect -/
def CertInfo.ofCertificate (c : Certificate) : CertInfo where
  subject := Lenient.commonName c.subject
  issuer := Lenient.commonName c.issuer
  alternativeNames := (Lenient.names c).filterMap Lenient.entryOf?

namespace Strict

/-- the text types that a common name can have -/
def nameTypes : List Nat := [numericStringTag, printableStringTag, utf8StringTag, ia5StringTag]

/-- the first common name -/
def commonName (n : List NameValue) : String :=
  match n.find? fun a => a.oid = commonNameOid with
  | none => undefinedName
  | some a => if nameTypes.contains a.number then (text? a.value).getD undefinedName else undefinedName

/-- the entry of an alternative name -/
def entryOf? : AlternativeName → Option String
  | .host name => some (hostEntry name)
  | .address bytes => entryOfAddress? bytes
  | .other => none

/-- the alternative names of a certificate -/
def names (c : Reading) : List AlternativeName :=
  match single? (c.extensions.filter fun x => x.oid = alternativeNamesOid) with
  | none => []
  | some x => (alternativeNames x.value).getD []

end Strict

/-- what is reported about the certificate in these bytes, read in the strict dialect -/
def CertInfo.ofDer? (s : Bytes) : Option CertInfo :=
  (Strict.certificate s).map fun c =>
    { subject := Strict.commonName c.subject
      issuer := Strict.commonName c.issuer
      alternativeNames := (Strict.names c).filterMap Strict.entryOf? }

/-- what is reported about the certificate at the front of these bytes, read in the lenient dialect -/
def CertInfo.ofLenient? (s : Bytes) : Option CertInfo := (Lenient.certificate s).map fun p => .ofCertificate p.1

end SecureEndpoint.Certificate
