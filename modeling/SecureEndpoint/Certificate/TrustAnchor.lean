/-
Reading a trust anchor from a certificate in the canonical dialect.

Of a trust anchor only its name, its key and the names that it may vouch for count. A certificate of the current version
has to be well formed as a whole, with every known extension at most once and no unknown one marked as critical; one of
the first version has no extensions.
-/
import SecureEndpoint.Der.Header

namespace SecureEndpoint.Certificate

open Der Der.Canonical

/-- whom an endpoint trusts -/
structure TrustAnchor where
  subject : Bytes
  publicKey : Bytes
  nameConstraints : Option Bytes
  deriving DecidableEq, Repr

/-- why a certificate is no trust anchor -/
inductive AnchorError where
  | badEncoding
  /-- the signed part names another algorithm than the signature -/
  | algorithmMismatch
  /-- an unknown extension is marked as critical -/
  | criticalExtension
  /-- a known extension occurs twice -/
  | repeatedExtension
  deriving DecidableEq, Repr

/-- the text of an error -/
def AnchorError.message (e : AnchorError) : String :=
  "invalid peer certificate: " ++ match e with
    | .badEncoding => "BadEncoding"
    | .algorithmMismatch => "Other(OtherError(SignatureAlgorithmMismatch))"
    | .criticalExtension => "Other(OtherError(UnsupportedCriticalExtension))"
    | .repeatedExtension => "Other(OtherError(ExtensionValueInvalid))"

namespace TrustAnchor

/-- the dialect of trust anchors -/
def dialect : Dialect := canonicalUpTo 2

/-- the contents of a value, or an error -/
def take (first : UInt8) (s : Bytes) : Except AnchorError (Bytes × Bytes) :=
  match dialect.contentsOf first s with
  | some p => .ok p
  | none => .error .badEncoding

/-- an end that must have been reached -/
def done (s : Bytes) : Except AnchorError Unit := if s = [] then .ok () else .error .badEncoding

/-- an extension: its type, whether it is critical, and its value -/
structure Extension where
  oid : Bytes
  critical : Bool
  value : Bytes

/-- an extension in the contents of a sequence -/
def extension (s : Bytes) : Except AnchorError Extension := do
  let (oid, s) ← take objectIdTag s
  let (critical, s) ←
    if s.head? = some booleanTag then do
      let (mark, s) ← take booleanTag s
      if mark = [0xff] then pure (true, s) else if mark = [0] then pure (false, s) else .error .badEncoding
    else pure (false, s)
  let (value, s) ← take bytesTag s
  done s
  return { oid, critical, value }

/-- the numbers of the extensions that are known, of which the first is a bit string and the others are sequences -/
def knownExtensions : List UInt8 := [15, 17, 19, 30, 31, 37]

/-- the number of the extension with the names that an anchor may vouch for -/
def nameConstraintsExtension : UInt8 := 30

/-- the number of an extension of the standard's own arc -/
def Extension.number? (e : Extension) : Option UInt8 :=
  match e.oid with
  | [0x55, 0x1d, n] => if knownExtensions.contains n then some n else none
  | _ => none

/-- the value of a known extension -/
def Extension.known (e : Extension) (n : UInt8) : Except AnchorError Bytes :=
  if n = 15 then .ok e.value
  else match dialect.whole sequenceTag e.value with
    | some s => .ok s
    | none => .error .badEncoding

/-- reads an extension behind the known ones in `seen` -/
def remember (seen : List (UInt8 × Bytes)) (s : Bytes) : Except AnchorError (List (UInt8 × Bytes)) := do
  let e ← extension s
  match e.number? with
  | none => if e.critical then .error .criticalExtension else return seen
  | some n =>
    if seen.any fun p => p.1 == n then .error .repeatedExtension
    else return seen ++ [(n, ← e.known n)]

/-- the known extensions in a sequence of extensions -/
def rememberAll (seen : List (UInt8 × Bytes)) (s : Bytes) : Except AnchorError (List (UInt8 × Bytes)) :=
  match s with
  | [] => .ok seen
  | b :: more =>
    match h : dialect.element (b :: more) with
    | none => .error .badEncoding
    | some (e, rest) =>
      have := Dialect.element_length h
      if b ≠ sequenceTag then .error .badEncoding
      else match remember seen e.contents with
        | .error x => .error x
        | .ok seen => rememberAll seen rest
termination_by s.length
decreasing_by assumption

/-- the known extensions, which end the signed part -/
def extensions (s : Bytes) : Except AnchorError (List (UInt8 × Bytes)) :=
  if s = [] then .ok []
  else do
    let (tagged, s) ← take (contextTag 3) s
    let (list, more) ← take sequenceTag tagged
    let seen ← rememberAll [] list
    done more
    done s
    return seen

/-- the current version, as a value -/
def currentVersion : Bytes := [integerTag, 1, 2]

/-- a trust anchor from a signed part of the current version -/
def ofSigned (algorithm s : Bytes) : Except AnchorError TrustAnchor := do
  let (_, s) ← take integerTag s
  let (signature, s) ← take sequenceTag s
  if signature ≠ algorithm then .error .algorithmMismatch
  let (_, s) ← take sequenceTag s
  let (_, s) ← take sequenceTag s
  let (subject, s) ← take sequenceTag s
  let (publicKey, s) ← take sequenceTag s
  let seen ← extensions s
  return { subject, publicKey, nameConstraints := (seen.find? fun p => p.1 == nameConstraintsExtension).map Prod.snd }

/-- a trust anchor from a signed part of the first version -/
def ofFirstVersion (s : Bytes) : Except AnchorError TrustAnchor := do
  let (_, s) ← take integerTag s
  let (_, s) ← take sequenceTag s
  let (_, s) ← take sequenceTag s
  let (_, s) ← take sequenceTag s
  let (subject, s) ← take sequenceTag s
  let (publicKey, s) ← take sequenceTag s
  done s
  return { subject, publicKey, nameConstraints := none }

/-- reads a trust anchor from the certificate that fills the bytes -/
def ofDer (s : Bytes) : Except AnchorError TrustAnchor := do
  let (contents, s) ← take sequenceTag s
  let (signed, more) ← take sequenceTag contents
  let (algorithm, more) ← take sequenceTag more
  let (bits, more) ← take bitsTag more
  done more
  done s
  if bits.head? ≠ some 0 then .error .badEncoding
  match dialect.contentsOf (contextTag 0) signed with
  | none => ofFirstVersion signed
  | some (version, rest) => if version = currentVersion then ofSigned algorithm rest else .error .badEncoding

end TrustAnchor

end SecureEndpoint.Certificate
