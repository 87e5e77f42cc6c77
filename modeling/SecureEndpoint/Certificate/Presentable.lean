/-
Which certificates an endpoint may present.

Its public key has to be of a kind that identifies an endpoint, and strong. So has its signature to be, unless the
certificate vouches for itself: then subject and issuer have the same name, the algorithm that the signed part names is
one for its own key, and the key of the issuer, if it is named, is its own.
-/
import SecureEndpoint.Key.PublicKey

namespace SecureEndpoint.Certificate

open Der Key

/-- a signature algorithm: its encoded name, the kind of key that it needs, and whether it is strong -/
structure SignatureKind where
  oid : Bytes
  slot : Slot
  strong : Bool

/-- the encoded name of a signature algorithm of the RSA family -/
def rsaSignature (n : UInt8) : Bytes := [0x2a, 0x86, 0x48, 0x86, 0xf7, 0x0d, 0x01, 0x01, n]

/-- the encoded name of a signature algorithm of the curves -/
def curveSignature (rest : Bytes) : Bytes := [0x2a, 0x86, 0x48, 0xce, 0x3d, 0x04] ++ rest

/-- the encoded name of the algorithm that gives its digest in its parameters -/
def parametrisedSignature : Bytes := rsaSignature 10

/-- the encoded name of an algorithm of the standards body: a digest, or a signature with one -/
def bodyAlgorithm (arc n : UInt8) : Bytes := [0x60, 0x86, 0x48, 0x01, 0x65, 0x03, 0x04, arc, n]

/-- the signature algorithms whose names say everything -/
def signatureKinds : List SignatureKind :=
  ([2, 3, 4, 5].map fun n => ⟨rsaSignature n, .rsa, false⟩) ++
  ([11, 12, 13, 14, 15, 16].map fun n => ⟨rsaSignature n, .rsa, true⟩) ++
  ([13, 14, 15, 16].map fun n => ⟨bodyAlgorithm 3 n, .rsa, true⟩) ++
  [⟨curveSignature [1], .curve, false⟩] ++
  ([1, 2, 3, 4].map fun n => ⟨curveSignature [3, n], .curve, true⟩) ++
  ([9, 10, 11, 12].map fun n => ⟨bodyAlgorithm 3 n, .curve, true⟩) ++
  [⟨RawScheme.ed25519.oid, .ed25519, true⟩, ⟨RawScheme.ed448.oid, .ed448, true⟩]

/-- the digests of at least 224 bits -/
def strongDigests : List Bytes := [1, 2, 3, 4, 5, 6, 7, 8, 9, 10].map (bodyAlgorithm 2)

/-- the parameters of a signature name a strong digest -/
def hasStrongDigest (parameters : Option Element) : Bool :=
  parameters.any fun e =>
    match Lenient.explicit? (Tag.ctx 0) e.contents with
    | some (some digest, _) => (Lenient.algorithm digest).any fun p => strongDigests.contains p.1.oid
    | _ => false

/-- what is known about a signature algorithm -/
def signatureKind? (a : Algorithm) : Option SignatureKind :=
  if a.oid = parametrisedSignature then some ⟨a.oid, .rsa, hasStrongDigest a.parameters⟩
  else signatureKinds.find? fun k => k.oid == a.oid

/-- blanks of a name -/
def isNameBlank (c : Char) : Bool := c == ' ' || ('\t' ≤ c && c ≤ '\r')

/-- text with single spaces between its words, in lower case -/
def foldText (cs : List Char) : List Char :=
  let words := (cs.map Char.toLower).splitBy fun a b => isNameBlank a == isNameBlank b
  List.intercalate [' '] (words.filter fun w => !w.any isNameBlank)

/-- an attribute of a name as it is compared -/
def Attribute.folded (a : Attribute) : Bytes × Option (List Char) × Bytes :=
  if comparedAsText.contains a.textType then (a.oid, (textOf a.textType a.value).map foldText, [])
  else (a.oid, none, a.value)

/-- the encoded name of the extension with the key of the issuer -/
def issuerKeyOid : Bytes := [0x55, 0x1d, 0x23]

/-- the encoded name of the extension with the own key -/
def ownKeyOid : Bytes := [0x55, 0x1d, 0x0e]

/-- the identifier of the own key -/
def ownKey? (c : Certificate) : Option Bytes :=
  match c.extensions.find? fun x => x.oid = ownKeyOid with
  | some x => (Der.Lenient.basic 4 x.value).map Prod.fst
  | none => none

/-- the identifier of the key of the issuer -/
def issuerKey? (c : Certificate) : Option Bytes :=
  match c.extensions.find? fun x => x.oid = issuerKeyOid with
  | none => none
  | some x =>
    match Der.Lenient.constructed Tag.sequence x.value with
    | some (contents, _) =>
      match Der.Lenient.tagged (Tag.ctx 0) 4 contents with
      | some (id, _) => id
      | none => none
    | none => none

/-- the public key, if it can be read -/
def key? (c : Certificate) : Option PublicKey := Key.Lenient.publicKey c.publicKey

/-- the certificate vouches for itself -/
def isSelfSigned (c : Certificate) (k : PublicKey) : Bool :=
  c.subject.map Attribute.folded == c.issuer.map Attribute.folded &&
    (signatureKind? c.signedAlgorithm).any (fun s => k.slot? == some s.slot) &&
    match c.ownKey?, c.issuerKey? with
    | some own, some issuer => own == issuer
    | _, _ => true

/-- an endpoint may present the certificate -/
def isPresentable (c : Certificate) : Bool :=
  c.key?.any fun k =>
    k.slot?.isSome && k.isStrong &&
      (c.isSelfSigned k || (signatureKind? c.signatureAlgorithm).any SignatureKind.strong)

end SecureEndpoint.Certificate
