/-
Public keys, and how they are read from a certificate.

A key is a modulus with an exponent, a point of a curve, or a string of bytes of a fixed length. `PublicKey.slot?` says
which keys can identify an endpoint and which of them replace each other; `PublicKey.isStrong` says which of them count
as strong.
-/
import SecureEndpoint.Certificate.Lenient
import SecureEndpoint.Key.Edwards
import SecureEndpoint.Tls.Signature

namespace SecureEndpoint.Key

open Der (Bytes bigEndian)

/-- the schemes whose keys are strings of bytes -/
inductive RawScheme where
  | ed25519
  | ed448
  | x25519
  | x448
  deriving DecidableEq, Repr

/-- the encoded name of a scheme -/
def RawScheme.oid : RawScheme → Bytes
  | .x25519 => [0x2b, 0x65, 0x6e]
  | .x448 => [0x2b, 0x65, 0x6f]
  | .ed25519 => [0x2b, 0x65, 0x70]
  | .ed448 => [0x2b, 0x65, 0x71]

/-- the number of bytes of a key -/
def RawScheme.size : RawScheme → Nat
  | .ed25519 | .x25519 => 32
  | .ed448 => 57
  | .x448 => 56

/-- the scheme with this encoded name -/
def RawScheme.ofOid? (oid : Bytes) : Option RawScheme :=
  [RawScheme.ed25519, .ed448, .x25519, .x448].find? fun s => s.oid == oid

/-- a public key -/
inductive PublicKey where
  | rsa (modulus exponent : Nat)
  | point (curve : Curve) (p : Point)
  | raw (scheme : RawScheme) (bytes : Bytes)
  deriving DecidableEq, Repr

/-- what kind of key identifies an endpoint; an endpoint has at most one of each kind -/
inductive Slot where
  | rsa
  | curve
  | ed25519
  | ed448
  deriving DecidableEq, Repr

namespace PublicKey

/-- the kind of a key; keys that cannot sign have none -/
def slot? : PublicKey → Option Slot
  | .rsa .. => some .rsa
  | .point .. => some .curve
  | .raw .ed25519 _ => some .ed25519
  | .raw .ed448 _ => some .ed448
  | .raw .. => none

/-- the family that decides the order of the signature schemes -/
def family? : PublicKey → Option Tls.KeyFamily
  | .rsa .. => some .rsa
  | .point .. => some .ecdsa
  | .raw .. => none

/-- the shortest modulus that counts as strong, in bits -/
def strongModulus : Nat := 1963

/-- breaking the key takes at least 2^112 steps -/
def isStrong : PublicKey → Bool
  | .rsa n _ => Nat.pow 2 (strongModulus - 1) ≤ n
  | .point .. | .raw .. => true

end PublicKey

/-- the encoded name of the algorithm of keys with a modulus -/
def rsaOid : Bytes := [0x2a, 0x86, 0x48, 0x86, 0xf7, 0x0d, 0x01, 0x01, 0x01]

/-- the encoded name of the algorithm of keys that are points -/
def curveOid : Bytes := [0x2a, 0x86, 0x48, 0xce, 0x3d, 0x02, 0x01]

namespace Lenient

open Der Der.Lenient Certificate

/-- a number, with its bytes taken as they stand -/
def number (s : Bytes) : Option (Nat × Bytes) :=
  match field Tag.integer s with
  | some (e, rest) => if e.header.constructed then none else some (bigEndian e.contents, rest)
  | none => none

/-- a modulus and an exponent -/
def rsaKey (s : Bytes) : Option PublicKey := do
  let (contents, _) ← constructed Tag.sequence s
  let (modulus, more) ← number contents
  let (exponent, more) ← number more
  if more = [] then some (.rsa modulus exponent) else none

/-- the curve that the parameters of an algorithm name -/
def namedCurve (parameters : Option Element) : Option Curve := do
  let e ← parameters
  if e.tag = Tag.objectId then Curve.ofOid? (← contentsAs 6 e) else none

/-- the public key of a certificate -/
def publicKey (k : PublicKeyInfo) : Option PublicKey :=
  if k.algorithm.oid = rsaOid then rsaKey k.key
  else if k.algorithm.oid = curveOid then do
    let curve ← namedCurve k.algorithm.parameters
    return .point curve (← curve.pointOf k.key)
  else do
    let scheme ← RawScheme.ofOid? k.algorithm.oid
    if k.algorithm.parameters.isNone && k.key.length == scheme.size then some (.raw scheme k.key) else none

end Lenient

end SecureEndpoint.Key
