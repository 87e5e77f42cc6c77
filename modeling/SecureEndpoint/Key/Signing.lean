/-
Private keys that can sign, read in the canonical dialect.

A key is taken for one of the RSA family first, then for a point of one of two curves, then for an Ed25519 key. Every
value has to fill its place, and a key has to be consistent: the primes of a modulus, its exponents and the inverse of
one prime have to fit together, and a public half that is given has to be the one that belongs to the private half.
-/
import SecureEndpoint.Key.PublicKey

namespace SecureEndpoint.Key

open Der (Bytes bigEndian)

/-- the algorithm of a signing key -/
inductive SigningAlgorithm where
  | rsa
  | ecdsa
  | ed25519
  deriving DecidableEq, Repr

/-- the name of an algorithm -/
def SigningAlgorithm.name : SigningAlgorithm → String
  | .rsa => "RSA"
  | .ecdsa => "ECDSA"
  | .ed25519 => "ED25519"

/-- the family that decides the order of the signature schemes -/
def SigningAlgorithm.family? : SigningAlgorithm → Option Tls.KeyFamily
  | .rsa => some .rsa
  | .ecdsa => some .ecdsa
  | .ed25519 => none

/-- a private key that can sign -/
structure SigningKey where
  algorithm : SigningAlgorithm
  encoding : Bytes
  deriving DecidableEq, Repr

/-- the form in which a file gives a key -/
inductive KeyForm where
  /-- the numbers of the RSA family -/
  | numbers
  /-- a key of any algorithm in a common envelope -/
  | envelope
  /-- a key of a curve -/
  | point
  deriving DecidableEq, Repr

namespace Canonical

open Der.Canonical

/-- the dialect of keys -/
def dialect : Der.Dialect := Der.canonicalUpTo 2

/-- a number in its shortest form -/
def natural (s : Bytes) : Option (Nat × Bytes) :=
  match dialect.contentsOf integerTag s with
  | some (b :: more, rest) =>
    if b = 0 then if more.head?.any (· < 128) then none else some (bigEndian more, rest)
    else if 128 ≤ b then none
    else some (bigEndian (b :: more), rest)
  | _ => none

/-- a number above zero -/
def positive (s : Bytes) : Option (Nat × Bytes) :=
  match natural s with
  | some (n, rest) => if n = 0 then none else some (n, rest)
  | none => none

/-- bits in whole bytes that fill the bytes -/
def wholeBits (s : Bytes) : Option Bytes :=
  match dialect.whole bitsTag s with
  | some (0 :: bits) => some bits
  | _ => none

/-! ## The RSA family -/

/-- the numbers of a private key of the RSA family -/
structure RsaNumbers where
  modulus : Nat
  exponent : Nat
  secret : Nat
  p : Nat
  q : Nat
  /-- the secret exponent modulo `p - 1` and `q - 1` -/
  secretP : Nat
  secretQ : Nat
  /-- the inverse of `q` modulo `p` -/
  inverse : Nat

/-- the number of bits of a number -/
def bitLength (n : Nat) : Nat := if n = 0 then 0 else n.log2 + 1

/-- a prime has half as many bits as the modulus, rounded up, in whole groups of 512 -/
def isHalf (modulus p : Nat) : Bool :=
  p % 2 == 1 && bitLength p == (bitLength modulus + 1) / 2 && bitLength p % 512 == 0

/-- the numbers fit together and are of an allowed size -/
def RsaNumbers.isSound (k : RsaNumbers) : Bool :=
  let bits := bitLength k.modulus
  k.modulus % 2 == 1 && 2048 ≤ (bits + 7) / 8 * 8 && bits ≤ 4096 &&
    k.exponent % 2 == 1 && 65537 ≤ k.exponent && bitLength k.exponent ≤ 33 &&
    isHalf k.modulus k.p && isHalf k.modulus k.q && k.p * k.q % k.modulus == 0 &&
    k.secret % 2 == 1 && (bits + 1) / 2 < bitLength k.secret && k.secret < k.modulus &&
    k.inverse < k.p && k.inverse * k.q % k.p == 1 &&
    k.secretP % 2 == 1 && k.secretP < k.p && k.secretQ % 2 == 1 && k.secretQ < k.q

/-- the numbers of a private key, which fill the bytes -/
def rsaNumbers (s : Bytes) : Option RsaNumbers := do
  let s ← dialect.whole sequenceTag s
  let (version, s) ← natural s
  if version ≠ 0 then none
  let (modulus, s) ← positive s
  let (exponent, s) ← positive s
  let (secret, s) ← positive s
  let (p, s) ← positive s
  let (q, s) ← positive s
  let (secretP, s) ← positive s
  let (secretQ, s) ← positive s
  let (inverse, s) ← positive s
  if s = [] then some { modulus, exponent, secret, p, q, secretP, secretQ, inverse } else none

/-- the numbers are those of a usable key -/
def isRsa (s : Bytes) : Bool := (rsaNumbers s).any RsaNumbers.isSound

/-! ## Envelopes -/

/-- a key from an envelope: its version, its private half, and its public half if the version has one -/
structure Enveloped where
  secret : Bytes
  half : Option Bytes

/-- opens the envelope of a key with exactly this algorithm; only version 1 has a public half -/
def openEnvelope (algorithm : Bytes) (newer : Bool) (s : Bytes) : Option Enveloped := do
  let s ← dialect.whole sequenceTag s
  let (version, s) ← natural s
  let (a, s) ← dialect.contentsOf sequenceTag s
  if a ≠ algorithm ∨ 1 < version ∨ (version = 1 ∧ !newer) then none
  let (secret, s) ← dialect.contentsOf bytesTag s
  let s ← if s.head? = some (contextTag 0) then (dialect.contentsOf (contextTag 0) s).map Prod.snd else some s
  if version = 0 then
    if s = [] then some ⟨secret, none⟩ else none
  else
    let half ← wholeBits (← dialect.whole (contextTag 1) s)
    return ⟨secret, some half⟩

/-- the algorithm of an envelope for the RSA family -/
def rsaAlgorithm : Bytes := [0x06, 0x09] ++ rsaOid ++ [0x05, 0x00]

/-- the name of a curve as a value -/
def curveName (c : Curve) : Bytes := [0x06, UInt8.ofNat c.oid.length] ++ c.oid

/-- the algorithm of an envelope for a curve -/
def curveAlgorithm (c : Curve) : Bytes := [0x06, 0x07] ++ curveOid ++ curveName c

/-- the algorithm of an envelope for Ed25519 -/
def edwardsAlgorithm : Bytes := [0x06, 0x03] ++ RawScheme.ed25519.oid

/-! ## The other algorithms -/

/-- a private key of this curve with the public half that belongs to it -/
def isOnCurve (c : Curve) (s : Bytes) : Bool := Option.isSome do
  let s ← dialect.whole sequenceTag s
  let (version, s) ← natural s
  if version ≠ 1 then none
  let (secret, s) ← dialect.contentsOf bytesTag s
  let s ← if s.head? = some (contextTag 0) then
      match dialect.contentsOf (contextTag 0) s with
      | some (name, rest) => if name = curveName c then some rest else none
      | none => none
    else some s
  let half ← wholeBits (← dialect.whole (contextTag 1) s)
  let n := bigEndian secret
  if secret.length ≠ c.size ∨ n = 0 ∨ c.order ≤ n then none
  let p ← c.multiple n
  if c.encode p = half then some () else none

/-- the two curves that can be used for signing -/
def signingCurves : List Curve := [p256, p384]

/-- an Ed25519 key in an envelope -/
def isEdwards (s : Bytes) : Bool := Option.isSome do
  let k ← openEnvelope edwardsAlgorithm true s
  let secret ← dialect.whole bytesTag k.secret
  if secret.length ≠ ed25519.size then none
  if let some half := k.half then
    if ed25519.publicKey secret ≠ half then none
  return ()

/-- the algorithm of a key in an envelope -/
def envelopedAlgorithm (s : Bytes) : Option SigningAlgorithm :=
  if (openEnvelope rsaAlgorithm false s).any fun k => isRsa k.secret then some .rsa
  else if signingCurves.any fun c => (openEnvelope (curveAlgorithm c) false s).any fun k => isOnCurve c k.secret then
    some .ecdsa
  else if isEdwards s then some .ed25519
  else none

/-- the algorithm of a usable key -/
def signingAlgorithm (form : KeyForm) (s : Bytes) : Option SigningAlgorithm :=
  match form with
  | .numbers => if isRsa s then some .rsa else none
  | .envelope => envelopedAlgorithm s
  | .point => if signingCurves.any fun c => isOnCurve c s then some .ecdsa else none

/-- a usable signing key -/
def signingKey (form : KeyForm) (s : Bytes) : Option SigningKey :=
  (signingAlgorithm form s).map fun a => ⟨a, s⟩

end Canonical

end SecureEndpoint.Key
