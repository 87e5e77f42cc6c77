/-
Private keys in a file of blocks.

The first block that holds a private key counts; blocks that cannot be read, or hold something else, are passed over,
but a header of some length ends the search. If that finds nothing, the first block for a private key counts, unless
something in front of it is broken. A block names the form of its contents: a key of any algorithm in a common envelope,
or a key of one algorithm without it. In the latter case the envelope is accepted too. Of a private key only its public
half is used afterwards, which is computed where the file does not give it.
-/
import SecureEndpoint.Key.PublicKey
import SecureEndpoint.Pem.Block

namespace SecureEndpoint.Key

open Der (Bytes bigEndian)

/-- a private key: its public half, and its encoding -/
structure PrivateKey where
  publicKey : PublicKey
  encoding : Bytes
  deriving DecidableEq, Repr

namespace Lenient

open Der Der.Lenient Certificate
open Certificate.Lenient (explicit? algorithm)

/-- a small version number; no bytes at all stand for zero -/
def version (s : Bytes) : Option (Nat × Bytes) :=
  match field Tag.integer s with
  | none => none
  | some (e, rest) =>
    if e.header.constructed || !(e.contents.isEmpty || isInteger e.contents) || 4 < e.contents.length then none
    else some (bigEndian e.contents, rest)

/-- the numbers of a private key of the RSA family; keys of more than two primes are not read -/
def rsaPrivate (s : Bytes) : Option PublicKey := do
  let (contents, _) ← constructed Tag.sequence s
  let (v, more) ← version contents
  if v = 1 then none
  let (modulus, more) ← number more
  let (exponent, more) ← number more
  let (_, more) ← number more
  let (_, more) ← number more
  let (_, more) ← number more
  let (_, more) ← number more
  let (_, more) ← number more
  let (_, more) ← number more
  if more = [] then some (.rsa modulus exponent) else none

/-- the curve of a private key: the one it names, or else `given` -/
def curveOf (given : Option Curve) (named : Option Bytes) : Option Curve :=
  match named with
  | none => given
  | some s =>
    match basic 6 s with
    | some (oid, []) => Curve.ofOid? oid
    | _ => none

/-- the private key of a curve -/
def curvePrivate (given : Option Curve) (s : Bytes) : Option PublicKey := do
  let (contents, _) ← constructed Tag.sequence s
  let (_, more) ← version contents
  let (secret, more) ← basic 4 more
  let (named, more) ← explicit? (Tag.ctx 0) more
  let (half, more) ← explicit? (Tag.ctx 1) more
  if more ≠ [] then none
  let curve ← curveOf given named
  match half with
  | none => return .point curve (curve.multiple (bigEndian secret))
  | some s =>
    match basic 3 s with
    | some (bits, []) => return .point curve (← curve.pointOf (bitsOf bits))
    | _ => none

/-- a private key that is a string of bytes -/
def rawPrivate (scheme : RawScheme) (s : Bytes) : Option PublicKey :=
  match basic 4 s with
  | none => none
  | some (secret, _) =>
    if secret.length ≠ scheme.size then none
    else some (.raw scheme (match scheme with
      | .ed25519 => ed25519.publicKey secret
      | .ed448 => ed448.publicKey secret
      | .x25519 | .x448 => []))

/-- an attribute of an envelope: a type and a set of values -/
def envelopeAttribute (e : Element) : Option Unit :=
  if e.tag ≠ Tag.sequence ∨ !e.header.constructed then none
  else match basic 6 e.contents with
    | none => none
    | some (_, more) =>
      match field Tag.set more with
      | some (set, []) => (listOf (fun v => anyValue v.encoding) set.contents).map fun _ => ()
      | _ => none

/-- the attributes of an envelope, which may be missing -/
def envelopeAttributes (s : Bytes) : Option Unit :=
  match explicit? (Tag.ctx 0) s with
  | some (none, []) => some ()
  | some (some contents, []) => (listOf envelopeAttribute contents).map fun _ => ()
  | _ => none

/-- an envelope: the algorithm and the key in it -/
def envelope (s : Bytes) : Option (Algorithm × Bytes) := do
  let (contents, _) ← constructed Tag.sequence s
  let (_, more) ← basic 2 contents
  let (a, more) ← algorithm more
  let (key, more) ← basic 4 more
  envelopeAttributes more
  return (a, key)

/-- a private key in an envelope -/
def enveloped (s : Bytes) : Option PublicKey := do
  let (a, key) ← envelope s
  if a.oid = rsaOid then rsaPrivate key
  else if a.oid = curveOid then curvePrivate (some (← namedCurve a.parameters)) key
  else
    let scheme ← RawScheme.ofOid? a.oid
    if a.parameters.isSome then none
    rawPrivate scheme key

/-- a key of the RSA family, with or without an envelope -/
def rsaOrEnveloped (s : Bytes) : Option PublicKey :=
  match rsaPrivate s with
  | some k => some k
  | none =>
    match enveloped s with
    | some (.rsa n e) => some (.rsa n e)
    | _ => none

/-- a key of a curve, with or without an envelope -/
def curveOrEnveloped (s : Bytes) : Option PublicKey :=
  match curvePrivate none s with
  | some k => some k
  | none =>
    match enveloped s with
    | some (.point c p) => some (.point c p)
    | _ => none

/-- the names of blocks that hold private keys, with the reader of their contents -/
def keyReaders : List (Bytes × (Bytes → Option PublicKey)) := [
  (Pem.ofText "PRIVATE KEY", enveloped),
  (Pem.ofText "ENCRYPTED PRIVATE KEY", enveloped),
  (Pem.ofText "EC PRIVATE KEY", curveOrEnveloped),
  (Pem.ofText "EC PARAMETERS", curveOrEnveloped),
  (Pem.ofText "RSA PRIVATE KEY", rsaOrEnveloped),
  (Pem.ofText "RSA PUBLIC KEY", rsaOrEnveloped)]

/-- headers up to this length are ignored -/
def ignoredHeader : Nat := 10

/-- the private key in a block -/
def keyOfBlock (b : Pem.Block) : Option PrivateKey :=
  match keyReaders.find? fun r => r.1 == b.label with
  | some r => (r.2 b.contents).map fun k => ⟨k, b.contents⟩
  | none => none

/-- the first private key in the blocks in front of one with a header that counts -/
def firstKey : List (Option Pem.Block) → Option PrivateKey
  | [] => none
  | none :: rest => firstKey rest
  | some b :: rest =>
    if ignoredHeader < b.header.length then none
    else match keyOfBlock b with
      | some k => some k
      | none => firstKey rest

/-- the names of blocks for private keys of all kinds -/
def keyLabels : List Bytes := ["PRIVATE KEY", "ENCRYPTED PRIVATE KEY", "EC PRIVATE KEY", "RSA PRIVATE KEY"].map Pem.ofText

/-- the private key in the first block for one, if it has no header and nothing in front of it is broken -/
def plainKey : List (Option Pem.Block) → Option PrivateKey
  | [] => none
  | none :: _ => none
  | some b :: rest =>
    if !keyLabels.contains b.label then plainKey rest
    else if b.header = [] then keyOfBlock b
    else none

/-- the first private key in a file -/
def privateKey (s : Bytes) : Option PrivateKey := (firstKey (Pem.blocks s)).or (plainKey (Pem.blocks s))

end Lenient

end SecureEndpoint.Key
