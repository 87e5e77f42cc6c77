/-
Which signature schemes an endpoint offers, and in which order.

A policy allows ten schemes: six of the RSA family, three of the ECDSA family and Ed25519. The family of the loaded key
comes first, the other family second, Ed25519 last. `SignaturePolicy.order` cuts a list of supported schemes down to the
allowed ones, in policy order. Revocation is never checked.
-/

namespace SecureEndpoint.Tls

/-- the family of a private key, which decides the order of the signature schemes -/
inductive KeyFamily where
  | rsa
  | ecdsa
  deriving DecidableEq, Repr

/-- a TLS signature scheme by its code point -/
abbrev SignatureScheme := UInt16

/-- PSS before PKCS#1, shorter digests first -/
def rsaSchemes : List SignatureScheme := [0x0804, 0x0805, 0x0806, 0x0401, 0x0501, 0x0601]

/-- P-256, P-384 and P-521, each with the digest of its size -/
def ecdsaSchemes : List SignatureScheme := [0x0403, 0x0503, 0x0603]

def ed25519Scheme : SignatureScheme := 0x0807

/-- the schemes of one family, most preferred first -/
def KeyFamily.schemes : KeyFamily → List SignatureScheme
  | .rsa => rsaSchemes
  | .ecdsa => ecdsaSchemes

/-- the other family -/
def KeyFamily.other : KeyFamily → KeyFamily
  | .rsa => .ecdsa
  | .ecdsa => .rsa

/-- the name of a family in answers -/
def KeyFamily.name : KeyFamily → String
  | .rsa => "rsa"
  | .ecdsa => "ecdsa"

/-- the name of a family in events -/
def KeyFamily.label : KeyFamily → String
  | .rsa => "Rsa"
  | .ecdsa => "Ecdsa"

/-- reads the name of a family -/
def KeyFamily.ofName? (s : String) : Option KeyFamily :=
  [KeyFamily.rsa, .ecdsa].find? fun f => f.name == s

/-- the handshake policy of an endpoint -/
structure SignaturePolicy where
  preferred : KeyFamily := .rsa
  deriving DecidableEq, Repr

namespace SignaturePolicy

/-- puts a family first -/
def prefer (p : SignaturePolicy) (f : KeyFamily) : SignaturePolicy := { p with preferred := f }

/-- the allowed schemes, most preferred first -/
def allowed (p : SignaturePolicy) : List SignatureScheme :=
  p.preferred.schemes ++ p.preferred.other.schemes ++ [ed25519Scheme]

/-- the supported schemes that are allowed, in policy order -/
def order (p : SignaturePolicy) (supported : List SignatureScheme) : List SignatureScheme :=
  p.allowed.filter (supported.contains ·)

/-- revocation is never checked -/
def checksRevocation (_ : SignaturePolicy) : Bool := false

end SignaturePolicy

end SecureEndpoint.Tls
