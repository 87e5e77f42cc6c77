/-
The context whose handles follow the material.

Such a context keeps its credentials and its signature policy on shelves. The handle is made when it is first asked for and
is the same ever after: it knows the places of the credentials and of the policy that were in use then, and looks there at
every handshake. Certificates of a chain are kept as bytes and not looked at. Directories of trust anchors are not
supported.
-/
import SecureEndpoint.Certificate.TrustAnchor
import SecureEndpoint.Key.Signing
import SecureEndpoint.Pem.Section
import SecureEndpoint.Tls.Endpoint
import SecureEndpoint.Tls.Shelf

namespace SecureEndpoint.Tls

open Der (Bytes)
open Certificate Key
open Host (Path Files)

/-- what a peer is verified for -/
inductive Purpose where
  | serverAuth
  | clientAuth
  deriving DecidableEq, Repr

/-- a chain with its private key -/
structure CertifiedKey where
  chain : List Bytes
  key : SigningKey
  deriving DecidableEq, Repr

/-- the credentials of an endpoint -/
structure Credentials where
  trustStore : Option (List TrustAnchor) := none
  chain : List Bytes := []
  key : Option SigningKey := none
  /-- the chain with the key, once both are there -/
  certified : Option CertifiedKey := none
  certRequired : Bool := true
  deriving DecidableEq, Repr

namespace Credentials

/-- whom to trust for a purpose; nobody is verified where nothing is required of clients -/
def trusted? (c : Credentials) (p : Purpose) : Option (List TrustAnchor) :=
  if p = .clientAuth ∧ c.certRequired = false then none else c.trustStore

/-- pairs the chain with the key -/
def refresh (c : Credentials) : Credentials :=
  { c with certified := match c.key with
      | some key => if c.chain = [] then none else some { chain := c.chain, key }
      | none => none }

/-- trusts these anchors and no others -/
def setTrustStore (c : Credentials) (anchors : List TrustAnchor) : Credentials := { c with trustStore := some anchors }

/-- presents this chain -/
def setChain (c : Credentials) (chain : List Bytes) : Credentials := { c with chain }.refresh

/-- uses this key -/
def setKey (c : Credentials) (key : SigningKey) : Credentials := { c with key := some key }.refresh

/-- requires a certificate of the peer, or not -/
def setCertRequired (c : Credentials) (required : Bool) : Credentials := { c with certRequired := required }

/-- there is something to present -/
def hasCertificate (c : Credentials) : Bool := c.certified.isSome

end Credentials

/-- what verifies the peers of a handle: the places of the credentials and of the policy that it consults -/
structure PeerVerifier where
  credentials : Nat
  policy : Nat
  deriving DecidableEq, Repr

/-- a handle, with a serial number of its own -/
structure LiveHandle where
  serial : Nat
  role : Role
  verifier : PeerVerifier
  /-- the place of the credentials that it presents -/
  resolver : Nat
  deriving DecidableEq, Repr

/-- a context whose handles follow the material -/
structure LiveContext where
  role : Role
  certRequired : Bool := true
  managers : Shelf Credentials := .single {}
  policies : Shelf SignaturePolicy := .single {}
  /-- the handle, once it was asked for -/
  made : Option LiveHandle := none
  deriving DecidableEq, Repr

namespace LiveContext

/-- the credentials in use -/
def credentials (c : LiveContext) : Credentials := c.managers.value

/-- the policy in use -/
def policy (c : LiveContext) : SignaturePolicy := c.policies.value

/-- a context without material -/
def fresh (role : Role) : Except TlsError LiveContext := .ok { role }

/-- makes a handle -/
def build (c : LiveContext) (serial : Nat) : LiveHandle where
  serial := serial
  role := c.role
  verifier := ⟨c.managers.place, c.policies.place⟩
  resolver := c.managers.place

/-- keeps a new handle if there is none yet; in any case the result is the handle that is kept -/
def settle (c : LiveContext) (own : LiveHandle) : LiveHandle × LiveContext :=
  match c.made with
  | some h => (h, c)
  | none => (own, { c with made := some own })

/-- the handle, which is made with this serial number if there is none -/
def handle (c : LiveContext) (serial : Nat) : LiveHandle × LiveContext := c.settle (c.build serial)

/-- changes the credentials in use, for everybody who knows their place -/
def alterCredentials (c : LiveContext) (f : Credentials → Credentials) : LiveContext :=
  { c with managers := c.managers.alter f }

/-- changes the policy in use, for everybody who knows its place -/
def alterPolicy (c : LiveContext) (f : SignaturePolicy → SignaturePolicy) : LiveContext :=
  { c with policies := c.policies.alter f }

/-- what a call brings to a context -/
inductive Load where
  | anchors (as : List TrustAnchor)
  | chain (cs : List Bytes)
  | key (k : SigningKey)
  | certRequired (b : Bool)
  deriving DecidableEq, Repr

/-- uses a key, whose family is preferred from now on -/
def useKey (k : SigningKey) : Operation LiveContext Unit := do
  if let some f := k.algorithm.family? then
    modify fun c => c.alterPolicy (·.prefer f)
  modify fun c => c.alterCredentials (·.setKey k)

/-- sets the requirement, which is kept in the context and with the credentials -/
def setCertRequired (required : Bool) : Operation LiveContext Unit := do
  refuseUnverified (← get).role required
  modify fun c => { c with certRequired := required }
  modify fun c => c.alterCredentials (·.setCertRequired required)

/-- takes what a call brings -/
def take : Load → Operation LiveContext Unit
  | .anchors as => modify fun c => c.alterCredentials (·.setTrustStore as)
  | .chain cs => modify fun c => c.alterCredentials (·.setChain cs)
  | .key k => useKey k
  | .certRequired required => setCertRequired required

/-- the names of sections that hold certificates -/
def certificateLabels : List Bytes := [Pem.ofText "CERTIFICATE"]

/-- the names of sections that hold private keys, with the form of their contents -/
def keyForms : List (Bytes × KeyForm) :=
  [(Pem.ofText "RSA PRIVATE KEY", .numbers), (Pem.ofText "PRIVATE KEY", .envelope), (Pem.ofText "EC PRIVATE KEY", .point)]

/-- the certificates in a file, at least one -/
def readCertificates (files : Files) (p : Path) : Except TlsError (List Bytes) :=
  match readFile files p with
  | .error e => .error e
  | .ok s =>
    match (Pem.sections s).all certificateLabels with
    | .error f => .error (aboutFile "unable to parse " p (": " ++ f.message))
    | .ok [] => .error (noCertificate p)
    | .ok cs => .ok cs

/-- the trust anchors of certificates -/
def anchorsOf (p : Path) (cs : List Bytes) : Except TlsError (List TrustAnchor) :=
  cs.mapM fun c =>
    match TrustAnchor.ofDer c with
    | .ok a => .ok a
    | .error e => .error (aboutFile "unusable trust anchor in " p (": " ++ e.message))

/-- the first private key in a file -/
def readKey (files : Files) (p : Path) : Except TlsError SigningKey :=
  match readFile files p with
  | .error e => .error e
  | .ok s =>
    match (Pem.sections s).first (keyForms.map Prod.fst) with
    | .error f => .error (aboutFile "unable to parse " p (": " ++ f.message))
    | .ok none => .error (aboutFile "no private key found in " p "")
    | .ok (some x) =>
      match (keyForms.find? fun f => f.1 == x.label).bind fun f => Key.Canonical.signingKey f.2 x.contents with
      | some k => .ok k
      | none => .error (.unexpected "failed to parse private key as RSA, ECDSA, or EdDSA")

/-- what a call brings -/
def read (files : Files) : Call → Except TlsError Load
  | .anchorFile p => (readCertificates files p >>= anchorsOf p).map .anchors
  | .anchorDirectory p =>
    .error (.notImplemented
      ("CA path '" ++ p.shown ++ "': directory trust stores are not supported by the rustls backend"))
  | .certificateFile p => (readCertificates files p).map .chain
  | .keyFile p => (readKey files p).map .key
  | .certRequired b => .ok (.certRequired b)

/-- what is reported about a call that brought this -/
def events (role : Role) : Call → Load → List Event
  | .anchorFile p, .anchors as => [.anchorsLoaded role p.shown as.length]
  | .certificateFile p, .chain cs => [.certificateLoaded role p.shown cs.length]
  | .keyFile p, .key k => [.keyLoaded role p.shown k.algorithm.family?]
  | _, _ => []

/-- makes a call -/
def call (files : Files) (x : Call) : Operation LiveContext (List Event) := do
  let l ← read files x
  take l
  return events (← get).role x l

instance : Endpoint LiveContext where
  fresh := fresh
  role := role
  certRequired := certRequired
  call := call

end LiveContext

end SecureEndpoint.Tls
