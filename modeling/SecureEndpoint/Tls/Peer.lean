/-
The peer of a connection: when it is admitted and what is reported about it.

A peer presents a chain of certificates, its own one first, or none at all. Whether a chain leads to a trust anchor is for
a `Judge` to say, who admits nobody where nobody is trusted. A server presents a chain in any case; a client does so only
if it is asked. `Native.authenticate` and `Terms.authenticate` say what an endpoint makes of a chain: it refuses the peer,
or it goes on and knows the chain it asked for.

`Native.authenticate` follows the verify mode that was set when the handle was taken. The terms of a live handle are those
of the moment of the handshake: `LiveHandle.terms` collects all that a handshake consults, at the places that the handle
knows.

The identity of a peer is that of the first certificate on the list that is reported about it. The two kinds of context
make this list in different ways: `Snapshot.reported` puts the peer's own certificate first and leaves out what is
encoded as it is, `Live.reported` leaves out what cannot be read.
-/
import SecureEndpoint.Tls.Live
import SecureEndpoint.Tls.Snapshot

namespace SecureEndpoint.Tls

open Certificate
open Der (Bytes)

/-- why a peer is not admitted -/
inductive Refusal where
  /-- it had to present a certificate and did not -/
  | noCertificate
  /-- there is nothing to verify it against -/
  | noTrustAnchor
  /-- its chain leads to no trust anchor -/
  | unverified
  deriving DecidableEq, Repr

/-- says which chains lead to one of the trust anchors -/
structure Judge (A : Type) where
  verifies : Purpose → List A → List Bytes → Bool
  /-- no chain leads to one of no anchors -/
  verifies_nil : ∀ p chain, verifies p [] chain = false

/-- what the peer of an endpoint is verified for -/
def Role.peerPurpose : Role → Purpose
  | .client => .serverAuth
  | .server => .clientAuth

namespace Snapshot

/-- a trust anchor of a native context -/
inductive Anchor where
  | certificate (c : Certificate)
  /-- the certificates in a directory -/
  | directory (path : String)
  deriving DecidableEq, Repr

namespace Native

/-- the trust anchors, those of files first -/
def trusted (n : Native) : List Anchor := n.anchors.map .certificate ++ (n.directory.map .directory).toList

/-- the peer presents its chain: every server, and a client that is asked -/
def seesChain (n : Native) : Bool := n.role = .client || n.verify.peer

/-- a peer without a certificate is refused: every server, and a client where it is set -/
def refusesEmpty (n : Native) : Bool := n.role = .client || (n.verify.peer && n.verify.failIfNone)

/-- what becomes of a peer with this chain: the chain that is known of it -/
def authenticate (j : Judge Anchor) (n : Native) (chain : List Bytes) : Except Refusal (List Bytes) :=
  if !n.seesChain then .ok []
  else if chain = [] then if n.refusesEmpty then .error .noCertificate else .ok []
  else if !n.verify.peer then .ok chain
  else if j.verifies n.role.peerPurpose n.trusted chain then .ok chain
  else .error .unverified

/-- what is there of a peer of which this chain is known: its own certificate, and the stack that came with it, where a
client finds the own certificate once more -/
def presented (n : Native) (known : List Bytes) : Option Certificate × List Certificate :=
  let read := known.filterMap fun s => (Lenient.certificate s).map Prod.fst
  (read.head?, if n.role = .client then read else read.tail)

end Native

/-- the list of certificates reported about a peer, from its own certificate and the stack that came with it: the own one
first, then those of the stack that are encoded otherwise -/
def reported (own : Option Certificate) (stack : List Certificate) : List CertInfo :=
  ((own.toList ++ stack.filter fun c => own.all fun o => c.encoding ≠ o.encoding)).map CertInfo.ofCertificate

end Snapshot

/-- what a handshake through a live handle consults -/
structure Terms where
  role : Role
  /-- the chain and the key to present -/
  certified : Option CertifiedKey
  /-- there is something to present -/
  hasCertificate : Bool
  /-- whom to trust as a server -/
  trustedServers : Option (List TrustAnchor)
  /-- whom to trust as a client -/
  trustedClients : Option (List TrustAnchor)
  /-- a server asks its client for a certificate -/
  asks : Bool
  /-- a server refuses a client without one -/
  insists : Bool
  /-- the signature schemes to advertise, most preferred first -/
  schemes : List SignatureScheme
  deriving DecidableEq, Repr

/-- what a handshake consults if it takes place now, with the schemes that can be verified -/
def LiveHandle.terms (h : LiveHandle) (now : LiveContext) (supported : List SignatureScheme) : Terms :=
  let presented := (now.managers.at? h.resolver).getD {}
  let consulted := (now.managers.at? h.verifier.credentials).getD {}
  let policy := (now.policies.at? h.verifier.policy).getD {}
  { role := h.role
    certified := presented.certified
    hasCertificate := presented.hasCertificate
    trustedServers := consulted.trusted? .serverAuth
    trustedClients := consulted.trusted? .clientAuth
    asks := consulted.certRequired
    insists := consulted.certRequired
    schemes := policy.order supported }

/-- a handle serves no other role than the one it was made for -/
def LiveHandle.checkRole (h : LiveHandle) (wanted : Role) : Except TlsError Unit :=
  match h.role, wanted with
  | .client, .server => .error (.misuse "client context used to accept a connection")
  | .server, .client => .error (.misuse "server context used to open a connection")
  | _, _ => .ok ()

/-- why a server does not accept the certificate of its client -/
inductive ClientFault where
  /-- there is no trust store to consult -/
  | noStore
  /-- the trust store has no anchors -/
  | emptyStore
  /-- the chain leads to no anchor of the trust store -/
  | unverified
  deriving DecidableEq, Repr

/-- the wording of a fault, where it is not that of the judge -/
def ClientFault.text? : ClientFault → Option String
  | .noStore => some "no trust anchor installed"
  | .emptyStore => some "unable to build client verifier: no root trust anchors were provided"
  | .unverified => none

/-- the verifier of clients over a trust store -/
def clientVerifier (j : Judge TrustAnchor) (anchors : List TrustAnchor) : Except ClientFault (List Bytes → Bool) :=
  if anchors = [] then .error .emptyStore else .ok (j.verifies .clientAuth anchors)

namespace Terms

/-- whom to trust for a purpose -/
def trusted? (t : Terms) : Purpose → Option (List TrustAnchor)
  | .serverAuth => t.trustedServers
  | .clientAuth => t.trustedClients

/-- verifies the chain of a peer for a purpose; where there is nobody to trust, nobody is verified -/
def verify (j : Judge TrustAnchor) (t : Terms) (p : Purpose) (chain : List Bytes) : Except Refusal Unit :=
  match t.trusted? p with
  | none => .error .noTrustAnchor
  | some anchors => if j.verifies p anchors chain then .ok () else .error .unverified

/-- verifies the chain of a client, step by step: a trust store is consulted, a verifier is made of it, which takes anchors,
and the verifier judges the chain -/
def verifyClient (j : Judge TrustAnchor) (t : Terms) (chain : List Bytes) : Except ClientFault Unit :=
  match t.trustedClients with
  | none => .error .noStore
  | some anchors => do
    let accepts ← clientVerifier j anchors
    if accepts chain then .ok () else .error .unverified

/-- what becomes of a peer with this chain: the chain that is known of it -/
def authenticate (j : Judge TrustAnchor) (t : Terms) (chain : List Bytes) : Except Refusal (List Bytes) :=
  if t.role = .server ∧ t.asks = false then .ok []
  else if chain = [] then if t.role = .client ∨ t.insists then .error .noCertificate else .ok []
  else (t.verify j t.role.peerPurpose chain).map fun _ => chain

end Terms

namespace Live

/-- the list of certificates reported about a peer: what can be read of its chain -/
def reported (chain : List Bytes) : List CertInfo := chain.filterMap CertInfo.ofDer?

end Live

/-- the subject of a peer, from what is reported about it -/
def peerSubject? (reported : List CertInfo) : Option String := reported.head?.map CertInfo.subject

/-- the issuer of a peer, from what is reported about it -/
def peerIssuer? (reported : List CertInfo) : Option String := reported.head?.map CertInfo.issuer

end SecureEndpoint.Tls
