/-
Who the peer is said to be.

The name that is handed on is that of the first certificate reported about the peer. A snapshot handle puts the peer's own
certificate first, so the name is the peer's whatever came with it. A live handle leaves out what it cannot read before it
takes the first, so the name is the peer's own only where the own certificate can be read or nothing that follows can be:
`identity_is_own_iff`. Elsewhere the name is that of a certificate which the peer merely sent along.
-/
import SecureEndpoint.Tls.Peer
import Mathlib.Data.List.Basic

namespace SecureEndpoint.Tls

open Certificate
open Der (Bytes)

namespace Snapshot

theorem head?_reported (own : Certificate) (stack : List Certificate) :
    (reported (some own) stack).head? = some (.ofCertificate own) := rfl

/-- whatever comes with it, the peer's own certificate names it -/
theorem identity_is_own (own : Certificate) (stack : List Certificate) :
    peerSubject? (reported (some own) stack) = some (CertInfo.ofCertificate own).subject ∧
      peerIssuer? (reported (some own) stack) = some (CertInfo.ofCertificate own).issuer := by
  unfold peerSubject? peerIssuer?
  rw [head?_reported]
  exact ⟨rfl, rfl⟩

end Snapshot

namespace Live

/-- the first certificate on the report is the first of the chain that can be read -/
theorem head?_reported (chain : List Bytes) : (reported chain).head? = chain.findSome? CertInfo.ofDer? :=
  List.head?_filterMap

theorem head?_reported_of_readable {leaf : Bytes} {info : CertInfo} (h : CertInfo.ofDer? leaf = some info)
    (rest : List Bytes) : (reported (leaf :: rest)).head? = some info := by
  rw [head?_reported, List.findSome?_cons, h]

theorem head?_reported_of_unreadable {leaf : Bytes} (h : CertInfo.ofDer? leaf = none) (rest : List Bytes) :
    (reported (leaf :: rest)).head? = rest.findSome? CertInfo.ofDer? := by
  rw [head?_reported, List.findSome?_cons, h]

/-- **Whose identity is reported.** It is that of the peer's own certificate, the first of the chain, if and only if this
one can be read or none of the others can. -/
theorem identity_is_own_iff (leaf : Bytes) (rest : List Bytes) :
    (peerSubject? (reported (leaf :: rest)) = (CertInfo.ofDer? leaf).map CertInfo.subject ∧
        peerIssuer? (reported (leaf :: rest)) = (CertInfo.ofDer? leaf).map CertInfo.issuer) ↔
      (CertInfo.ofDer? leaf).isSome ∨ ∀ c ∈ rest, CertInfo.ofDer? c = none := by
  unfold peerSubject? peerIssuer?
  cases h : CertInfo.ofDer? leaf with
  | some info =>
    rw [head?_reported_of_readable h]
    exact ⟨fun _ => .inl rfl, fun _ => ⟨rfl, rfl⟩⟩
  | none =>
    rw [head?_reported_of_unreadable h, ← List.findSome?_eq_none_iff]
    constructor
    · intro own
      exact .inr (Option.map_eq_none_iff.1 own.1)
    · rintro (readable | none_readable)
      · cases readable
      · rw [none_readable]
        exact ⟨rfl, rfl⟩

/-- a value with a tag of one byte and contents of fewer than 128 bytes -/
def encoded (tag : UInt8) (contents : Bytes) : Bytes := tag :: UInt8.ofNat contents.length :: contents

/-- a name with nothing but a common name -/
def nameEncoded (commonName : String) : Bytes :=
  encoded 0x30 (encoded 0x31 (encoded 0x30 (encoded 0x06 [0x55, 0x04, 0x03] ++ encoded 0x0c (Pem.ofText commonName))))

/-- a certificate of the first version with empty keys and an empty signature -/
def certificateEncoded (subject issuer : String) : Bytes :=
  let algorithm := encoded 0x30 (encoded 0x06 [0x2b, 0x65, 0x70])
  let moment := encoded 0x17 (Pem.ofText "200101000000Z")
  let empty := encoded 0x03 [0]
  let signed := encoded 0x30
    (encoded 0x02 [1] ++ algorithm ++ nameEncoded issuer ++ encoded 0x30 (moment ++ moment) ++ nameEncoded subject ++
      encoded 0x30 (algorithm ++ empty))
  encoded 0x30 (signed ++ algorithm ++ empty)

/-- a first certificate that cannot be read, and one behind it that lends its names -/
theorem identity_borrowed :
    let chain := [encoded 0x30 [], certificateEncoded "admin" "ca"]
    CertInfo.ofDer? (encoded 0x30 []) = none ∧ peerSubject? (reported chain) = some "admin" ∧
      peerIssuer? (reported chain) = some "ca" := by
  decide +kernel

end Live

end SecureEndpoint.Tls
