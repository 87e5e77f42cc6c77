/-
How the two ends of a connection list a peer.

A native handle knows a peer's own certificate and the stack that came with it. Which stack that is depends on the end: a
client finds the own certificate once more at its front, a server does not (`presented_client`, `presented_server`). The report
puts the own certificate first and passes over what is encoded like it, so it does not show at which end it was made
(`listed_cons_own`), and a peer that repeats its own certificate anywhere in the chain gains nothing. Nothing else is left out
or moved: `both_ends_list_alike`.
-/
import SecureEndpoint.Proofs.Tls.Identity
import Mathlib.Data.List.Count

namespace SecureEndpoint.Tls.Snapshot

open Certificate
open Der (Bytes)

/-- the certificates behind the entries of a report -/
def listed (own : Option Certificate) (stack : List Certificate) : List Certificate :=
  own.toList ++ stack.filter fun c => own.all fun o => c.encoding ≠ o.encoding

theorem reported_eq (own : Option Certificate) (stack : List Certificate) :
    reported own stack = (listed own stack).map .ofCertificate := rfl

theorem listed_some (own : Certificate) (stack : List Certificate) :
    listed (some own) stack = own :: stack.filter fun c => c.encoding ≠ own.encoding := rfl

/-- the own certificate once more at the front of the stack changes nothing -/
theorem listed_cons_own (own : Certificate) (stack : List Certificate) :
    listed (some own) (own :: stack) = listed (some own) stack := by
  rw [listed_some, listed_some, List.filter_cons_of_neg]
  simp

/-- the own certificate is listed once, however often it is on the stack -/
theorem countP_listed (own : Certificate) (stack : List Certificate) :
    (listed (some own) stack).countP (·.encoding = own.encoding) = 1 := by
  have others : (stack.filter fun c => c.encoding ≠ own.encoding).countP (·.encoding = own.encoding) = 0 := by
    rw [List.countP_eq_zero]
    intro c hc
    simpa using (List.mem_filter.1 hc).2
  rw [listed_some, List.countP_cons_of_pos (by simp), others]

/-- what can be read of a chain -/
def readable (chain : List Bytes) : List Certificate := chain.filterMap fun s => (Lenient.certificate s).map Prod.fst

variable {n : Native} {chain : List Bytes} {leaf : Certificate} {rest : List Certificate}

theorem presented_client (client : n.role = .client) (h : readable chain = leaf :: rest) :
    n.presented chain = (some leaf, leaf :: rest) := by
  unfold readable at h
  simp [Native.presented, client, h]

theorem presented_server (server : n.role = .server) (h : readable chain = leaf :: rest) :
    n.presented chain = (some leaf, rest) := by
  unfold readable at h
  simp [Native.presented, server, h]

/-- **Both ends list a peer alike.** A client finds the peer's own certificate and the others on its stack, a server finds the
others alone. Both report the own certificate, once and first, and then the others that are encoded otherwise, each as often
and in the order as it is there; the peer is called what the own certificate calls it. Where there is neither a certificate nor
a stack, there is nothing to report. -/
theorem both_ends_list_alike (leaf : Certificate) (rest : List Certificate) :
    let others := rest.filter fun c => c.encoding ≠ leaf.encoding
    let report := reported (some leaf) rest
    reported (some leaf) (leaf :: rest) = report ∧
    report = (leaf :: others).map .ofCertificate ∧
    (leaf :: others).countP (·.encoding = leaf.encoding) = 1 ∧
    peerSubject? report = some (CertInfo.ofCertificate leaf).subject ∧
    peerIssuer? report = some (CertInfo.ofCertificate leaf).issuer ∧
    (∀ (client server : Native) (chain : List Bytes), client.role = .client → server.role = .server →
      readable chain = leaf :: rest →
        client.presented chain = (some leaf, leaf :: rest) ∧ server.presented chain = (some leaf, rest)) ∧
    reported none [] = [] := by
  intro others report
  refine ⟨?_, rfl, countP_listed leaf rest, (identity_is_own leaf rest).1, (identity_is_own leaf rest).2, ?_, rfl⟩
  · change reported (some leaf) (leaf :: rest) = reported (some leaf) rest
    rw [reported_eq, reported_eq, listed_cons_own]
  · intro client server chain hclient hserver h
    exact ⟨presented_client hclient h, presented_server hserver h⟩

/-- a chain in which the peer repeats its own certificate and the one behind it -/
theorem both_ends_list_alike_repeated :
    let own := Live.certificateEncoded "leaf" "ca"
    let other := Live.certificateEncoded "ca" "root"
    ∃ leaf ca, readable [own, other, own, other] = [leaf, ca, leaf, ca] ∧
      Native.presented { role := .client } [own, other, own, other] = (some leaf, [leaf, ca, leaf, ca]) ∧
      Native.presented { role := .server } [own, other, own, other] = (some leaf, [ca, leaf, ca]) ∧
      (reported (some leaf) [leaf, ca, leaf, ca]).map CertInfo.subject = ["leaf", "ca", "ca"] ∧
      (reported (some leaf) [ca, leaf, ca]).map CertInfo.subject = ["leaf", "ca", "ca"] := by
  intro own other
  have hown : ((Lenient.certificate own).map fun p => (p.1.encoding, (CertInfo.ofCertificate p.1).subject)) =
      some (own, "leaf") := by decide +kernel
  have hother : ((Lenient.certificate other).map fun p => (p.1.encoding, (CertInfo.ofCertificate p.1).subject)) =
      some (other, "ca") := by decide +kernel
  obtain ⟨⟨leaf, _⟩, hleaf, own_is⟩ := Option.map_eq_some_iff.1 hown
  obtain ⟨⟨ca, _⟩, hca, other_is⟩ := Option.map_eq_some_iff.1 hother
  obtain ⟨leafEncoding, leafSubject⟩ := Prod.mk.inj own_is
  obtain ⟨caEncoding, caSubject⟩ := Prod.mk.inj other_is
  have read : readable [own, other, own, other] = [leaf, ca, leaf, ca] := by simp [readable, hleaf, hca]
  obtain ⟨alike, report, -, -, -, known, -⟩ := both_ends_list_alike leaf [ca, leaf, ca]
  obtain ⟨client, server⟩ := known { role := .client } { role := .server } _ rfl rfl read
  have different : ca.encoding ≠ leaf.encoding := by
    rw [leafEncoding, caEncoding]
    decide +kernel
  have subjects : (reported (some leaf) [ca, leaf, ca]).map CertInfo.subject = ["leaf", "ca", "ca"] := by
    rw [report]
    simp [different, leafSubject, caSubject]
  exact ⟨leaf, ca, read, client, server, alike ▸ subjects, subjects⟩

end SecureEndpoint.Tls.Snapshot
