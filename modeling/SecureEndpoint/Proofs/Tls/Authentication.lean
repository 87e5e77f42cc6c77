/-
Peers are authenticated, whatever was called before.

Whether a peer is asked for a certificate, and whom it is verified against, is decided in one place and consulted in
another. A snapshot handle carries the verify mode and the trust anchors it was built with; a live handle looks at the
credentials, once when it decides whether to ask and again when the answer comes. The handshake itself belongs to the native
library: `Snapshot.Enforced` and `Live.Enforced` say what is relied on there.

`peers_are_authenticated` puts both together. A client always asks and insists, a server does so according to its
requirement, a chain that was asked for is verified against the trust anchors that were loaded, and a server that does not
ask has no name to report.
-/
import SecureEndpoint.Proofs.Tls.NativeView
import SecureEndpoint.Proofs.Tls.Rebuild
import SecureEndpoint.Proofs.Tls.Sharing

namespace SecureEndpoint.Tls

open Certificate
open Der (Bytes)
open Host (Path Files)

/-- a call that brings trust anchors -/
def Call.bringsAnchors : Call → Bool
  | .anchorFile _ | .anchorDirectory _ => true
  | _ => false

/-- what a handshake that succeeded says about a peer with this chain -/
structure Authenticated (asked insisted : Bool) (Verified : Prop) (chain : List Bytes) (report : List CertInfo) :
    Prop where
  demanded : asked = true → insisted = true → chain ≠ []
  verified : asked = true → chain ≠ [] → Verified
  anonymous : asked = false → peerSubject? report = none

/-- where a certificate was required, it was verified -/
theorem Authenticated.verified_of_required {asked insisted : Bool} {Verified : Prop} {chain : List Bytes}
    {report : List CertInfo} (h : Authenticated asked insisted Verified chain report) (ha : asked = true)
    (hi : insisted = true) : Verified :=
  h.verified ha (h.demanded ha hi)

theorem refuseUnverified_fresh (role : Role) : refuseUnverified role true = .ok () := by
  cases role <;> rfl

/-- a client that was not refused requires a certificate -/
theorem required_of_not_refused {required : Bool} (h : refuseUnverified .client required = .ok ()) : required = true := by
  cases required with
  | true => rfl
  | false => cases h

namespace Snapshot

/-! ## What is relied on in a handshake -/

section

variable {N : Type} {b : Builder N}

/-- what a native library makes of a context in a handshake. `shake n chain own stack` says that a handshake can succeed
through `n` with a peer that has this chain to present, and that `own` and `stack` are there of the peer afterwards. -/
structure Enforced (j : Judge Anchor) (see : N → View)
    (shake : N → List Bytes → Option Certificate → List Certificate → Prop) : Prop where
  /-- whoever presents a chain to an endpoint that verifies its peer leads to a trust anchor -/
  verifies : ∀ {n chain own stack}, shake n chain own stack → (see n).verify.peer = true → chain ≠ [] →
    j.verifies (see n).role.peerPurpose (see n).trusted chain = true
  /-- every server presents a chain -/
  serverPresents : ∀ {n chain own stack}, shake n chain own stack → (see n).role = .client → chain ≠ []
  /-- a client without a chain is refused where it is set -/
  failsIfNone : ∀ {n chain own stack}, shake n chain own stack → (see n).role = .server → (see n).verify.peer = true →
    (see n).verify.failIfNone = true → chain ≠ []
  /-- a client that is not asked presents nothing -/
  unasked : ∀ {n chain own stack}, shake n chain own stack → (see n).role = .server → (see n).verify.peer = false →
    own = none ∧ stack = []

/-- no report has a name when there is nothing of the peer -/
theorem peerSubject?_reported_nothing : peerSubject? (reported none []) = none := rfl

/-- a native context guards an endpoint as it is recorded in a context -/
structure Guards (j : Judge Anchor) (see : N → View) (shake : N → List Bytes → Option Certificate → List Certificate → Prop)
    (c : Context b) (n : N) : Prop where
  built : see n = c.material.view c.role c.certRequired
  client : c.role = .client → (see n).verify.peer = true
  server : c.role = .server → (see n).verify = ⟨c.certRequired, c.certRequired⟩
  authenticated : ∀ {chain own stack}, shake n chain own stack →
    Authenticated c.certRequired c.certRequired (j.verifies c.role.peerPurpose (see n).trusted chain = true) chain
      (reported own stack)

theorem Context.required_of_guarded {c : Context b} (h : c.Guarded) (client : c.role = .client) :
    c.certRequired = true := by
  unfold Context.Guarded at h
  rw [client] at h
  exact required_of_not_refused h

variable {see : N → View} {j : Judge Anchor} {shake : N → List Bytes → Option Certificate → List Certificate → Prop}
  {c : Context b}

/-- a native context that was built from what is recorded guards the endpoint -/
theorem Enforced.guards (enforced : Enforced j see shake) (faithful : b.Faithful see) (built : c.Built)
    (guarded : c.Guarded) : Guards j see shake c c.handle := by
  have hsee : see c.handle = c.material.view c.role c.certRequired := faithful.see_build built
  have hrole : (see c.handle).role = c.role := by rw [hsee]; rfl
  have hverify : (see c.handle).verify = .of c.role c.certRequired := by rw [hsee]; rfl
  have hclient : c.role = .client → (see c.handle).verify.peer = true := by
    intro client
    rw [hverify, client]
    rfl
  have hserver : c.role = .server → (see c.handle).verify = ⟨c.certRequired, c.certRequired⟩ := by
    intro server
    rw [hverify, server]
    cases c.certRequired <;> rfl
  refine ⟨hsee, hclient, hserver, ?_⟩
  intro chain own stack h
  cases role : c.role with
  | client =>
    have presented : chain ≠ [] := enforced.serverPresents h (hrole.trans role)
    refine ⟨fun _ _ => presented, fun _ _ => ?_, ?_⟩
    · rw [← role, ← hrole]
      exact enforced.verifies h (hclient role) presented
    · intro unasked
      rw [Context.required_of_guarded guarded role] at unasked
      cases unasked
  | server =>
    have mode := hserver role
    refine ⟨?_, ?_, ?_⟩
    · intro asked insisted
      exact enforced.failsIfNone h (hrole.trans role) (by rw [mode]; exact asked) (by rw [mode]; exact insisted)
    · intro asked presented
      rw [← role, ← hrole]
      exact enforced.verifies h (by rw [mode]; exact asked) presented
    · intro unasked
      obtain ⟨rfl, rfl⟩ := enforced.unasked h (hrole.trans role) (by rw [mode]; exact unasked)
      exact peerSubject?_reported_nothing

/-- material that trusts nobody -/
def Material.TrustsNobody (m : Material) : Prop := m.anchors = [] ∧ m.directory = none

theorem trusted_of_trustsNobody {m : Material} (h : m.TrustsNobody) (role : Role) (required : Bool) :
    (m.view role required).trusted = [] := by
  obtain ⟨anchors, directory⟩ := h
  unfold View.trusted Material.view
  rw [anchors, directory]
  rfl

/-- where a certificate is required and nobody is trusted, nobody is admitted -/
theorem Guards.refuses {n : N} (h : Guards j see shake c n) (nobody : c.material.TrustsNobody)
    (required : c.certRequired = true) {chain : List Bytes} {own : Option Certificate} {stack : List Certificate} :
    ¬ shake n chain own stack := by
  intro hs
  have verified := (h.authenticated hs).verified_of_required required required
  rw [h.built, trusted_of_trustsNobody nobody, j.verifies_nil] at verified
  cases verified

end

/-! ## The native library that endpoints run with -/

namespace Native

/-- a handshake succeeds where the peer is not refused -/
def Shakes (j : Judge Anchor) (n : Native) (chain : List Bytes) (own : Option Certificate) (stack : List Certificate) :
    Prop :=
  ∃ known, n.authenticate j chain = .ok known ∧ n.presented known = (own, stack)

theorem enforced (j : Judge Anchor) : Enforced j view (Shakes j) where
  verifies := by
    rintro n chain own stack ⟨known, h, -⟩ peer presented
    change n.verify.peer = true at peer
    change j.verifies n.role.peerPurpose n.trusted chain = true
    by_contra unverified
    simp [authenticate, seesChain, peer, presented, unverified] at h
  serverPresents := by
    rintro n chain own stack ⟨known, h, -⟩ client rfl
    change n.role = .client at client
    simp [authenticate, seesChain, refusesEmpty, client] at h
  failsIfNone := by
    rintro n chain own stack ⟨known, h, -⟩ - peer failIfNone rfl
    change n.verify.peer = true at peer
    change n.verify.failIfNone = true at failIfNone
    simp [authenticate, seesChain, refusesEmpty, peer, failIfNone] at h
  unasked := by
    rintro n chain own stack ⟨known, h, presented⟩ server peer
    change n.role = .server at server
    change n.verify.peer = false at peer
    simp only [authenticate, seesChain, server, peer] at h
    cases h
    simpa [Native.presented, eq_comm] using presented

end Native

/-! ## What calls leave -/

/-- only the calls that bring anchors change whom material trusts -/
theorem trustsNobody_into {files : Files} {x : Call} {l : Load} (h : read files x = .ok l)
    (hx : x.bringsAnchors = false) {m : Material} (hm : m.TrustsNobody) : (l.into m).TrustsNobody := by
  cases x with
  | anchorFile p => cases hx
  | anchorDirectory p => cases hx
  | certificateFile p =>
    obtain ⟨cs, -, rfl⟩ := exists_of_map_ok h
    exact hm
  | keyFile p =>
    obtain ⟨k, -, rfl⟩ := exists_of_map_ok h
    exact hm
  | certRequired required =>
    cases h
    exact hm

namespace Context

variable {N : Type} {b : Builder N}

theorem trustsNobody_history {c : Context b} (h : c.material.TrustsNobody) {xs : List (Files × Call)}
    (only : ∀ x ∈ accepted c xs, x.2.bringsAnchors = false) : (history c xs).material.TrustsNobody := by
  refine history_keeps_of_accepted (I := fun c => c.material.TrustsNobody) (K := fun x => x.bringsAnchors = false)
    atomic ?_ h only
  intro files c d x events hx kind hc
  have called := called_attempt files c x
  rw [hx] at called
  cases called with
  | done read taken =>
    rw [taken.recorded.2]
    exact trustsNobody_into read kind hc

/-- whatever was called, what is recorded is built and a client does not go without verification -/
theorem guarded_history {role : Role} {c₀ : Context b} (h : fresh role = .ok c₀) (xs : List (Files × Call)) :
    (history c₀ xs).role = role ∧ (history c₀ xs).Built ∧ (history c₀ xs).Guarded := by
  obtain ⟨built, role_eq, required_eq, -⟩ := built_fresh h
  have guarded : c₀.Guarded := by
    unfold Guarded
    rw [required_eq]
    exact refuseUnverified_fresh c₀.role
  refine ⟨(history_recorded c₀ xs).1.trans role_eq, built_history built xs, ?_⟩
  exact history_keeps (attempt_keeps Taken.guarded) guarded xs

end Context

end Snapshot

namespace LiveContext

/-! ## What the credentials say -/

/-- the requirement with the credentials is that of the context, and a client does not go without verification -/
structure Guarded (c : LiveContext) : Prop where
  same : c.credentials.certRequired = c.certRequired
  client : refuseUnverified c.role c.certRequired = .ok ()

theorem Guarded.required {c : LiveContext} (h : c.Guarded) (client : c.role = .client) : c.certRequired = true := by
  have hrefuse := h.client
  rw [client] at hrefuse
  exact required_of_not_refused hrefuse

/-- the credentials behind a load -/
def Load.into : Load → Credentials → Credentials
  | .anchors as, c => c.setTrustStore as
  | .chain cs, c => c.setChain cs
  | .key k, c => c.setKey k
  | .certRequired required, c => c.setCertRequired required

theorem credentials_put (c : LiveContext) (l : Load) : (c.put l).credentials = l.into c.credentials := by
  cases l <;> exact Shelf.value_alter _ _

theorem guarded_put {c : LiveContext} {l : Load} (check : l.check c.role = .ok ()) (h : c.Guarded) :
    (c.put l).Guarded := by
  constructor
  · rw [credentials_put]
    cases l with
    | certRequired required => rfl
    | anchors | chain | key => exact h.same
  · rw [role_put]
    cases l with
    | certRequired required => exact check
    | anchors | chain | key => exact h.client

/-- a context that trusts nobody -/
def TrustsNobody (c : LiveContext) : Prop := c.credentials.trustStore = none

/-- only the calls that bring anchors change whom a context trusts -/
theorem trustsNobody_put {files : Files} {x : Call} {l : Load} (h : read files x = .ok l) (hx : x.bringsAnchors = false)
    {c : LiveContext} (hc : c.TrustsNobody) : (c.put l).TrustsNobody := by
  unfold TrustsNobody
  rw [credentials_put]
  cases x with
  | anchorFile p => cases hx
  | anchorDirectory p => cases hx
  | certificateFile p =>
    obtain ⟨cs, -, rfl⟩ := exists_of_map_ok h
    exact hc
  | keyFile p =>
    obtain ⟨k, -, rfl⟩ := exists_of_map_ok h
    exact hc
  | certRequired required =>
    cases h
    exact hc

theorem trustsNobody_history {c : LiveContext} (h : c.TrustsNobody) {xs : List (Files × Call)}
    (only : ∀ x ∈ accepted c xs, x.2.bringsAnchors = false) : (history c xs).TrustsNobody := by
  refine history_keeps_of_accepted (I := TrustsNobody) (K := fun x => x.bringsAnchors = false) atomic ?_ h only
  intro files c d x events hx kind hc
  rw [attempt_eq] at hx
  cases hread : LiveContext.read files x with
  | error e =>
    rw [hread] at hx
    cases hx
  | ok l =>
    rw [hread] at hx
    cases hl : l.check c.role with
    | error e =>
      simp only [hl] at hx
      cases hx
    | ok u =>
      simp only [hl] at hx
      cases hx
      exact trustsNobody_put hread kind hc

theorem guarded_run (role : Role) (moves : List InquiryMove) :
    let c := ((Inquiry.start role).run moves).context
    c.role = role ∧ c.Guarded := by
  refine Inquiry.run_keeps (I := fun c => c.role = role ∧ c.Guarded) ?_ ?_ ⟨rfl, rfl, refuseUnverified_fresh role⟩ moves
  · intro files c x h
    refine attempt_keeps (I := fun c => c.role = role ∧ c.Guarded) ?_ files c x h
    intro d l check hd
    exact ⟨(d.role_put l).trans hd.1, guarded_put check hd.2⟩
  · intro c own h
    unfold settle
    cases c.made with
    | some k => exact h
    | none => exact ⟨h.1, h.2.same, h.2.client⟩

/-- whom a context trusts does not depend on whether its handle is made -/
theorem trustsNobody_run (role : Role) {moves : List InquiryMove}
    (only : ∀ x ∈ (Inquiry.start role).succeeded moves, x.2.bringsAnchors = false) :
    ((Inquiry.start role).run moves).context.TrustsNobody := by
  obtain ⟨hist, again⟩ := (Inquiry.start role).run_succeeded moves
  have h : (history (Inquiry.start role).context.forget ((Inquiry.start role).succeeded moves)).TrustsNobody := by
    apply trustsNobody_history
    · rfl
    · rw [again]
      exact only
  rw [hist] at h
  exact h

end LiveContext

namespace Live

/-! ## What is relied on in a handshake -/

/-- what a native library makes of a live handle in a handshake. `shake offered now chain known` says that a handshake can
succeed with a peer that has this chain to present, and that `known` is there of the peer afterwards; `offered` is what the
handle says when a server decides whether to ask, `now` what it says when the answer is there. -/
structure Enforced (j : Judge TrustAnchor) (shake : Terms → Terms → List Bytes → List Bytes → Prop) : Prop where
  /-- every server presents a chain, and a client lets the handle verify it -/
  server : ∀ {offered now chain known}, shake offered now chain known → now.role = .client →
    chain ≠ [] ∧ now.verify j .serverAuth chain = .ok ()
  /-- a server lets the handle verify what a client presents that was asked -/
  client : ∀ {offered now chain known}, shake offered now chain known → now.role = .server → offered.asks = true →
    chain ≠ [] → now.verify j .clientAuth chain = .ok ()
  /-- a server refuses a client without a chain if the handle insists -/
  mandatory : ∀ {offered now chain known}, shake offered now chain known → now.role = .server → offered.asks = true →
    now.insists = true → chain ≠ []
  /-- a client that is not asked presents nothing -/
  unasked : ∀ {offered now chain known}, shake offered now chain known → now.role = .server → offered.asks = false →
    known = []

section

variable {j : Judge TrustAnchor} {shake : Terms → Terms → List Bytes → List Bytes → Prop} {c d : LiveContext}
  {offered now : Terms} {chain known : List Bytes}

/-- whoever is verified leads to one of the trust anchors in use -/
theorem trustStore_of_verify {supported : List SignatureScheme} {p : Purpose}
    (h : (c.terms supported).verify j p chain = .ok ()) :
    ∃ anchors, c.credentials.trustStore = some anchors ∧ j.verifies p anchors chain = true := by
  rw [Terms.verify, LiveContext.trusted_terms] at h
  split at h
  · cases h
  · rename_i anchors found
    refine ⟨anchors, Credentials.trustStore_of_trusted found, ?_⟩
    by_contra hj
    rw [if_neg hj] at h
    cases h

/-- a live handle guards an endpoint as it is recorded in a context, which is `c` when a server decides whether to ask and
`d` when the answer is there -/
structure Guards (j : Judge TrustAnchor) (shake : Terms → Terms → List Bytes → List Bytes → Prop) (c d : LiveContext)
    (offered now : Terms) : Prop where
  role : now.role = d.role
  /-- a server is verified whatever is required -/
  servers : now.trustedServers = d.credentials.trustStore
  asks : offered.asks = c.certRequired
  insists : now.insists = d.certRequired
  authenticated : ∀ {chain known}, shake offered now chain known →
    Authenticated c.certRequired d.certRequired
      (∃ anchors, d.credentials.trustStore = some anchors ∧ j.verifies d.role.peerPurpose anchors chain = true) chain
      (reported known)

/-- what is in use in guarded contexts guards the endpoint -/
theorem Enforced.guards (enforced : Enforced j shake) (hc : c.Guarded) (hd : d.Guarded) (same : c.role = d.role)
    (supported : List SignatureScheme) : Guards j shake c d (c.terms supported) (d.terms supported) := by
  have hasks : (c.terms supported).asks = c.certRequired := hc.same
  have hinsists : (d.terms supported).insists = d.certRequired := hd.same
  refine ⟨rfl, rfl, hasks, hinsists, ?_⟩
  intro chain known h
  cases role : d.role with
  | client =>
    obtain ⟨presented, verified⟩ := enforced.server h role
    refine ⟨fun _ _ => presented, fun _ _ => trustStore_of_verify verified, ?_⟩
    intro unasked
    rw [hc.required (same.trans role)] at unasked
    cases unasked
  | server =>
    refine ⟨?_, ?_, ?_⟩
    · intro asked insisted
      exact enforced.mandatory h role (hasks.trans asked) (hinsists.trans insisted)
    · intro asked presented
      exact trustStore_of_verify (enforced.client h role (hasks.trans asked) presented)
    · intro unasked
      rw [enforced.unasked h role (hasks.trans unasked)]
      rfl

/-- where a certificate is required and nobody is trusted, nobody is admitted -/
theorem Guards.refuses (h : Guards j shake c d offered now) (nobody : d.TrustsNobody) (asked : c.certRequired = true)
    (insisted : d.certRequired = true) : ¬ shake offered now chain known := by
  intro hs
  obtain ⟨anchors, found, -⟩ := (h.authenticated hs).verified_of_required asked insisted
  rw [nobody] at found
  cases found

/-- a handshake succeeds where the peer is not refused -/
def Shakes (j : Judge TrustAnchor) (offered now : Terms) (chain known : List Bytes) : Prop :=
  { now with asks := offered.asks }.authenticate j chain = .ok known

/-- a peer that is asked and presents a chain is verified -/
theorem verify_of_shakes (h : Shakes j offered now chain known)
    (asked : ¬ (now.role = .server ∧ offered.asks = false)) (presented : chain ≠ []) :
    now.verify j now.role.peerPurpose chain = .ok () := by
  unfold Shakes Terms.authenticate at h
  rw [if_neg asked, if_neg presented] at h
  obtain ⟨u, verified, -⟩ := exists_of_map_ok h
  exact verified

end

theorem enforced (j : Judge TrustAnchor) : Enforced j (Shakes j) where
  server := by
    intro offered now chain known h client
    have presented : chain ≠ [] := by
      rintro rfl
      simp [Shakes, Terms.authenticate, client] at h
    refine ⟨presented, ?_⟩
    have verified := verify_of_shakes h (by simp [client]) presented
    rw [client] at verified
    exact verified
  client := by
    intro offered now chain known h server asked presented
    have verified := verify_of_shakes h (by simp [asked]) presented
    rw [server] at verified
    exact verified
  mandatory := by
    rintro offered now chain known h server asked insisted rfl
    simp [Shakes, Terms.authenticate, server, asked, insisted] at h
  unasked := by
    intro offered now chain known h server unasked
    simp only [Shakes, Terms.authenticate, server, unasked] at h
    cases h
    rfl

end Live

/-! ## Both kinds of context -/

/-- **Peers are authenticated.** Take native libraries that do what is relied on, and any calls on a new context, each of
which may fail. A client always requires a certificate.

For a context whose handles are snapshots, take the handle after some calls and use it after further ones. It guards the
endpoint as it was recorded when the handle was taken. For a context whose handle is live, let callers ask for the handle
meanwhile, and let further calls be made in the midst of a handshake. The handle guards the endpoint as it is recorded at
the moments of the handshake.

In both cases, where a certificate is required and no trust anchor was loaded, no handshake succeeds with any chain. -/
theorem peers_are_authenticated {N : Type} {b : Snapshot.Builder N} {see : N → Snapshot.View} (faithful : b.Faithful see)
    {role : Role} {c₀ : Snapshot.Context b} (fresh : Snapshot.Context.fresh role = .ok c₀) {j : Judge Snapshot.Anchor}
    {shake : N → List Bytes → Option Certificate → List Certificate → Prop} (enforced : Snapshot.Enforced j see shake)
    {k : Judge TrustAnchor} {liveShake : Terms → Terms → List Bytes → List Bytes → Prop}
    (liveEnforced : Live.Enforced k liveShake) (supported : List SignatureScheme) :
    (∀ xs ys, let c := history c₀ xs
      c.role = role ∧ (role = .client → c.certRequired = true) ∧
        ∃ n, (history c ys).natives.at? c.natives.place = some n ∧ Snapshot.Guards j see shake c n ∧
          ((∀ x ∈ accepted c₀ xs, x.2.bringsAnchors = false) → c.certRequired = true →
            ∀ chain own stack, ¬ shake n chain own stack)) ∧
      ∀ moves between, let q := (Inquiry.start role).run moves
        let r := q.run between
        r.context.role = role ∧ (role = .client → r.context.certRequired = true) ∧
          ∀ h ∈ q.answers,
            let offered := h.terms q.context supported
            let now := h.terms r.context supported
            Live.Guards k liveShake q.context r.context offered now ∧
              ((∀ x ∈ (Inquiry.start role).succeeded (moves ++ between), x.2.bringsAnchors = false) →
                q.context.certRequired = true → r.context.certRequired = true →
                ∀ chain known, ¬ liveShake offered now chain known) := by
  constructor
  · intro xs ys c
    obtain ⟨role_eq, built, guarded⟩ := Snapshot.Context.guarded_history fresh xs
    have guards : Snapshot.Guards j see shake c c.handle := enforced.guards faithful built guarded
    refine ⟨role_eq, ?_, c.handle, c.native_history ys, guards, ?_⟩
    · intro client
      exact Snapshot.Context.required_of_guarded guarded (role_eq.trans client)
    · intro only required _ _ _
      have nobody : c.material.TrustsNobody := by
        apply Snapshot.Context.trustsNobody_history _ only
        rw [(Snapshot.Context.built_fresh fresh).2.2.2]
        exact ⟨rfl, rfl⟩
      exact guards.refuses nobody required
  · intro moves between q r
    have hrun : (Inquiry.start role).run (moves ++ between) = r := Inquiry.run_append _ moves between
    have hq : q.context.role = role ∧ q.context.Guarded := LiveContext.guarded_run role moves
    have hr : r.context.role = role ∧ r.context.Guarded := hrun ▸ LiveContext.guarded_run role (moves ++ between)
    refine ⟨hr.1, fun client => hr.2.required (hr.1.trans client), ?_⟩
    intro h hh offered now
    have agreed : q.Agreed := Inquiry.agreed_run (Inquiry.agreed_start role) moves
    -- whenever it is consulted, the handle says what the context says at that moment
    have hoffered : offered = q.context.terms supported := agreed.terms_of_mem hh [] supported
    have hnow : now = r.context.terms supported := agreed.terms_of_mem hh between supported
    have guards : Live.Guards k liveShake q.context r.context offered now := by
      rw [hoffered, hnow]
      exact liveEnforced.guards hq.2 hr.2 (hq.1.trans hr.1.symm) supported
    refine ⟨guards, ?_⟩
    intro only asked insisted _ _
    have nobody : r.context.TrustsNobody := hrun ▸ LiveContext.trustsNobody_run role only
    exact guards.refuses nobody asked insisted

/-- the judge where nobody has a certificate from a trust anchor -/
def strangers {A : Type} : Judge A := ⟨fun _ _ _ => false, fun _ _ => rfl⟩

/-- a caller gets the handle -/
def taking : List InquiryMove := [.ask, .advance 0, .advance 0]

/-- the requirement is dropped -/
def dropping : List InquiryMove := [.call {} (.certRequired false)]

theorem peers_are_authenticated_around_drop :
    (∃ c₀ : SnapshotContext, Snapshot.Context.fresh .server = .ok c₀ ∧
      (∃ n, (history c₀ Snapshot.Context.straight).natives.at? c₀.natives.place = some n ∧
        ∀ chain own stack, ¬ n.Shakes strangers chain own stack) ∧
      (history c₀ Snapshot.Context.straight).handle.Shakes strangers [[0]] none []) ∧
      let q := (Inquiry.start .server).run taking
      let r := q.run dropping
      ∃ h ∈ q.answers,
        (∀ chain known, ¬ Live.Shakes strangers (h.terms q.context []) (h.terms q.context []) chain known) ∧
          Live.Shakes strangers (h.terms r.context []) (h.terms r.context []) [[0]] [] := by
  obtain ⟨c₀, fresh⟩ : ∃ c, (Snapshot.Context.fresh .server : Except TlsError SnapshotContext) = .ok c := ⟨_, rfl⟩
  obtain ⟨snapshots, live⟩ := peers_are_authenticated Snapshot.Native.faithful fresh (Snapshot.Native.enforced strangers)
    (Live.enforced strangers) []
  refine ⟨⟨c₀, fresh, ?_, ?_⟩, ?_⟩
  · obtain ⟨-, -, n, hn, -, refuses⟩ := snapshots [] Snapshot.Context.straight
    refine ⟨n, hn, refuses nofun ?_⟩
    cases fresh
    rfl
  · cases fresh
    exact ⟨[], rfl, rfl⟩
  · intro q r
    obtain ⟨h, hh⟩ : ∃ h, q.answers = [h] := ⟨_, rfl⟩
    have mem : h ∈ q.answers := by simp [hh]
    obtain ⟨-, refuses⟩ := (live taking []).2.2 h mem
    refine ⟨h, mem, refuses nofun rfl rfl, ?_⟩
    cases hh
    rfl

end SecureEndpoint.Tls
