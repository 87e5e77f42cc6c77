/-
Whether the certificate and the key of a context can be replaced.

A context whose handles are snapshots builds anew with every load, from the new thing and from everything else as it was. So
for a moment the new certificate stands beside the old key, or the new key beside the old certificate, and the native library
refuses such a pair where both are of one kind: they `Clash`. `build_ok_iff` says what else can be wrong with material.

`renewable_iff` says for each of the two orders what stands in the way. Where both the certificate and the key that are there
clash with the new pair, neither order succeeds and no number of attempts changes anything, as good as the new pair may be
(`renewal_refused`). A context whose handles are live takes every pair in every order (`LiveContext.installs`).
-/
import SecureEndpoint.Proofs.Tls.Authentication

namespace SecureEndpoint.Tls.Snapshot

open Certificate Key
open Der (Bytes)
open Host (Path Files)

/-! ## What can be built -/

/-- a certificate and a key of one kind that do not belong together -/
def Clash (c : Certificate) (k : PrivateKey) : Prop :=
  c.key?.bind PublicKey.slot? = k.publicKey.slot? ∧ c.key? ≠ some k.publicKey

instance (c : Certificate) (k : PrivateKey) : Decidable (Clash c k) :=
  inferInstanceAs (Decidable (c.key?.bind PublicKey.slot? = k.publicKey.slot? ∧ c.key? ≠ some k.publicKey))

/-- material from which the native library makes a native context -/
structure Material.Buildable (m : Material) : Prop where
  directory : ∀ p, m.directory = some p → ∃ s, directoryText p = .ok s
  leaf : ∀ c, m.chain.head? = some c → c.isPresentable = true
  key : ∀ k, m.key = some k → k.publicKey.slot?.isSome = true
  pair : ∀ c, m.chain.head? = some c → ∀ k, m.key = some k → ¬Clash c k

theorem exists_bind_ok_iff {ε α β : Type} {x : Except ε α} {f : α → Except ε β} :
    (∃ b, (x >>= f) = .ok b) ↔ ∃ a, x = .ok a ∧ ∃ b, f a = .ok b := by
  cases x with
  | error e => exact iff_of_false (fun ⟨_, h⟩ => nomatch h) fun ⟨_, h, _⟩ => nomatch h
  | ok a => exact ⟨fun h => ⟨a, rfl, h⟩, fun ⟨_, h, hb⟩ => Except.ok.inj h ▸ hb⟩

theorem slot_of_presentable {c : Certificate} (h : c.isPresentable = true) :
    ∃ slot, c.key?.bind PublicKey.slot? = some slot := by
  cases hk : c.key? with
  | none => simp [isPresentable, hk] at h
  | some k =>
    simp only [isPresentable, hk, Option.any_some, Bool.and_eq_true] at h
    exact Option.isSome_iff_exists.1 h.1.1

theorem signs_of_pair {c : Certificate} {k : PrivateKey} (h : c.isPresentable = true) (pair : c.key? = some k.publicKey) :
    k.publicKey.slot?.isSome = true := by
  obtain ⟨slot, hslot⟩ := slot_of_presentable h
  rw [pair, Option.bind_some] at hslot
  rw [hslot, Option.isSome_some]

theorem not_clash {c : Certificate} {k : PrivateKey} (pair : c.key? = some k.publicKey) : ¬Clash c k := fun h => h.2 pair

namespace Native

/-- steps that always succeed and leave the certificates alone -/
theorem foldlM_ok {α : Type} (step : Native → α → Except TlsError Native)
    (goes : ∀ n a, ∃ d, step n a = .ok d ∧ d.certificates = n.certificates) (as : List α) (n : Native) :
    ∃ d, as.foldlM step n = .ok d ∧ d.certificates = n.certificates := by
  induction as generalizing n with
  | nil => exact ⟨n, rfl, rfl⟩
  | cons a as ih =>
    obtain ⟨d, hd, same⟩ := goes n a
    obtain ⟨e, he, same'⟩ := ih d
    refine ⟨e, ?_, same'.trans same⟩
    rw [List.foldlM_cons, hd]
    exact he

theorem trustDirectory_ok_iff {n : Native} {p : Option Path} :
    (∃ d, whenSome builder.trustDirectory p n = .ok d) ↔ ∀ q, p = some q → ∃ s, directoryText q = .ok s := by
  cases p with
  | none => simp [whenSome]
  | some p =>
    simp only [whenSome, Builder.trustDirectory, exists_bind_ok_iff, Option.some.injEq, forall_eq']
    exact exists_congr fun s => and_iff_left ⟨n, rfl, _, rfl⟩

theorem certificates_trustDirectory {n d : Native} {p : Option Path} (h : whenSome builder.trustDirectory p n = .ok d) :
    d.certificates = n.certificates := by
  cases p with
  | none =>
    cases h
    rfl
  | some p =>
    obtain ⟨s, -, h⟩ := exists_of_bind_ok h
    cases h
    rfl

/-- the further certificates of a chain make no difference -/
theorem presentChain_of_ok {n d : Native} {leaf : Certificate} (h : setCertificate n leaf = .ok d)
    (rest : List Certificate) :
    ∃ e, builder.presentChain n (leaf :: rest) = .ok e ∧ e.certificates = d.certificates := by
  obtain ⟨e, he, same⟩ := foldlM_ok builder.addExtra (fun n c => ⟨_, rfl, rfl⟩) rest d
  refine ⟨e, ?_, same⟩
  change (setCertificate n leaf >>= fun n => rest.foldlM builder.addExtra n) = .ok e
  rw [h]
  exact he

theorem presentChain_of_error {n : Native} {leaf : Certificate} {e : TlsError} (h : setCertificate n leaf = .error e)
    (rest : List Certificate) : builder.presentChain n (leaf :: rest) = .error e := by
  change (setCertificate n leaf >>= fun n => rest.foldlM builder.addExtra n) = .error e
  rw [h]
  rfl

theorem setKey_ok_iff {n : Native} {k : PrivateKey} :
    (∃ d, setKey n k = .ok d) ↔ ∃ slot, k.publicKey.slot? = some slot ∧
      ∀ c, n.certificate? slot = some c → c.key? = some k.publicKey := by
  unfold setKey
  cases hs : k.publicKey.slot? with
  | none => simp
  | some slot =>
    cases hc : n.certificate? slot with
    | none => simp [hc]
    | some c => by_cases hk : c.key? = some k.publicKey <;> simp [hc, hk]

theorem useKey_ok_iff {n : Native} {k : PrivateKey} :
    (∃ d, builder.useKey n k = .ok d) ↔ ∃ d, setKey n k = .ok d := by
  change (∃ d, (setKey n k >>= whenSome builder.setSchemes k.publicKey.family?) = .ok d) ↔ _
  cases setKey n k with
  | error e => exact Iff.rfl
  | ok n =>
    refine iff_of_true ?_ ⟨n, rfl⟩
    cases k.publicKey.family? <;> exact ⟨_, rfl⟩

/-- a key goes with what is presented -/
theorem whenKey_ok_iff {n : Native} {key : Option PrivateKey} :
    (∃ d, whenSome builder.useKey key n = .ok d) ↔ ∀ k, key = some k → ∃ slot, k.publicKey.slot? = some slot ∧
      ∀ c, n.certificate? slot = some c → c.key? = some k.publicKey := by
  cases key with
  | none => simp [whenSome]
  | some k => simp only [whenSome, useKey_ok_iff, setKey_ok_iff, Option.some.injEq, forall_eq']

/-- a key goes with the only certificate if it can sign and does not clash -/
theorem goes_with_iff {n : Native} {c : Certificate} {slot : Slot} (only : n.certificates = [(slot, c)])
    (hslot : c.key?.bind PublicKey.slot? = some slot) (k : PrivateKey) :
    (∃ s, k.publicKey.slot? = some s ∧ ∀ d, n.certificate? s = some d → d.key? = some k.publicKey) ↔
      k.publicKey.slot?.isSome = true ∧ ¬Clash c k := by
  unfold Clash certificate?
  rw [only, hslot]
  cases hk : k.publicKey.slot? with
  | none => simp
  | some s => by_cases same : slot = s <;> simp [same]

/-- who is presented, and with which key, on a native context that has neither -/
theorem identify_ok_iff {n : Native} (empty : n.certificates = []) {chain : List Certificate} {key : Option PrivateKey} :
    (∃ d, (builder.presentChain n chain >>= whenSome builder.useKey key) = .ok d) ↔
      (∀ c, chain.head? = some c → c.isPresentable = true) ∧ (∀ k, key = some k → k.publicKey.slot?.isSome = true) ∧
        ∀ c, chain.head? = some c → ∀ k, key = some k → ¬Clash c k := by
  simp only [exists_bind_ok_iff, whenKey_ok_iff]
  cases chain with
  | nil => simp [Builder.presentChain, certificate?, empty, Option.isSome_iff_exists]
  | cons leaf rest =>
    by_cases presentable : leaf.isPresentable = true
    · obtain ⟨slot, hslot⟩ := slot_of_presentable presentable
      have set : setCertificate n leaf = .ok { n with certificates := [(slot, leaf)], current := slot } := by
        simp [setCertificate, hslot, presentable, empty]
      obtain ⟨d, hd, only⟩ := presentChain_of_ok set rest
      simp only [hd, Except.ok.injEq, exists_eq_left']
      refine (forall₂_congr fun k _ => goes_with_iff only hslot k).trans ?_
      simp only [List.head?_cons, Option.some.injEq, forall_eq', presentable, true_and, imp_and, forall_and]
    · have refused : setCertificate n leaf = .error (.native nativeText) := by
        unfold setCertificate
        split
        · rfl
        · simp [presentable]
      simp [presentChain_of_error refused, presentable]

end Native

/-- **What can be built.** The native library makes a native context from material if and only if the path of the directory
is text, the first certificate may be presented, the key can sign, and the two do not clash. -/
theorem build_ok_iff {role : Role} {required : Bool} {m : Material} :
    (∃ n, Native.builder.build role required m = .ok n) ↔ m.Buildable := by
  let bare : Native := { role, minVersion := some .tls12, verify := .of role required }
  obtain ⟨begun, trusts, empty⟩ := Native.foldlM_ok Native.builder.addAnchor (fun n c => ⟨_, rfl, rfl⟩) m.anchors bare
  have steps : Native.builder.build role required m =
      (whenSome Native.builder.trustDirectory m.directory begun >>= fun n =>
        Native.builder.presentChain n m.chain >>= whenSome Native.builder.useKey m.key) := by
    change (m.anchors.foldlM Native.builder.addAnchor bare >>= fun n => _) = _
    rw [trusts]
    rfl
  rw [steps, exists_bind_ok_iff]
  constructor
  · rintro ⟨d, hd, identified⟩
    obtain ⟨leaf, key, pair⟩ := (Native.identify_ok_iff ((Native.certificates_trustDirectory hd).trans empty)).1 identified
    exact ⟨Native.trustDirectory_ok_iff.1 ⟨d, hd⟩, leaf, key, pair⟩
  · intro h
    obtain ⟨d, hd⟩ := Native.trustDirectory_ok_iff.2 h.directory
    exact ⟨d, hd, (Native.identify_ok_iff ((Native.certificates_trustDirectory hd).trans empty)).2 ⟨h.leaf, h.key, h.pair⟩⟩

/-! ## Loading -/

namespace Context

variable {c : SnapshotContext} {files : Files}

theorem Built.buildable (hb : c.Built) : c.material.Buildable := build_ok_iff.1 ⟨_, hb⟩

/-- only a requirement can be refused before anything is built -/
theorem check_of_plain {l : Load} (hl : l.required? = none) (role : Role) : l.check role = .ok () := by
  cases l with
  | certRequired b => cases hl
  | _ => rfl

/-- a call that brings anything but a requirement succeeds if there is something to build, and changes nothing otherwise -/
theorem Built.attempt_cases (hb : c.Built) {x : Call} {l : Load} (hx : read files x = .ok l) (hl : l.required? = none) :
    (l.into c.material).Buildable ∧
        (∃ d events, attempt files c x = (d, .ok events) ∧ d.Built ∧ d.material = l.into c.material) ∨
      ¬(l.into c.material).Buildable ∧ ∃ e, attempt files c x = (c, .error e) := by
  have hc := called_attempt files c x
  rcases ha : attempt files c x with ⟨d, r⟩
  rw [ha] at hc
  cases hc with
  | unread unread => cases hx.symm.trans unread
  | @failed l' e hx' taken =>
    obtain rfl : l = l' := Except.ok.inj (hx.symm.trans hx')
    refine .inr ⟨fun buildable => ?_, e, rfl⟩
    obtain ⟨n, hn⟩ := build_ok_iff.2 buildable
    cases taken with
    | refused check => cases (check_of_plain hl c.role).symm.trans check
    | failed check build => cases hn.symm.trans build
  | @done l' _ hx' taken =>
    obtain rfl : l = l' := Except.ok.inj (hx.symm.trans hx')
    have built := taken.keeps_built hb
    have recorded := taken.recorded.2
    refine .inl ⟨?_, d, _, rfl, built, recorded⟩
    exact recorded ▸ built.buildable

variable {x y : Call} {l l' : Load}

/-- two calls, of which neither brings a requirement -/
theorem Built.of_apply (hb : c.Built) (hx : read files x = .ok l) (hl : l.required? = none) (hy : read files y = .ok l')
    (hl' : l'.required? = none) {d : SnapshotContext} (h : (apply files c [x, y]).2 = .ok d) :
    ((l.into c.material).Buildable ∧ (l'.into (l.into c.material)).Buildable) ∧
      d.Built ∧ d.material = l'.into (l.into c.material) := by
  obtain ⟨first, e, events, he, built, material⟩ | ⟨-, e, he⟩ := hb.attempt_cases hx hl
  · obtain ⟨second, f, events', hf, built', material'⟩ | ⟨-, f, hf⟩ := built.attempt_cases hy hl'
    · simp only [apply, he, hf] at h
      cases h
      rw [material] at second material'
      exact ⟨⟨first, second⟩, built', material'⟩
    · simp only [apply, he, hf] at h
      cases h
  · simp only [apply, he] at h
    cases h

/-- calls succeed and leave a context that is the build of what it recorded, this chain and this key among it -/
def Installs (c : SnapshotContext) (files : Files) (calls : List Call) (chain : List Certificate) (k : PrivateKey) : Prop :=
  ∃ d, (apply files c calls).2 = .ok d ∧ d.Built ∧ d.material.chain = chain ∧ d.material.key = some k

theorem Built.installs_iff (hb : c.Built) (hx : read files x = .ok l) (hl : l.required? = none)
    (hy : read files y = .ok l') (hl' : l'.required? = none) {chain : List Certificate} {k : PrivateKey}
    (hchain : (l'.into (l.into c.material)).chain = chain) (hkey : (l'.into (l.into c.material)).key = some k) :
    Installs c files [x, y] chain k ↔ (l.into c.material).Buildable ∧ (l'.into (l.into c.material)).Buildable := by
  constructor
  · rintro ⟨d, hd, -⟩
    exact (hb.of_apply hx hl hy hl' hd).1
  · rintro ⟨first, second⟩
    obtain ⟨-, e, events, he, built, material⟩ | ⟨refused, -⟩ := hb.attempt_cases hx hl
    · obtain ⟨-, d, events', hd, built', material'⟩ | ⟨refused, -⟩ := built.attempt_cases hy hl'
      · rw [material] at material'
        exact ⟨d, by simp only [apply, he, hd], built', by rw [material', hchain], by rw [material', hkey]⟩
      · exact absurd (material ▸ second) refused
    · exact absurd first refused

end Context

theorem Material.Buildable.chain_iff {m : Material} (hm : m.Buildable) {leaf : Certificate} (rest : List Certificate)
    (presentable : leaf.isPresentable = true) :
    ((Load.chain (leaf :: rest)).into m).Buildable ↔ ∀ old, m.key = some old → ¬Clash leaf old := by
  constructor
  · exact fun h => h.pair leaf rfl
  · intro apart
    refine ⟨hm.directory, ?_, hm.key, ?_⟩
    · rintro _ ⟨⟩
      exact presentable
    · rintro _ ⟨⟩
      exact apart

theorem Material.Buildable.key_iff {m : Material} (hm : m.Buildable) {k : PrivateKey}
    (signs : k.publicKey.slot?.isSome = true) :
    ((Load.key k).into m).Buildable ↔ ∀ old, m.chain.head? = some old → ¬Clash old k := by
  constructor
  · exact fun h old hold => h.pair old hold k rfl
  · intro apart
    refine ⟨hm.directory, hm.leaf, ?_, ?_⟩
    · rintro _ ⟨⟩
      exact signs
    · rintro old hold _ ⟨⟩
      exact apart old hold

namespace Context

section Pair

variable {role : Role} {c₀ d₀ : SnapshotContext} {files : Files} {p q : Path} {leaf : Certificate}
  {rest : List Certificate} {k : PrivateKey} (start : fresh role = .ok c₀)
  (chain : readCertificates files p = .ok (leaf :: rest)) (key : readKey files q = .ok k)
  (pair : leaf.key? = some k.publicKey)

include start chain key pair

/-- a new context takes a certificate that may be presented with the key that belongs to it -/
theorem fresh_installs (presentable : leaf.isPresentable = true) :
    Installs c₀ files [.certificateFile p, .keyFile q] (leaf :: rest) k := by
  have readsChain : read files (.certificateFile p) = .ok (.chain (leaf :: rest)) := by rw [read, chain]; rfl
  have readsKey : read files (.keyFile q) = .ok (.key k) := by rw [read, key]; rfl
  obtain ⟨built, -, -, material⟩ := built_fresh start
  have first : ((Load.chain (leaf :: rest)).into c₀.material).Buildable :=
    (built.buildable.chain_iff rest presentable).2 (by rw [material]; nofun)
  refine (built.installs_iff readsChain rfl readsKey rfl rfl rfl).2 ⟨first, ?_⟩
  exact (first.key_iff (signs_of_pair presentable pair)).2 fun old hold => Option.some.inj hold ▸ not_clash pair

/-- **What stands in the way of a renewal.** Take any context that calls have led to, and a certificate file and a key file
that belong together and that a new context of the same role takes. With the certificate first they are installed if and
only if no old key clashes with the new certificate, with the key first if and only if no old certificate clashes with the
new key. Where both clash, no attempts with the two files, however many and in whatever order, change anything. -/
theorem renewable_iff (accepted : (apply files c₀ [.certificateFile p, .keyFile q]).2 = .ok d₀)
    (xs : List (Files × Call)) :
    let c := history c₀ xs
    let oldKey := ∃ old, c.material.key = some old ∧ Clash leaf old
    let oldCertificate := ∃ old, c.material.chain.head? = some old ∧ Clash old k
    (Installs c files [.certificateFile p, .keyFile q] (leaf :: rest) k ↔ ¬oldKey) ∧
      (Installs c files [.keyFile q, .certificateFile p] (leaf :: rest) k ↔ ¬oldCertificate) ∧
      (oldKey → oldCertificate →
        ∀ ys, (∀ y ∈ ys, y = (files, .certificateFile p) ∨ y = (files, .keyFile q)) → history c ys = c) := by
  intro c oldKey oldCertificate
  have readsChain : read files (.certificateFile p) = .ok (.chain (leaf :: rest)) := by rw [read, chain]; rfl
  have readsKey : read files (.keyFile q) = .ok (.key k) := by rw [read, key]; rfl
  have fresh_built := (built_fresh start).1
  have built : c.Built := built_history fresh_built xs
  -- a new context takes the pair, so there is nothing wrong with the two as such
  obtain ⟨⟨presents, -⟩, -⟩ := fresh_built.of_apply readsChain rfl readsKey rfl accepted
  have presentable : leaf.isPresentable = true := presents.leaf leaf rfl
  have signs : k.publicKey.slot?.isSome = true := signs_of_pair presentable pair
  have noKey : (∀ old, c.material.key = some old → ¬Clash leaf old) ↔ ¬oldKey := by
    simp only [oldKey, not_exists, not_and]
  have noCertificate : (∀ old, c.material.chain.head? = some old → ¬Clash old k) ↔ ¬oldCertificate := by
    simp only [oldCertificate, not_exists, not_and]
  have chain_first := (built.buildable.chain_iff rest presentable).trans noKey
  have key_first := (built.buildable.key_iff signs).trans noCertificate
  refine ⟨?_, ?_, fun hkey hcertificate ys only => history_stays fun y hy => ?_⟩
  · refine (built.installs_iff readsChain rfl readsKey rfl rfl rfl).trans ⟨fun h => chain_first.1 h.1, fun none => ?_⟩
    have first := chain_first.2 none
    exact ⟨first, (first.key_iff signs).2 fun old hold => Option.some.inj hold ▸ not_clash pair⟩
  · refine (built.installs_iff readsKey rfl readsChain rfl rfl rfl).trans ⟨fun h => key_first.1 h.1, fun none => ?_⟩
    have first := key_first.2 none
    exact ⟨first, (first.chain_iff rest presentable).2 fun old hold => Option.some.inj hold ▸ not_clash pair⟩
  · obtain rfl | rfl := only y hy
    · obtain ⟨first, -⟩ | ⟨-, e, he⟩ := built.attempt_cases readsChain rfl
      · exact absurd hkey (chain_first.1 first)
      · rw [he]
    · obtain ⟨first, -⟩ | ⟨-, e, he⟩ := built.attempt_cases readsKey rfl
      · exact absurd hcertificate (key_first.1 first)
      · rw [he]

end Pair

/-- a file with one block -/
def fileOf (label : String) (lines : List String) : Bytes :=
  (("-----BEGIN " ++ label ++ "-----") :: lines ++ ["-----END " ++ label ++ "-----"]).flatMap fun l => Pem.ofText l ++ [10]

/-- the certificate of old -/
def oldCertificate : Bytes := fileOf "CERTIFICATE" [
  "MIHDMIGpAgEBMAoGCCqGSM49BAMCMA0xCzAJBgNVBAMMAmNhMB4XDTIwMDEwMTAw",
  "MDAwMFoXDTQ5MTIzMTAwMDAwMFowDjEMMAoGA1UEAwwDb2xkMFkwEwYHKoZIzj0C",
  "AQYIKoZIzj0DAQcDQgAEaxfR8uEsQkf4vOblY6RA8ncDfYEt6zOg9KE5RdiYwpZP",
  "40Li/hp/m47n60p8D54WK84zV2sxXs7LtkBoN79R9TAKBggqhkjOPQQDAgMJADAG",
  "AgEBAgEB"]

/-- its key -/
def oldKey : Bytes := fileOf "EC PRIVATE KEY" [
  "MHcCAQEEIAAAAAAAAAAAAAAAAAAAAAAAAAAAAAAAAAAAAAAAAAABoAoGCCqGSM49",
  "AwEHoUQDQgAEaxfR8uEsQkf4vOblY6RA8ncDfYEt6zOg9KE5RdiYwpZP40Li/hp/",
  "m47n60p8D54WK84zV2sxXs7LtkBoN79R9Q=="]

/-- the certificate of new -/
def newCertificate : Bytes := fileOf "CERTIFICATE" [
  "MIHDMIGpAgEBMAoGCCqGSM49BAMCMA0xCzAJBgNVBAMMAmNhMB4XDTIwMDEwMTAw",
  "MDAwMFoXDTQ5MTIzMTAwMDAwMFowDjEMMAoGA1UEAwwDbmV3MFkwEwYHKoZIzj0C",
  "AQYIKoZIzj0DAQcDQgAEfPJ7GI0DT36KUjgDBLUaw8CJaeJ38hs1pgtI/EdmmXgH",
  "d1UQ247QQCk9msafdDDbun2t5jzpgimeBLedInhz0TAKBggqhkjOPQQDAgMJADAG",
  "AgEBAgEB"]

/-- its key -/
def newKey : Bytes := fileOf "EC PRIVATE KEY" [
  "MHcCAQEEIAAAAAAAAAAAAAAAAAAAAAAAAAAAAAAAAAAAAAAAAAACoAoGCCqGSM49",
  "AwEHoUQDQgAEfPJ7GI0DT36KUjgDBLUaw8CJaeJ38hs1pgtI/EdmmXgHd1UQ247Q",
  "QCk9msafdDDbun2t5jzpgimeBLedInhz0Q=="]

/-- two certificates with their keys, which are points of one curve -/
def disk : Files where
  files := [([.ofText "old.crt"], oldCertificate), ([.ofText "old.key"], oldKey),
    ([.ofText "new.crt"], newCertificate), ([.ofText "new.key"], newKey)]

theorem exists_ok_of_any {ε α : Type} {x : Except ε α} {f : α → Bool} (h : x.toOption.any f = true) :
    ∃ a, x = .ok a ∧ f a = true := by
  cases x with
  | error e => cases h
  | ok a => exact ⟨a, rfl, h⟩

theorem exists_cons_of_any {ε α : Type} {x : Except ε (List α)} {f : α → Bool}
    (h : (x.toOption.any fun as => as.head?.any f) = true) : ∃ a as, x = .ok (a :: as) ∧ f a = true := by
  obtain ⟨_ | ⟨a, as⟩, hx, h⟩ := exists_ok_of_any h
  · cases h
  · exact ⟨a, as, hx, h⟩

/-- both pairs can be read and are fit to be used, and neither goes with the other -/
theorem disk_reads : ∃ c rest k c' rest' k',
    (readCertificates disk (.ofText "old.crt") = .ok (c :: rest) ∧ readKey disk (.ofText "old.key") = .ok k ∧
      readCertificates disk (.ofText "new.crt") = .ok (c' :: rest') ∧ readKey disk (.ofText "new.key") = .ok k') ∧
    (c.isPresentable = true ∧ c.key? = some k.publicKey) ∧ (c'.isPresentable = true ∧ c'.key? = some k'.publicKey) ∧
      Clash c k' ∧ Clash c' k := by
  have check : ((readCertificates disk (.ofText "old.crt")).toOption.any fun cs => cs.head?.any fun c =>
      (readKey disk (.ofText "old.key")).toOption.any fun k =>
      (readCertificates disk (.ofText "new.crt")).toOption.any fun cs' => cs'.head?.any fun c' =>
      (readKey disk (.ofText "new.key")).toOption.any fun k' =>
        decide ((c.isPresentable = true ∧ c.key? = some k.publicKey) ∧
          (c'.isPresentable = true ∧ c'.key? = some k'.publicKey) ∧ Clash c k' ∧ Clash c' k)) = true := by
    decide +kernel
  obtain ⟨c, rest, readOld, check⟩ := exists_cons_of_any check
  obtain ⟨k, readOldKey, check⟩ := exists_ok_of_any check
  obtain ⟨c', rest', readNew, check⟩ := exists_cons_of_any check
  obtain ⟨k', readNewKey, check⟩ := exists_ok_of_any check
  exact ⟨c, rest, k, c', rest', k', ⟨readOld, readOldKey, readNew, readNewKey⟩, of_decide_eq_true check⟩

/-- where the old certificate is there without a key, the new certificate has to be the first -/
theorem renewable_iff_without_key :
    ∃ (c₀ c d₀ : SnapshotContext) (leaf : Certificate) (rest : List Certificate) (k : PrivateKey), fresh .server = .ok c₀ ∧
      history c₀ [(disk, .certificateFile (.ofText "old.crt"))] = c ∧
      (readCertificates disk (.ofText "new.crt") = .ok (leaf :: rest) ∧ readKey disk (.ofText "new.key") = .ok k ∧
        leaf.key? = some k.publicKey ∧
        (apply disk c₀ [.certificateFile (.ofText "new.crt"), .keyFile (.ofText "new.key")]).2 = .ok d₀) ∧
      Installs c disk [.certificateFile (.ofText "new.crt"), .keyFile (.ofText "new.key")] (leaf :: rest) k ∧
      ¬Installs c disk [.keyFile (.ofText "new.key"), .certificateFile (.ofText "new.crt")] (leaf :: rest) k := by
  obtain ⟨old, others, -, leaf, rest, k, ⟨readOld, -, readLeaf, readKey⟩, ⟨presentableOld, -⟩, ⟨presentable, pair⟩, clash,
    -⟩ := disk_reads
  obtain ⟨c₀, start⟩ : ∃ c, (fresh .server : Except TlsError SnapshotContext) = .ok c := ⟨_, rfl⟩
  obtain ⟨built, -, -, material⟩ := built_fresh start
  obtain ⟨d₀, accepted, -⟩ := fresh_installs start readLeaf readKey pair presentable
  have readsOld : read disk (.certificateFile (.ofText "old.crt")) = .ok (.chain (old :: others)) := by
    rw [read, readOld]
    rfl
  obtain ⟨-, c, events, hc, -, material'⟩ | ⟨refused, -⟩ := built.attempt_cases readsOld rfl
  · have reached : history c₀ [(disk, .certificateFile (.ofText "old.crt"))] = c := by
      rw [history_cons, hc]
      rfl
    obtain ⟨certificateFirst, keyFirst, -⟩ := renewable_iff start readLeaf readKey pair accepted
      [(disk, .certificateFile (.ofText "old.crt"))]
    rw [reached, material', material] at certificateFirst keyFirst
    refine ⟨c₀, c, d₀, leaf, rest, k, start, reached, ⟨readLeaf, readKey, pair, accepted⟩, certificateFirst.2 ?_, fun h => ?_⟩
    · rintro ⟨_, ⟨⟩, -⟩
    · exact keyFirst.1 h ⟨old, rfl, clash⟩
  · exact absurd ((built.buildable.chain_iff others presentableOld).2 (by rw [material]; nofun)) refused

/-- the old pair is in use, the new one is as good, and there is no way from the one to the other -/
theorem renewal_refused :
    ∃ (c₀ c d₀ : SnapshotContext) (leaf : Certificate) (rest : List Certificate) (k : PrivateKey), fresh .server = .ok c₀ ∧
      history c₀ [(disk, .certificateFile (.ofText "old.crt")), (disk, .keyFile (.ofText "old.key"))] = c ∧
      (readCertificates disk (.ofText "new.crt") = .ok (leaf :: rest) ∧ readKey disk (.ofText "new.key") = .ok k ∧
        leaf.key? = some k.publicKey ∧
        (apply disk c₀ [.certificateFile (.ofText "new.crt"), .keyFile (.ofText "new.key")]).2 = .ok d₀) ∧
      ¬Installs c disk [.certificateFile (.ofText "new.crt"), .keyFile (.ofText "new.key")] (leaf :: rest) k ∧
      ¬Installs c disk [.keyFile (.ofText "new.key"), .certificateFile (.ofText "new.crt")] (leaf :: rest) k := by
  obtain ⟨old, others, oldKey, leaf, rest, k, ⟨readOld, readOldKey, readLeaf, readKey⟩, ⟨presentableOld, pairOld⟩,
    ⟨presentable, pair⟩, clash, clash'⟩ := disk_reads
  obtain ⟨c₀, start⟩ : ∃ c, (fresh .server : Except TlsError SnapshotContext) = .ok c := ⟨_, rfl⟩
  obtain ⟨c, hc, built, hchain, hkey⟩ := fresh_installs start readOld readOldKey pairOld presentableOld
  obtain ⟨d₀, accepted, -⟩ := fresh_installs start readLeaf readKey pair presentable
  have readsLeaf : read disk (.certificateFile (.ofText "new.crt")) = .ok (.chain (leaf :: rest)) := by
    rw [read, readLeaf]
    rfl
  have readsKey : read disk (.keyFile (.ofText "new.key")) = .ok (.key k) := by rw [read, readKey]; rfl
  refine ⟨c₀, c, d₀, leaf, rest, k, start, history_of_apply hc, ⟨readLeaf, readKey, pair, accepted⟩, fun h => ?_, fun h => ?_⟩
  · have buildable := ((built.installs_iff readsLeaf rfl readsKey rfl rfl rfl).1 h).1
    exact buildable.pair leaf rfl oldKey hkey clash'
  · have buildable := ((built.installs_iff readsKey rfl readsLeaf rfl rfl rfl).1 h).1
    exact buildable.pair old (congrArg List.head? hchain) k rfl clash

end Context

end SecureEndpoint.Tls.Snapshot

namespace SecureEndpoint.Tls.LiveContext

open Der (Bytes)
open Host (Path Files)

/-- a context whose handles are live takes a chain and a key in either order, whatever it has, and presents them -/
theorem installs (c : LiveContext) {files : Files} {p q : Path} {leaf : Bytes} {rest : List Bytes} {k : Key.SigningKey}
    (chain : readCertificates files p = .ok (leaf :: rest)) (key : readKey files q = .ok k) {calls : List Call}
    (order : calls = [.certificateFile p, .keyFile q] ∨ calls = [.keyFile q, .certificateFile p]) :
    ∃ d, (apply files c calls).2 = .ok d ∧ d.credentials.certified = some { chain := leaf :: rest, key := k } := by
  have readsChain : read files (.certificateFile p) = .ok (.chain (leaf :: rest)) := by rw [read, chain]; rfl
  have readsKey : read files (.keyFile q) = .ok (.key k) := by rw [read, key]; rfl
  obtain rfl | rfl := order
  · refine ⟨(c.put (.chain (leaf :: rest))).put (.key k), ?_, ?_⟩
    · simp only [apply, attempt_eq, readsChain, readsKey, Load.check]
    · rw [credentials_put, credentials_put]
      rfl
  · refine ⟨(c.put (.key k)).put (.chain (leaf :: rest)), ?_, ?_⟩
    · simp only [apply, attempt_eq, readsChain, readsKey, Load.check]
    · rw [credentials_put, credentials_put]
      rfl

end SecureEndpoint.Tls.LiveContext
