/-
A context whose handles are snapshots and one whose handles are live, side by side.

The one records material and builds a native context from it, the other changes credentials and a policy where they are. Both
get the same calls, and each call succeeds on both or fails on both. `Agree` is what they keep in common: role, requirement,
trust anchors, chain and key, and the family of the key comes first in the policy, which no key without a family and no other
load changes.

`contexts_agree` is the result. It adds what the peers notice: a server demands a certificate through the one if and only if
it does so through the other, and the signature schemes that both advertise come in the same order. What is relied on is said
where it is needed: the readers find the same in the files (`SameReading`), the native library treats peers as it is told
(`Builder.Faithful`), succeeds whatever it is told about peers (`Builder.Blind`), and advertises the schemes it is given.
-/
import SecureEndpoint.Proofs.Tls.Configuration
import Mathlib.Data.List.Forall2
import Mathlib.Data.Option.Basic

namespace SecureEndpoint.Tls

open Certificate Key
open Der (Bytes)
open Host (Path Files)

namespace Snapshot

/-! ## A native library that does not look at the verify mode -/

section

variable {N : Type}

/-- what succeeds on a native context succeeds on one like it, and leaves one like that it leaves there -/
structure Mirrors (Like : N → N → Prop) (f : N → Except TlsError N) : Prop where
  mirror : ∀ {n n' d}, Like n n' → f n = .ok d → ∃ d', f n' = .ok d' ∧ Like d d'

/-- no step looks at the verify mode. `Like n n'` says that the two differ in nothing else. -/
structure Builder.Blind (b : Builder N) (Like : N → N → Prop) : Prop where
  setVerify : ∀ n v v', Like (b.setVerify n v) (b.setVerify n v')
  addAnchor : ∀ c, Mirrors Like fun n => b.addAnchor n c
  addLookup : Mirrors Like b.addLookup
  addDirectory : ∀ s, Mirrors Like fun n => b.addDirectory n s
  setCertificate : ∀ c, Mirrors Like fun n => b.setCertificate n c
  addExtra : ∀ c, Mirrors Like fun n => b.addExtra n c
  setKey : ∀ k, Mirrors Like fun n => b.setKey n k
  setSchemes : ∀ f, Mirrors Like fun n => b.setSchemes n f

variable {Like : N → N → Prop}

namespace Mirrors

/-- nothing is done -/
theorem pass : Mirrors Like fun n => .ok n := ⟨fun like h => ⟨_, rfl, Except.ok.inj h ▸ like⟩⟩

theorem bind {f g : N → Except TlsError N} (hf : Mirrors Like f) (hg : Mirrors Like g) :
    Mirrors Like fun n => f n >>= g := by
  constructor
  intro n n' e like he
  obtain ⟨d, hd, he⟩ := exists_of_bind_ok he
  obtain ⟨d', hd', like⟩ := hf.mirror like hd
  obtain ⟨e', he', like⟩ := hg.mirror like he
  exact ⟨e', by simp only [hd']; exact he', like⟩

variable {α : Type} {step : N → α → Except TlsError N} (hs : ∀ a, Mirrors Like fun n => step n a)

include hs

theorem foldlM (as : List α) : Mirrors Like fun n => as.foldlM step n := by
  induction as with
  | nil => exact pass
  | cons a as ih => exact (hs a).bind ih

theorem whenSome (a : Option α) : Mirrors Like fun n => Snapshot.whenSome step a n := by
  cases a with
  | none => exact pass
  | some a => exact hs a

end Mirrors

variable {b : Builder N}

namespace Builder.Blind

variable (hb : b.Blind Like)

include hb

theorem trustDirectory (p : Path) : Mirrors Like fun n => b.trustDirectory n p := by
  unfold Builder.trustDirectory
  cases directoryText p with
  | error e => exact ⟨nofun⟩
  | ok s => exact hb.addLookup.bind (hb.addDirectory s)

theorem presentChain (chain : List Certificate) : Mirrors Like fun n => b.presentChain n chain := by
  cases chain with
  | nil => exact .pass
  | cons leaf rest => exact (hb.setCertificate leaf).bind (.foldlM hb.addExtra rest)

theorem useKey (k : PrivateKey) : Mirrors Like fun n => b.useKey n k :=
  (hb.setKey k).bind (.whenSome hb.setSchemes _)

/-- the requirement makes no difference to whether a build succeeds -/
theorem build_ok {role : Role} {required : Bool} {m : Material} {n : N} (h : b.build role required m = .ok n)
    (required' : Bool) : ∃ n', b.build role required' m = .ok n' := by
  obtain ⟨n₁, h₁, h⟩ := exists_of_bind_ok h
  obtain ⟨n₂, h₂, h⟩ := exists_of_bind_ok h
  have rest := (Mirrors.foldlM hb.addAnchor m.anchors).bind ((Mirrors.whenSome hb.trustDirectory m.directory).bind
    ((hb.presentChain m.chain).bind (Mirrors.whenSome hb.useKey m.key)))
  obtain ⟨n', hn', -⟩ := rest.mirror (hb.setVerify n₂ (.of role required) (.of role required')) h
  refine ⟨n', ?_⟩
  rw [Builder.build, h₁]
  change (b.setMinVersion n₁ .tls12 >>= _) = _
  rw [h₂]
  exact hn'

end Builder.Blind

end

/-! ## The signature schemes -/

/-- the signature schemes that a native library is told to advertise, those of this family first -/
def schemesFor : KeyFamily → List SignatureScheme
  | .rsa => [0x0804, 0x0805, 0x0806, 0x0401, 0x0501, 0x0601, 0x0403, 0x0503, 0x0603, 0x0807]
  | .ecdsa => [0x0403, 0x0503, 0x0603, 0x0804, 0x0805, 0x0806, 0x0401, 0x0501, 0x0601, 0x0807]

/-- a native library advertises the schemes that it is told, as far as it knows them -/
def Builder.Advertises {N : Type} (b : Builder N) (advertised : N → List SignatureScheme) (known : SignatureScheme → Bool) :
    Prop :=
  ∀ {n f d}, b.setSchemes n f = .ok d → advertised d = (schemesFor f).filter known

/-- a native context that was built with a key of some family advertises the schemes for it -/
theorem advertised_build {N : Type} {b : Builder N} {advertised : N → List SignatureScheme} {known : SignatureScheme → Bool}
    (hb : b.Advertises advertised known) {role : Role} {required : Bool} {m : Material} {n : N}
    (h : b.build role required m = .ok n) {f : KeyFamily} (hf : m.family? = some f) :
    advertised n = (schemesFor f).filter known := by
  obtain ⟨k, hk, hf⟩ := Option.bind_eq_some_iff.1 hf
  obtain ⟨n₁, -, h⟩ := exists_of_bind_ok h
  obtain ⟨n₂, -, h⟩ := exists_of_bind_ok h
  obtain ⟨n₃, -, h⟩ := exists_of_bind_ok h
  obtain ⟨n₄, -, h⟩ := exists_of_bind_ok h
  obtain ⟨n₅, -, h⟩ := exists_of_bind_ok h
  -- the schemes are the last thing that is set
  rw [hk] at h
  obtain ⟨n₆, -, h⟩ := exists_of_bind_ok h
  rw [hf] at h
  exact hb h

theorem allowed_eq (p : SignaturePolicy) : p.allowed = schemesFor p.preferred := by
  cases p with
  | mk preferred => cases preferred <;> rfl

end Snapshot

/-- what two parts of one list have in common comes in the same order in both -/
theorem filter_common {α : Type} [BEq α] [LawfulBEq α] (xs : List α) (p q : α → Bool) :
    (xs.filter p).filter ((xs.filter q).contains ·) = (xs.filter q).filter ((xs.filter p).contains ·) := by
  rw [List.filter_filter, List.filter_filter]
  refine List.filter_congr fun x hx => ?_
  simp only [List.contains_eq_mem, List.mem_filter, hx, true_and]
  cases p x <;> cases q x <;> rfl

/-! ## What two contexts have in common -/

/-- the algorithm of a key that can sign -/
def algorithm? : PublicKey → Option SigningAlgorithm
  | .rsa .. => some .rsa
  | .point .. => some .ecdsa
  | .raw .ed25519 _ => some .ed25519
  | .raw .. => none

/-- the same key: the same bytes, of the same algorithm -/
structure SameKey (k : PrivateKey) (s : SigningKey) : Prop where
  encoding : k.encoding = s.encoding
  algorithm : algorithm? k.publicKey = some s.algorithm

instance (k : PrivateKey) (s : SigningKey) : Decidable (SameKey k s) :=
  decidable_of_iff (k.encoding = s.encoding ∧ algorithm? k.publicKey = some s.algorithm)
    ⟨fun h => ⟨h.1, h.2⟩, fun h => ⟨h.encoding, h.algorithm⟩⟩

/-- the trust anchor in a certificate -/
def AnchorOf (c : Certificate) (a : TrustAnchor) : Prop := TrustAnchor.ofDer c.encoding = .ok a

/-- keys of one algorithm are of one family -/
theorem family_of_same {k : PrivateKey} {s : SigningKey} (h : SameKey k s) :
    k.publicKey.family? = s.algorithm.family? := by
  have of_algorithm : k.publicKey.family? = (algorithm? k.publicKey).bind SigningAlgorithm.family? := by
    rcases k.publicKey with _ | _ | ⟨scheme, _⟩
    · rfl
    · rfl
    · cases scheme <;> rfl
  rw [of_algorithm, h.algorithm, Option.bind_some]

/-- both readers find the same in the file of a call -/
def SameReading (files : Files) : Call → Prop
  | .anchorFile p | .certificateFile p => ∀ cs bs, Snapshot.readCertificates files p = .ok cs →
      LiveContext.readCertificates files p = .ok bs → cs.map Certificate.encoding = bs
  | .keyFile p => ∀ k s, Snapshot.readKey files p = .ok k → LiveContext.readKey files p = .ok s → SameKey k s
  | .anchorDirectory _ | .certRequired _ => True

variable {N : Type} {b : Snapshot.Builder N}

/-- a context whose handles are snapshots and one whose handles are live stand for the same -/
structure Agree (c : Snapshot.Context b) (d : LiveContext) : Prop where
  role : c.role = d.role
  required : c.certRequired = d.certRequired
  /-- the copy of the requirement that handshakes look at -/
  copied : d.credentials.certRequired = d.certRequired
  anchors : List.Forall₂ AnchorOf c.material.anchors (d.credentials.trustStore.getD [])
  /-- trust anchors were loaded into both or into neither -/
  trusting : c.material.anchors = [] ↔ d.credentials.trustStore = none
  directory : c.material.directory = none
  chain : c.material.chain.map Certificate.encoding = d.credentials.chain
  key : Option.Rel SameKey c.material.key d.credentials.key
  /-- what is presented is the chain with the key -/
  certified : d.credentials.refresh = d.credentials
  /-- the family of the key is preferred -/
  prefers : ∀ f, c.family? = some f → d.policy.preferred = f

/-! ## What a call brings to both -/

/-- what a call brings to the one and to the other -/
inductive SameLoad : Snapshot.Load → LiveContext.Load → Prop where
  | anchors {cs : List Certificate} {as : List TrustAnchor} (there : cs ≠ []) (same : List.Forall₂ AnchorOf cs as) :
      SameLoad (.anchors cs) (.anchors as)
  | chain (cs : List Certificate) : SameLoad (.chain cs) (.chain (cs.map Certificate.encoding))
  | key {k : PrivateKey} {s : SigningKey} (same : SameKey k s) : SameLoad (.key k) (.key s)
  | certRequired (required : Bool) : SameLoad (.certRequired required) (.certRequired required)

/-- trust anchors are taken from certificates one by one -/
theorem anchors_of_certificates {p : Path} {cs : List Certificate} {as : List TrustAnchor}
    (h : LiveContext.anchorsOf p (cs.map Certificate.encoding) = .ok as) : List.Forall₂ AnchorOf cs as := by
  unfold LiveContext.anchorsOf at h
  induction cs generalizing as with
  | nil =>
    cases h
    exact .nil
  | cons c cs ih =>
    rw [List.map_cons, List.mapM_cons] at h
    obtain ⟨a, ha, h⟩ := exists_of_bind_ok h
    obtain ⟨as', has, h⟩ := exists_of_bind_ok h
    cases h
    refine .cons ?_ (ih has)
    split at ha
    · cases ha
      assumption
    · cases ha

/-- a file that was read has certificates -/
theorem readCertificates_ne_nil {files : Files} {p : Path} {cs : List Certificate}
    (h : Snapshot.readCertificates files p = .ok cs) : cs ≠ [] := by
  unfold Snapshot.readCertificates at h
  split at h
  · cases h
  · split at h <;> cases h
    assumption

/-- where the readers find the same, a call brings the same -/
theorem SameReading.load {files : Files} {x : Call} {l : Snapshot.Load} {l' : LiveContext.Load} (same : SameReading files x)
    (hl : Snapshot.read files x = .ok l) (hl' : LiveContext.read files x = .ok l') : SameLoad l l' := by
  cases x with
  | anchorFile p =>
    obtain ⟨cs, hcs, rfl⟩ := exists_of_map_ok hl
    obtain ⟨as, has, rfl⟩ := exists_of_map_ok hl'
    obtain ⟨bs, hbs, has⟩ := exists_of_bind_ok has
    rw [← same cs bs hcs hbs] at has
    exact .anchors (readCertificates_ne_nil hcs) (anchors_of_certificates has)
  | anchorDirectory p => cases hl'
  | certificateFile p =>
    obtain ⟨cs, hcs, rfl⟩ := exists_of_map_ok hl
    obtain ⟨bs, hbs, rfl⟩ := exists_of_map_ok hl'
    exact same cs bs hcs hbs ▸ .chain cs
  | keyFile p =>
    obtain ⟨k, hk, rfl⟩ := exists_of_map_ok hl
    obtain ⟨s, hs, rfl⟩ := exists_of_map_ok hl'
    exact .key (same k s hk hs)
  | certRequired required =>
    cases hl
    cases hl'
    exact .certRequired required

namespace LiveContext

theorem certRequired_put (c : LiveContext) (l : Load) : (c.put l).certRequired = l.required c.certRequired := by
  rw [put_eq]

theorem policy_put (c : LiveContext) (l : Load) : (c.put l).policy = l.policy c.policy := by
  rw [put_eq]
  exact Shelf.value_alter _ _

end LiveContext

section

variable {c c' : Snapshot.Context b} {d : LiveContext}

/-- contexts that stand for the same do so behind the same load -/
theorem Agree.put (h : Agree c d) {l : Snapshot.Load} {l' : LiveContext.Load} (same : SameLoad l l') (hrole : c'.role = c.role)
    (hreq : c'.certRequired = l.required c.certRequired) (hmat : c'.material = l.into c.material) : Agree c' (d.put l') := by
  constructor <;> simp only [hrole, hreq, hmat, d.role_put, d.certRequired_put, d.credentials_put, d.policy_put,
    Snapshot.Context.family?]
  case role => exact h.role
  case required => cases same <;> first | exact h.required | rfl
  case copied => cases same <;> first | exact h.copied | rfl
  case anchors => cases same <;> first | exact h.anchors | assumption
  case trusting =>
    cases same with
    | anchors there same => exact iff_of_false there nofun
    | chain | key | certRequired => exact h.trusting
  case directory => cases same <;> exact h.directory
  case chain => cases same <;> first | exact h.chain | rfl
  case key =>
    cases same with
    | key same => exact .some same
    | anchors | chain | certRequired => exact h.key
  case certified =>
    cases same with
    | @anchors cs as there same => exact congrArg (Credentials.setTrustStore · as) h.certified
    | certRequired required => exact congrArg (Credentials.setCertRequired · required) h.certified
    | chain | key => rfl
  case prefers =>
    cases same with
    | @key k s same =>
      intro f hf
      have family : s.algorithm.family? = some f := (family_of_same same).symm.trans hf
      simp only [LiveContext.Load.policy, family, Option.elim_some, SignaturePolicy.prefer]
    | anchors | chain | certRequired => exact h.prefers

/-! ## Side by side -/

/-- a call succeeds -/
def Succeeds {C : Type} [Endpoint C] (files : Files) (c : C) (x : Call) : Prop :=
  ∃ events, (attempt files c x).2 = .ok events

/-- each call, but for the requirement, succeeds on both or fails on both when it is made -/
def Together (c : Snapshot.Context b) (d : LiveContext) : List (Files × Call) → Prop
  | [] => True
  | x :: xs => (x.2.kind ≠ .certRequired → (Succeeds x.1 c x.2 ↔ Succeeds x.1 d x.2)) ∧
      Together (attempt x.1 c x.2).1 (attempt x.1 d x.2).1 xs

/-- a requirement is taken by both, or refused by both as a bad value -/
theorem Agree.require {Like : N → N → Prop} (h : Agree c d) (hb : c.Built) (blind : b.Blind Like) (files : Files)
    (required : Bool) :
    Succeeds files c (.certRequired required) ∧ Succeeds files d (.certRequired required) ∨
      ∃ text, (attempt files c (.certRequired required)).2 = .error (.badValue text) ∧
        (attempt files d (.certRequired required)).2 = .error (.badValue text) := by
  have follows := hb.follows files (.certRequired required)
  have live := LiveContext.attempt_eq files d (.certRequired required)
  simp only [LiveContext.read, LiveContext.Load.check, ← h.role] at live
  unfold Snapshot.Context.Follows Snapshot.State.call Snapshot.State.rebuild at follows
  simp only [Snapshot.read, Snapshot.Load.check, Snapshot.Context.state] at follows
  cases refuse : refuseUnverified c.role required with
  | error e =>
    rw [refuse] at live
    simp only [refuse, Except.map] at follows
    have bad : ∃ text, e = .badValue text := by
      unfold refuseUnverified at refuse
      split at refuse <;> cases refuse
      exact ⟨_, rfl⟩
    obtain ⟨text, rfl⟩ := bad
    exact .inr ⟨text, by rw [follows], by rw [live]⟩
  | ok u =>
    rw [refuse] at live
    obtain ⟨n, hn⟩ := blind.build_ok hb required
    simp only [refuse, Snapshot.Load.required, Snapshot.Load.required?, Option.getD_some, Snapshot.Load.into, hn,
      Except.map] at follows
    obtain ⟨c', hc', -⟩ := follows
    exact .inl ⟨⟨_, by rw [hc']⟩, ⟨_, by rw [live]⟩⟩

/-- contexts that stand for the same do so behind a call that succeeds on both or fails on both -/
theorem Agree.attempt (h : Agree c d) {files : Files} {x : Call} (same : SameReading files x)
    (together : Succeeds files c x ↔ Succeeds files d x) : Agree (attempt files c x).1 (attempt files d x).1 := by
  have hc := Snapshot.Context.called_attempt files c x
  have live := LiveContext.attempt_eq files d x
  rcases ha : Tls.attempt files c x with ⟨c', r⟩
  rw [ha] at hc
  -- a call that fails on the one fails on the other, and changes neither
  have failed : ∀ e, r = .error e → Agree c (Tls.attempt files d x).1 := by
    rintro e rfl
    have fails : ¬Succeeds files d x := fun hd => by
      obtain ⟨events, he⟩ := together.2 hd
      rw [ha] at he
      cases he
    cases hd : (Tls.attempt files d x).2 with
    | ok events => exact absurd ⟨events, hd⟩ fails
    | error e' => rwa [LiveContext.atomic files d x e' hd]
  cases hc with
  | unread unread => exact failed _ rfl
  | failed read taken => exact failed _ rfl
  | @done l _ hl taken =>
    obtain ⟨events, he⟩ := together.1 ⟨_, by rw [ha]⟩
    rw [live] at he ⊢
    cases hl' : LiveContext.read files x with
    | error e => simp [hl'] at he
    | ok l' =>
      cases check : l'.check d.role with
      | error e => simp [hl', check] at he
      | ok u =>
        obtain ⟨recordedReq, recordedMat⟩ := taken.recorded
        simp only [check]
        exact h.put (same.load hl hl') taken.role recordedReq recordedMat

/-- new contexts of one role stand for the same -/
theorem agree_fresh {role : Role} {c : Snapshot.Context b} {d : LiveContext} (hc : Snapshot.Context.fresh role = .ok c)
    (hd : LiveContext.fresh role = .ok d) : Agree c d := by
  obtain ⟨-, hrole, hreq, hmat⟩ := Snapshot.Context.built_fresh hc
  cases hd
  constructor
  case role => exact hrole
  case required => exact hreq
  case copied => rfl
  case anchors => exact hmat ▸ .nil
  case trusting => exact iff_of_true (by rw [hmat]) rfl
  case directory => rw [hmat]
  case chain => exact hmat ▸ rfl
  case key => exact hmat ▸ .none
  case certified => rfl
  case prefers =>
    intro f hf
    rw [Snapshot.Context.family?, hmat] at hf
    cases hf

/-- contexts that stand for the same do so behind calls that succeed on both or fail on both -/
theorem agree_history {Like : N → N → Prop} (h : Agree c d) (hb : c.Built) (blind : b.Blind Like) {xs : List (Files × Call)}
    (same : ∀ x ∈ xs, SameReading x.1 x.2) (together : Together c d xs) : Agree (history c xs) (history d xs) := by
  induction xs generalizing c d with
  | nil => exact h
  | cons x xs ih =>
    obtain ⟨first, others⟩ := List.forall_mem_cons.1 same
    obtain ⟨alike, later⟩ := together
    have both : Succeeds x.1 c x.2 ↔ Succeeds x.1 d x.2 := by
      rcases x with ⟨files, x⟩
      cases x with
      | certRequired required =>
        obtain ⟨hc, hd⟩ | ⟨text, hc, hd⟩ := h.require hb blind files required
        · exact iff_of_true hc hd
        · refine iff_of_false ?_ ?_
          · rintro ⟨events, he⟩
            cases hc.symm.trans he
          · rintro ⟨events, he⟩
            cases hd.symm.trans he
      | anchorFile p | anchorDirectory p | certificateFile p | keyFile p => exact alike nofun
    rw [history_cons, history_cons]
    exact ih (h.attempt first both) (Snapshot.Context.attempt_keeps Snapshot.Context.Taken.keeps_built x.1 c x.2 hb) others
      later

/-- what the peers of two contexts notice of them is the same -/
structure Alike (see : N → Snapshot.View) (advertised : N → List SignatureScheme) (c : Snapshot.Context b) (d : LiveContext) :
    Prop where
  /-- a server asks its clients for a certificate and refuses those without one -/
  demands : c.role = .server → ∀ supported,
    ((see c.handle).verify = ⟨true, true⟩ ↔ (d.terms supported).asks = true ∧ (d.terms supported).insists = true)
  /-- the signature schemes that are advertised in common come in one order -/
  schemes : ∀ f, c.family? = some f → ∀ supported,
    (advertised c.handle).filter ((d.terms supported).schemes.contains ·) =
      (d.terms supported).schemes.filter ((advertised c.handle).contains ·)

/-- contexts that stand for the same are alike to their peers -/
theorem Agree.alike {see : N → Snapshot.View} {advertised : N → List SignatureScheme} {known : SignatureScheme → Bool}
    (h : Agree c d) (hb : c.Built) (faithful : b.Faithful see) (advertises : b.Advertises advertised known) :
    Alike see advertised c d := by
  constructor
  case demands =>
    intro server supported
    have asks : (d.terms supported).asks = c.certRequired := h.copied.trans h.required.symm
    have insists : (d.terms supported).insists = c.certRequired := h.copied.trans h.required.symm
    rw [faithful.see_build hb, Snapshot.Material.view, server, asks, insists]
    cases c.certRequired <;> simp [Snapshot.VerifyMode.of]
  case schemes =>
    intro f hf supported
    have live : (d.terms supported).schemes = (Snapshot.schemesFor f).filter (supported.contains ·) := by
      rw [← h.prefers f hf, ← Snapshot.allowed_eq]
      rfl
    rw [Snapshot.advertised_build advertises hb hf, live]
    exact filter_common _ _ _

/-- **The two kinds of context mean the same.** Take a new context of each kind, of one role, and make the same calls on both,
with readers that find the same in the files and with loads that succeed on both or fail on both. Behind the calls the two
stand for the same: role, requirement, trust anchors, chain, key. A server demands a certificate of its clients through both
or through neither, the family of the key is preferred, and the signature schemes that both advertise come in one order. The
next requirement succeeds on both or is refused by both as a bad value. -/
theorem contexts_agree {see : N → Snapshot.View} {Like : N → N → Prop} {advertised : N → List SignatureScheme}
    {known : SignatureScheme → Bool} (faithful : b.Faithful see) (blind : b.Blind Like)
    (advertises : b.Advertises advertised known) {role : Role} {c₀ : Snapshot.Context b} {d₀ : LiveContext}
    (hc : Snapshot.Context.fresh role = .ok c₀) (hd : LiveContext.fresh role = .ok d₀) {xs : List (Files × Call)}
    (same : ∀ x ∈ xs, SameReading x.1 x.2) (together : Together c₀ d₀ xs) :
    let c := history c₀ xs
    let d := history d₀ xs
    Agree c d ∧ Alike see advertised c d ∧ ∀ files required,
      Succeeds files c (.certRequired required) ∧ Succeeds files d (.certRequired required) ∨
        ∃ text, (attempt files c (.certRequired required)).2 = .error (.badValue text) ∧
          (attempt files d (.certRequired required)).2 = .error (.badValue text) := by
  intro c d
  have built := (Snapshot.Context.built_fresh hc).1
  have agree : Agree c d := agree_history (agree_fresh hc hd) built blind same together
  have later : c.Built := Snapshot.Context.built_history built xs
  exact ⟨agree, agree.alike later faithful advertises, agree.require later blind⟩

end

/-! ## The native library that endpoints run with -/

namespace Snapshot.Native

/-- the same but for the verify mode -/
def Like (n n' : Native) : Prop := ∃ v, n' = { n with verify := v }

/-- a step that hands the verify mode on does not look at it -/
theorem mirrors {f : Native → Except TlsError Native}
    (blind : ∀ n v, f { n with verify := v } = (f n).map fun d => { d with verify := v }) : Mirrors Like f := by
  constructor
  rintro n n' d ⟨v, rfl⟩ hd
  exact ⟨{ d with verify := v }, by rw [blind, hd]; rfl, v, rfl⟩

theorem blind : builder.Blind Like where
  setVerify n v v' := ⟨v', rfl⟩
  addAnchor c := mirrors fun _ _ => rfl
  addLookup := mirrors fun _ _ => rfl
  addDirectory s := mirrors fun _ _ => rfl
  setCertificate c := mirrors fun n v => by
    simp only [builder, setCertificate]
    split
    · rfl
    · split <;> rfl
  addExtra c := mirrors fun _ _ => rfl
  setKey k := mirrors fun n v => by
    have certificates : ({ n with verify := v } : Native).certificate? = n.certificate? := rfl
    simp only [builder, setKey, certificates]
    split
    · rfl
    · split <;> rfl
  setSchemes f := mirrors fun _ _ => rfl

/-- the signature schemes for the family that was set last -/
def advertised (n : Native) : List SignatureScheme := n.preferred.elim [] schemesFor

theorem advertises : builder.Advertises advertised fun _ => true := by
  intro n f d hd
  cases hd
  simp [advertised]

end Snapshot.Native

open Snapshot.Context (disk exists_ok_of_any) in
/-- two servers with the key of new, which is of a curve, that require nothing of their clients -/
theorem contexts_agree_curve : ∃ (c₀ : SnapshotContext) (d₀ : LiveContext) (xs : List (Files × Call)),
    xs = [(disk, .keyFile (.ofText "new.key")), (disk, .certRequired false)] ∧
      Snapshot.Context.fresh .server = .ok c₀ ∧ LiveContext.fresh .server = .ok d₀ ∧
      (∀ x ∈ xs, SameReading x.1 x.2) ∧ Together c₀ d₀ xs ∧
      Agree (history c₀ xs) (history d₀ xs) ∧ (history c₀ xs).family? = some .ecdsa ∧
      (history d₀ xs).policy.preferred = .ecdsa ∧
      ((history c₀ xs).handle.verify = ⟨true, true⟩ ↔ ((history d₀ xs).terms []).asks = true ∧
        ((history d₀ xs).terms []).insists = true) := by
  obtain ⟨c₀, hc⟩ : ∃ c, (Snapshot.Context.fresh .server : Except TlsError SnapshotContext) = .ok c := ⟨_, rfl⟩
  obtain ⟨d₀, hd⟩ : ∃ d, LiveContext.fresh .server = .ok d := ⟨_, rfl⟩
  have same : ∀ x ∈ [(disk, Call.keyFile (.ofText "new.key")), (disk, .certRequired false)], SameReading x.1 x.2 := by
    have check : ((Snapshot.readKey disk (.ofText "new.key")).toOption.any fun k =>
        (LiveContext.readKey disk (.ofText "new.key")).toOption.any fun s => decide (SameKey k s)) = true := by
      decide +kernel
    obtain ⟨k, hk, check⟩ := exists_ok_of_any check
    obtain ⟨s, hs, check⟩ := exists_ok_of_any check
    rw [List.forall_mem_cons, List.forall_mem_singleton]
    refine ⟨fun k' s' hk' hs' => ?_, trivial⟩
    cases hk.symm.trans hk'
    cases hs.symm.trans hs'
    exact of_decide_eq_true check
  have together : Together c₀ d₀ [(disk, .keyFile (.ofText "new.key")), (disk, .certRequired false)] := by
    refine ⟨fun _ => iff_of_true ?_ ?_, fun load => absurd rfl load, trivial⟩
    · have check : ((attempt disk c₀ (.keyFile (.ofText "new.key"))).2.toOption.any fun _ => true) = true := by
        cases hc
        decide +kernel
      obtain ⟨events, he, -⟩ := exists_ok_of_any check
      exact ⟨events, he⟩
    · have check : ((attempt disk d₀ (.keyFile (.ofText "new.key"))).2.toOption.any fun _ => true) = true := by
        cases hd
        decide +kernel
      obtain ⟨events, he, -⟩ := exists_ok_of_any check
      exact ⟨events, he⟩
  obtain ⟨agree, alike, -⟩ := contexts_agree Snapshot.Native.faithful Snapshot.Native.blind Snapshot.Native.advertises hc hd
    same together
  have family : (history c₀ [(disk, .keyFile (.ofText "new.key")), (disk, .certRequired false)]).family? = some .ecdsa := by
    cases hc
    decide +kernel
  have server : (history c₀ [(disk, .keyFile (.ofText "new.key")), (disk, .certRequired false)]).role = .server := by
    rw [(Snapshot.Context.history_recorded c₀ _).1, (Snapshot.Context.built_fresh hc).2.1]
  exact ⟨c₀, d₀, _, rfl, hc, hd, same, together, agree, family, agree.prefers _ family, alike.demands server []⟩

end SecureEndpoint.Tls
