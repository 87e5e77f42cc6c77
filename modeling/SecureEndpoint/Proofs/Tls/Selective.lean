/-
A native library whose steps fail only on what they are given.

Whether the build of some material succeeds could depend on everything: on the steps before, on their order, on the role. A
library is `Selective` if it does not: a step fails or succeeds for its argument alone, wherever the build stands, and only a
private key is looked at together with the certificate that it is to go with. What is relied on is said of single steps.
`Runs` puts them together, and `build_ok_iff_accepts` is the result: where a build begins at all, it succeeds if and only if
every part of the material is accepted and the key goes with the certificate.

So less material is never worse (`Builder.Accepts.of_part`), and neither the role nor the requirement makes a difference. The
native library that endpoints run with is selective (`Native.selective`).
-/
import SecureEndpoint.Proofs.Tls.Renewal

namespace SecureEndpoint.Tls.Snapshot

open Certificate Key
open Host (Path)

/-! ## What is relied on -/

/-- a step has succeeded for this argument, at least once -/
def Takes {N α : Type} (step : N → α → Except TlsError N) (a : α) : Prop := ∃ n d, step n a = .ok d

/-- a step that succeeds for its argument anywhere succeeds for it everywhere -/
def Plain {N α : Type} (step : N → α → Except TlsError N) : Prop := ∀ {a}, Takes step a → ∀ n, ∃ d, step n a = .ok d

/-- the steps of a native library fail only on what they are given, and a key on the certificate that it is to go with.
`Bears n o` says which certificate `n` presents as its own, and `Mismatch c k` that a key is refused beside a certificate. -/
structure Builder.Selective {N : Type} (b : Builder N) (Bears : N → Option Certificate → Prop)
    (Mismatch : Certificate → PrivateKey → Prop) : Prop where
  start : ∀ {r n}, b.start r = .ok n → Bears n none
  setMinVersion : Plain b.setMinVersion ∧ ∀ {n o v d}, Bears n o → b.setMinVersion n v = .ok d → Bears d o
  setVerify : ∀ {n o} v, Bears n o → Bears (b.setVerify n v) o
  addAnchor : Plain b.addAnchor ∧ ∀ {n o c d}, Bears n o → b.addAnchor n c = .ok d → Bears d o
  addLookup : Plain (fun n (_ : Unit) => b.addLookup n) ∧ ∀ {n o d}, Bears n o → b.addLookup n = .ok d → Bears d o
  addDirectory : Plain b.addDirectory ∧ ∀ {n o s d}, Bears n o → b.addDirectory n s = .ok d → Bears d o
  setCertificate : Plain b.setCertificate ∧ ∀ {n c d}, Bears n none → b.setCertificate n c = .ok d → Bears d (some c)
  addExtra : Plain b.addExtra ∧ ∀ {n o c d}, Bears n o → b.addExtra n c = .ok d → Bears d o
  /-- a key that was ever accepted is accepted where it is no mismatch, and nowhere else -/
  setKey : ∀ {n o k}, Bears n o → ((∃ d, b.setKey n k = .ok d) ↔ Takes b.setKey k ∧ ∀ c, o = some c → ¬Mismatch c k)
  bears_setKey : ∀ {n o k d}, Bears n o → b.setKey n k = .ok d → Bears d o
  setSchemes : Plain b.setSchemes ∧ ∀ {n o f d}, Bears n o → b.setSchemes n f = .ok d → Bears d o

/-! ## Steps one after another -/

section

variable {N : Type}

/-- from native contexts with the one certificate, steps succeed under a condition and lead to some with the other -/
structure Runs (Bears : N → Option Certificate → Prop) (o o' : Option Certificate) (f : N → Except TlsError N) (P : Prop) :
    Prop where
  ok_iff : ∀ {n}, Bears n o → ((∃ d, f n = .ok d) ↔ P)
  bears : ∀ {n d}, Bears n o → f n = .ok d → Bears d o'

namespace Runs

variable {Bears : N → Option Certificate → Prop} {o o' o'' : Option Certificate} {f g : N → Except TlsError N} {P Q : Prop}

theorem congr (h : Runs Bears o o' f P) (hPQ : P ↔ Q) : Runs Bears o o' f Q :=
  ⟨fun hn => (h.ok_iff hn).trans hPQ, h.bears⟩

/-- a step that cannot fail -/
theorem always {f : N → N} (bears : ∀ {n}, Bears n o → Bears (f n) o') : Runs Bears o o' (fun n => .ok (f n)) True :=
  ⟨fun _ => iff_of_true ⟨_, rfl⟩ trivial, fun hn hd => Except.ok.inj hd ▸ bears hn⟩

theorem bind (hf : Runs Bears o o' f P) (hg : Runs Bears o' o'' g Q) : Runs Bears o o'' (fun n => f n >>= g) (P ∧ Q) := by
  constructor
  · intro n hn
    rw [exists_bind_ok_iff]
    constructor
    · rintro ⟨d, hd, he⟩
      exact ⟨(hf.ok_iff hn).1 ⟨d, hd⟩, (hg.ok_iff (hf.bears hn hd)).1 he⟩
    · rintro ⟨hP, hQ⟩
      obtain ⟨d, hd⟩ := (hf.ok_iff hn).2 hP
      exact ⟨d, hd, (hg.ok_iff (hf.bears hn hd)).2 hQ⟩
  · intro n e hn he
    obtain ⟨d, hd, he⟩ := exists_of_bind_ok he
    exact hg.bears (hf.bears hn hd) he

variable {α : Type} {step : N → α → Except TlsError N}

/-- a step that fails only on its argument -/
theorem plain (hs : Plain step) {a : α} (bears : ∀ {n d}, Bears n o → step n a = .ok d → Bears d o') :
    Runs Bears o o' (fun n => step n a) (Takes step a) :=
  ⟨fun {n} _ => ⟨fun ⟨d, hd⟩ => ⟨n, d, hd⟩, fun h => hs h n⟩, bears⟩

/-- the same step with everything in a list -/
theorem foldlM (hs : Plain step) (bears : ∀ {n a d}, Bears n o → step n a = .ok d → Bears d o) (as : List α) :
    Runs Bears o o (fun n => as.foldlM step n) (∀ a ∈ as, Takes step a) := by
  induction as with
  | nil => exact (always id).congr (by simp)
  | cons a as ih => exact ((plain hs bears).bind ih).congr List.forall_mem_cons.symm

/-- a step that is made if there is something to make it with -/
theorem whenSome {R : α → Prop} (a : Option α) (hs : ∀ a', Runs Bears o o (fun n => step n a') (R a')) :
    Runs Bears o o (fun n => Snapshot.whenSome step a n) (∀ a', a = some a' → R a') := by
  cases a with
  | none => exact (always id).congr (by simp)
  | some a => exact (hs a).congr (by simp)

end Runs

/-! ## What is accepted -/

/-- every part of some material is accepted, and the key goes with the certificate -/
structure Builder.Accepts (b : Builder N) (Mismatch : Certificate → PrivateKey → Prop) (m : Material) : Prop where
  anchors : ∀ c ∈ m.anchors, Takes b.addAnchor c
  directory : ∀ p, m.directory = some p →
    ∃ s, directoryText p = .ok s ∧ Takes (fun n (_ : Unit) => b.addLookup n) () ∧ Takes b.addDirectory s
  leaf : ∀ c, m.chain.head? = some c → Takes b.setCertificate c
  extra : ∀ c ∈ m.chain.tail, Takes b.addExtra c
  key : ∀ k, m.key = some k → Takes b.setKey k ∧ ∀ f, k.publicKey.family? = some f → Takes b.setSchemes f
  pair : ∀ c, m.chain.head? = some c → ∀ k, m.key = some k → ¬Mismatch c k

/-- what is there of some material is there of the other, too -/
structure Material.Part (m m' : Material) : Prop where
  anchors : m.anchors = [] ∨ m.anchors = m'.anchors
  directory : m.directory = none ∨ m.directory = m'.directory
  chain : m.chain = [] ∨ m.chain = m'.chain
  key : m.key = none ∨ m.key = m'.key

variable {b : Builder N} {Mismatch : Certificate → PrivateKey → Prop}

/-- less material is not worse -/
theorem Builder.Accepts.of_part {m m' : Material} (h : b.Accepts Mismatch m') (part : m.Part m') : b.Accepts Mismatch m := by
  have leaf_of : ∀ {c}, m.chain.head? = some c → m'.chain.head? = some c := by
    intro c hc
    obtain none | same := part.chain
    · rw [none] at hc
      cases hc
    · rwa [← same]
  have key_of : ∀ {k}, m.key = some k → m'.key = some k := by
    intro k hk
    obtain none | same := part.key
    · rw [none] at hk
      cases hk
    · rwa [← same]
  constructor
  case anchors =>
    obtain none | same := part.anchors
    · simp [none]
    · exact same ▸ h.anchors
  case directory =>
    obtain none | same := part.directory
    · simp [none]
    · exact same ▸ h.directory
  case extra =>
    obtain none | same := part.chain
    · simp [none]
    · exact same ▸ h.extra
  case leaf => exact fun c hc => h.leaf c (leaf_of hc)
  case key => exact fun k hk => h.key k (key_of hk)
  case pair => exact fun c hc k hk => h.pair c (leaf_of hc) k (key_of hk)

namespace Builder.Selective

variable {Bears : N → Option Certificate → Prop} {o : Option Certificate} (hb : b.Selective Bears Mismatch)

include hb

theorem runs_trustDirectory (p : Path) : Runs Bears o o (fun n => b.trustDirectory n p)
    (∃ s, directoryText p = .ok s ∧ Takes (fun n (_ : Unit) => b.addLookup n) () ∧ Takes b.addDirectory s) := by
  unfold Builder.trustDirectory
  cases hs : directoryText p with
  | error e => exact ⟨fun _ => iff_of_false nofun nofun, nofun⟩
  | ok s =>
    have lookup : Runs Bears o o (fun n => b.addLookup n) (Takes (fun n (_ : Unit) => b.addLookup n) ()) :=
      Runs.plain hb.addLookup.1 (a := ()) hb.addLookup.2
    exact (lookup.bind (Runs.plain hb.addDirectory.1 (a := s) hb.addDirectory.2)).congr (by simp)

theorem runs_presentChain (chain : List Certificate) : Runs Bears none chain.head? (fun n => b.presentChain n chain)
    ((∀ c, chain.head? = some c → Takes b.setCertificate c) ∧ ∀ c ∈ chain.tail, Takes b.addExtra c) := by
  cases chain with
  | nil => exact (Runs.always id).congr (by simp)
  | cons leaf rest =>
    have own := Runs.plain hb.setCertificate.1 (a := leaf) hb.setCertificate.2
    exact (own.bind (Runs.foldlM hb.addExtra.1 hb.addExtra.2 rest)).congr (by simp)

theorem runs_useKey (k : PrivateKey) : Runs Bears o o (fun n => b.useKey n k)
    ((Takes b.setKey k ∧ ∀ c, o = some c → ¬Mismatch c k) ∧ ∀ f, k.publicKey.family? = some f → Takes b.setSchemes f) :=
  (Runs.mk hb.setKey hb.bears_setKey).bind (Runs.whenSome _ fun _ => Runs.plain hb.setSchemes.1 hb.setSchemes.2)

/-- what follows on the beginning of a build -/
theorem runs_build (role : Role) (required : Bool) (m : Material) :
    Runs Bears none m.chain.head? (fun n => do
      let n ← b.setMinVersion n .tls12
      let n ← Except.ok (b.setVerify n (.of role required))
      let n ← m.anchors.foldlM b.addAnchor n
      let n ← whenSome b.trustDirectory m.directory n
      let n ← b.presentChain n m.chain
      whenSome b.useKey m.key n) (Takes b.setMinVersion .tls12 ∧ b.Accepts Mismatch m) := by
  have run := (Runs.plain hb.setMinVersion.1 (a := .tls12) hb.setMinVersion.2).bind
    ((Runs.always (hb.setVerify (.of role required))).bind
      ((Runs.foldlM hb.addAnchor.1 hb.addAnchor.2 m.anchors).bind
        ((Runs.whenSome m.directory hb.runs_trustDirectory).bind
          ((hb.runs_presentChain m.chain).bind (Runs.whenSome m.key hb.runs_useKey)))))
  refine run.congr (and_congr_right fun _ => ?_)
  constructor
  · rintro ⟨-, anchors, directory, ⟨leaf, extra⟩, key⟩
    exact ⟨anchors, directory, leaf, extra, fun k hk => ⟨(key k hk).1.1, (key k hk).2⟩, fun c hc k hk => (key k hk).1.2 c hc⟩
  · intro h
    exact ⟨trivial, h.anchors, h.directory, ⟨h.leaf, h.extra⟩,
      fun k hk => ⟨⟨(h.key k hk).1, fun c hc => h.pair c hc k hk⟩, (h.key k hk).2⟩⟩

/-- **A build succeeds if every part of the material is accepted.** Where a build begins at all, it succeeds if and only if
each part of the material is accepted by itself and the key goes with the certificate. -/
theorem build_ok_iff_accepts {role : Role} {required : Bool} {m : Material} :
    (∃ n, b.build role required m = .ok n) ↔
      (∃ n, b.start role = .ok n) ∧ Takes b.setMinVersion .tls12 ∧ b.Accepts Mismatch m := by
  unfold Builder.build
  rw [exists_bind_ok_iff, ← exists_and_right]
  exact exists_congr fun n => and_congr_right fun hn => (hb.runs_build role required m).ok_iff (hb.start hn)

end Builder.Selective

end

/-! ## The native library that endpoints run with -/

namespace Native

/-- the only certificate that is presented, with its kind of key -/
def Bears (n : Native) : Option Certificate → Prop
  | none => n.certificates = []
  | some c => ∃ slot, c.key?.bind PublicKey.slot? = some slot ∧ n.certificates = [(slot, c)]

theorem Bears.of_same {n d : Native} {o : Option Certificate} (h : n.Bears o) (same : d.certificates = n.certificates) :
    d.Bears o := by
  cases o with
  | none => exact same.trans h
  | some c =>
    obtain ⟨slot, hslot, only⟩ := h
    exact ⟨slot, hslot, same.trans only⟩

theorem setCertificate_ok {n d : Native} {c : Certificate} (h : setCertificate n c = .ok d) :
    c.isPresentable = true ∧
      ∃ slot, c.key?.bind PublicKey.slot? = some slot ∧ d.certificates = n.certificates ++ [(slot, c)] := by
  unfold setCertificate at h
  split at h
  case h_1 => cases h
  case h_2 slot hslot =>
    split at h
    case isFalse => cases h
    case isTrue presentable =>
      cases h
      exact ⟨presentable, slot, hslot, rfl⟩

theorem plain_setCertificate : Plain builder.setCertificate := by
  rintro c ⟨n, d, hd⟩ m
  obtain ⟨presentable, slot, hslot, -⟩ := setCertificate_ok hd
  exact ⟨{ m with certificates := m.certificates ++ [(slot, c)], current := slot },
    by simp [builder, setCertificate, hslot, presentable]⟩

theorem certificates_setKey {n d : Native} {k : PrivateKey} (h : setKey n k = .ok d) : d.certificates = n.certificates := by
  unfold setKey at h
  split at h
  · cases h
  · split at h <;> cases h
    rfl

/-- beside its own certificate a native context takes every key that can sign, unless the two clash -/
theorem setKey_ok_iff_of_bears {n : Native} {o : Option Certificate} (h : n.Bears o) (k : PrivateKey) :
    (∃ d, setKey n k = .ok d) ↔ k.publicKey.slot?.isSome = true ∧ ∀ c, o = some c → ¬Clash c k := by
  rw [setKey_ok_iff]
  cases o with
  | none =>
    have empty : n.certificates = [] := h
    simp [certificate?, empty, Option.isSome_iff_exists]
  | some c =>
    obtain ⟨slot, hslot, only⟩ := h
    exact (goes_with_iff only hslot k).trans (by simp)

theorem takes_setKey_iff {k : PrivateKey} : Takes builder.setKey k ↔ k.publicKey.slot?.isSome = true := by
  constructor
  · rintro ⟨n, d, hd⟩
    obtain ⟨slot, hslot, -⟩ := setKey_ok_iff.1 ⟨d, hd⟩
    rw [hslot, Option.isSome_some]
  · intro signs
    have empty : Bears { role := .server } none := rfl
    obtain ⟨d, hd⟩ := (setKey_ok_iff_of_bears empty k).2 ⟨signs, fun c hc => by cases hc⟩
    exact ⟨_, d, hd⟩

theorem selective : builder.Selective Bears Clash where
  start h := by
    cases h
    rfl
  setMinVersion := ⟨fun _ _ => ⟨_, rfl⟩, fun hn h => hn.of_same (by cases h; rfl)⟩
  setVerify _ hn := hn.of_same rfl
  addAnchor := ⟨fun _ _ => ⟨_, rfl⟩, fun hn h => hn.of_same (by cases h; rfl)⟩
  addLookup := ⟨fun _ _ => ⟨_, rfl⟩, fun hn h => hn.of_same (by cases h; rfl)⟩
  addDirectory := ⟨fun _ _ => ⟨_, rfl⟩, fun hn h => hn.of_same (by cases h; rfl)⟩
  setCertificate := by
    refine ⟨plain_setCertificate, fun {n c d} hn h => ?_⟩
    obtain ⟨-, slot, hslot, certificates⟩ := setCertificate_ok h
    have empty : n.certificates = [] := hn
    rw [empty, List.nil_append] at certificates
    exact ⟨slot, hslot, certificates⟩
  addExtra := ⟨fun _ _ => ⟨_, rfl⟩, fun hn h => hn.of_same (by cases h; rfl)⟩
  setKey hn := (setKey_ok_iff_of_bears hn _).trans (and_congr_left fun _ => takes_setKey_iff.symm)
  bears_setKey hn h := hn.of_same (certificates_setKey h)
  setSchemes := ⟨fun _ _ => ⟨_, rfl⟩, fun hn h => hn.of_same (by cases h; rfl)⟩

end Native

end SecureEndpoint.Tls.Snapshot
