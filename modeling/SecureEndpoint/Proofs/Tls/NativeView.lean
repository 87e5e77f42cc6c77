/-
What counts of a native context for its peers: who it is, how it treats them, and whom it trusts.

A native library that is `Faithful` does in each step what the step is for, and nothing else that counts here. So a native
context looks like the material and the requirement it was built from, whatever the steps keep besides: `see_build`.
-/
import SecureEndpoint.Tls.Peer
import Mathlib.Data.List.Basic

namespace SecureEndpoint.Tls

open Certificate
open Host (Path)

theorem exists_of_bind_ok {ε α β : Type} {x : Except ε α} {f : α → Except ε β} {b : β} (h : x >>= f = .ok b) :
    ∃ a, x = .ok a ∧ f a = .ok b := by
  cases x with
  | error e => cases h
  | ok a => exact ⟨a, rfl, h⟩

theorem exists_of_map_ok {ε α β : Type} {x : Except ε α} {f : α → β} {b : β} (h : x.map f = .ok b) :
    ∃ a, x = .ok a ∧ f a = b := by
  cases x with
  | error e => cases h
  | ok a =>
    cases h
    exact ⟨a, rfl, rfl⟩

namespace Snapshot

/-- what counts of a native context for its peers -/
structure View where
  role : Role
  verify : VerifyMode
  anchors : List Certificate
  directory : Option String

/-- the trust anchors, those of files first -/
def View.trusted (v : View) : List Anchor := v.anchors.map .certificate ++ (v.directory.map .directory).toList

/-- the steps of a native library do what they are for, and nothing else that counts for a peer -/
structure Builder.Faithful {N : Type} (b : Builder N) (see : N → View) : Prop where
  start : ∀ {r n}, b.start r = .ok n → (see n).role = r ∧ (see n).anchors = [] ∧ (see n).directory = none
  setMinVersion : ∀ {n v d}, b.setMinVersion n v = .ok d → see d = see n
  setVerify : ∀ n v, see (b.setVerify n v) = { see n with verify := v }
  addAnchor : ∀ {n c d}, b.addAnchor n c = .ok d → see d = { see n with anchors := (see n).anchors ++ [c] }
  addLookup : ∀ {n d}, b.addLookup n = .ok d → see d = see n
  addDirectory : ∀ {n s d}, (see n).directory = none → b.addDirectory n s = .ok d →
    see d = { see n with directory := some s }
  setCertificate : ∀ {n c d}, b.setCertificate n c = .ok d → see d = see n
  addExtra : ∀ {n c d}, b.addExtra n c = .ok d → see d = see n
  setKey : ∀ {n k d}, b.setKey n k = .ok d → see d = see n
  setSchemes : ∀ {n f d}, b.setSchemes n f = .ok d → see d = see n

/-- what material looks like once it is built -/
def Material.view (m : Material) (role : Role) (required : Bool) : View where
  role := role
  verify := .of role required
  anchors := m.anchors
  directory := m.directory.bind fun p => (directoryText p).toOption

section

variable {N : Type} {b : Builder N} {see : N → View}

theorem see_foldlM {α : Type} {step : N → α → Except TlsError N}
    (keeps : ∀ {n a d}, step n a = .ok d → see d = see n) {as : List α} {n d : N} (h : as.foldlM step n = .ok d) :
    see d = see n := by
  induction as generalizing n with
  | nil =>
    cases h
    rfl
  | cons a as ih =>
    obtain ⟨n', hn', hd⟩ := exists_of_bind_ok h
    exact (ih hd).trans (keeps hn')

theorem see_whenSome {α : Type} {step : N → α → Except TlsError N}
    (keeps : ∀ {n a d}, step n a = .ok d → see d = see n) {a : Option α} {n d : N} (h : whenSome step a n = .ok d) :
    see d = see n := by
  cases a with
  | none =>
    cases h
    rfl
  | some a => exact keeps h

namespace Builder.Faithful

variable (hb : b.Faithful see)

include hb

theorem see_addAnchors {as : List Certificate} {n d : N} (h : as.foldlM b.addAnchor n = .ok d) :
    see d = { see n with anchors := (see n).anchors ++ as } := by
  induction as generalizing n with
  | nil =>
    cases h
    simp
  | cons a as ih =>
    obtain ⟨n', hn', hd⟩ := exists_of_bind_ok h
    rw [ih hd, hb.addAnchor hn']
    simp

theorem see_trustDirectory {p : Option Path} {n d : N} (fresh : (see n).directory = none)
    (h : whenSome b.trustDirectory p n = .ok d) :
    see d = { see n with directory := p.bind fun p => (directoryText p).toOption } := by
  cases p with
  | none =>
    cases h
    rw [Option.bind_none, ← fresh]
  | some p =>
    obtain ⟨s, hs, h⟩ := exists_of_bind_ok h
    obtain ⟨n', hn', hd⟩ := exists_of_bind_ok h
    have same : see n' = see n := hb.addLookup hn'
    rw [hb.addDirectory (by rw [same, fresh]) hd, same, Option.bind_some, hs]
    rfl

theorem see_presentChain {chain : List Certificate} {n d : N} (h : b.presentChain n chain = .ok d) : see d = see n := by
  cases chain with
  | nil =>
    cases h
    rfl
  | cons leaf rest =>
    obtain ⟨n', hn', hd⟩ := exists_of_bind_ok h
    exact (see_foldlM hb.addExtra hd).trans (hb.setCertificate hn')

theorem see_useKey {n d : N} {k : Key.PrivateKey} (h : b.useKey n k = .ok d) : see d = see n := by
  obtain ⟨n', hn', hd⟩ := exists_of_bind_ok h
  exact (see_whenSome hb.setSchemes hd).trans (hb.setKey hn')

/-- a native context looks like the material it was built from -/
theorem see_build {role : Role} {required : Bool} {m : Material} {n : N} (h : b.build role required m = .ok n) :
    see n = m.view role required := by
  obtain ⟨n₁, h₁, h⟩ := exists_of_bind_ok h
  obtain ⟨n₂, h₂, h⟩ := exists_of_bind_ok h
  obtain ⟨n₃, h₃, h⟩ := exists_of_bind_ok h
  obtain ⟨n₄, h₄, h⟩ := exists_of_bind_ok h
  obtain ⟨n₅, h₅, h⟩ := exists_of_bind_ok h
  obtain ⟨start_role, start_anchors, start_directory⟩ := hb.start h₁
  have e₂ : see n₂ = see n₁ := hb.setMinVersion h₂
  have e₃ : see n₃ = { see n₁ with verify := .of role required, anchors := m.anchors } := by
    rw [hb.see_addAnchors h₃, hb.setVerify, e₂, start_anchors, List.nil_append]
  have e₄ := hb.see_trustDirectory (by rw [e₃, start_directory]) h₄
  calc see n
      = see n₅ := see_whenSome hb.see_useKey h
    _ = see n₄ := hb.see_presentChain h₅
    _ = m.view role required := by rw [e₄, e₃, Material.view, ← start_role]

end Builder.Faithful

end

/-! ## The native library that endpoints run with -/

namespace Native

def view (n : Native) : View := ⟨n.role, n.verify, n.anchors, n.directory⟩

theorem faithful : builder.Faithful view where
  start h := by
    cases h
    exact ⟨rfl, rfl, rfl⟩
  setMinVersion h := by
    cases h
    rfl
  setVerify _ _ := rfl
  addAnchor h := by
    cases h
    rfl
  addLookup h := by
    cases h
    rfl
  addDirectory _ h := by
    cases h
    rfl
  setCertificate {n c d} h := by
    simp only [builder, setCertificate] at h
    split at h
    · cases h
    · split at h <;> cases h
      rfl
  addExtra h := by
    cases h
    rfl
  setKey {n k d} h := by
    simp only [builder, setKey] at h
    split at h
    · cases h
    · split at h <;> cases h
      rfl
  setSchemes h := by
    cases h
    rfl

end Native

end Snapshot

end SecureEndpoint.Tls
