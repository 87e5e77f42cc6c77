/-
In which order signature schemes are offered.

A policy that was told some preferences goes by the last one, and by RSA if there was none (`preferred_prefers`). What it makes
of a list of supported schemes depends on nothing but which schemes are on it: it picks the allowed ones, each once, first
those of the preferred family, then those of the other one, then Ed25519, each family in the order of its table.
`order_is_stable` says so for every history of preferences. That another preference only changes the order, and that a list
once ordered stays as it is, follows from the same two facts: what is on the list (`mem_order`), and that nothing is on it
twice (`order_nodup`).
-/
import SecureEndpoint.Tls.Signature
import Mathlib.Data.List.Basic
import Mathlib.Data.List.Nodup
import Mathlib.Tactic.Tauto

namespace SecureEndpoint.Tls.SignaturePolicy

/-- a policy that was told these preferences, one after the other -/
def prefers (p : SignaturePolicy) (preferences : List KeyFamily) : SignaturePolicy := preferences.foldl prefer p

/-- the last preference counts -/
theorem preferred_prefers (p : SignaturePolicy) (preferences : List KeyFamily) :
    (p.prefers preferences).preferred = preferences.getLast?.getD p.preferred := by
  induction preferences generalizing p with
  | nil => rfl
  | cons f rest ih =>
    have later : ((p.prefer f).prefers rest).preferred = rest.getLast?.getD f := ih (p.prefer f)
    rw [List.getLast?_cons]
    exact later

/-- every policy allows the same schemes -/
theorem mem_allowed (p : SignaturePolicy) (x : SignatureScheme) :
    x ∈ p.allowed ↔ x ∈ rsaSchemes ∨ x ∈ ecdsaSchemes ∨ x = ed25519Scheme := by
  unfold allowed
  rw [List.mem_append, List.mem_append, List.mem_singleton]
  cases p.preferred with
  | rsa => exact or_assoc
  | ecdsa => exact (or_congr_left or_comm).trans or_assoc

/-- no scheme is in two of the tables, or in one of them twice -/
theorem allowed_nodup (p : SignaturePolicy) : p.allowed.Nodup := by
  unfold allowed
  cases p.preferred <;> decide

theorem mem_order (p : SignaturePolicy) (supported : List SignatureScheme) (x : SignatureScheme) :
    x ∈ p.order supported ↔ x ∈ p.allowed ∧ x ∈ supported := by
  unfold order
  rw [List.mem_filter, List.contains_iff_mem]

theorem order_nodup (p : SignaturePolicy) (supported : List SignatureScheme) : (p.order supported).Nodup :=
  p.allowed_nodup.filter _

/-- lists on which the same allowed schemes are have one order -/
theorem order_congr (p : SignaturePolicy) {supported supported' : List SignatureScheme}
    (same : ∀ x ∈ p.allowed, x ∈ supported ↔ x ∈ supported') : p.order supported = p.order supported' := by
  unfold order
  refine List.filter_congr fun x allowed => ?_
  rw [Bool.eq_iff_iff, List.contains_iff_mem, List.contains_iff_mem]
  exact same x allowed

/-- what was ordered once is in order -/
theorem order_order (p : SignaturePolicy) (supported : List SignatureScheme) :
    p.order (p.order supported) = p.order supported := by
  refine p.order_congr fun x allowed => ?_
  rw [mem_order]
  exact and_iff_right allowed

/-- two policies differ in the order alone -/
theorem order_perm (p q : SignaturePolicy) (supported : List SignatureScheme) :
    (p.order supported).Perm (q.order supported) := by
  rw [List.perm_ext_iff_of_nodup (p.order_nodup supported) (q.order_nodup supported)]
  intro x
  rw [mem_order, mem_order, mem_allowed, mem_allowed]

/-- a list in order is made of three parts, each in the order of its table -/
theorem order_parts (p : SignaturePolicy) (supported : List SignatureScheme) :
    ∃ own others last, p.order supported = own ++ others ++ last ∧ own.Sublist p.preferred.schemes ∧
      others.Sublist p.preferred.other.schemes ∧ last.Sublist [ed25519Scheme] := by
  let common (schemes : List SignatureScheme) := schemes.filter (supported.contains ·)
  have parts : p.order supported =
      common p.preferred.schemes ++ common p.preferred.other.schemes ++ common [ed25519Scheme] := by
    unfold order allowed
    rw [List.filter_append, List.filter_append]
  exact ⟨_, _, _, parts, List.filter_sublist, List.filter_sublist, List.filter_sublist⟩

/-- **The order of the offered schemes.** Take a new policy, tell it any preferences, and give it any list of supported
schemes. A scheme is offered if and only if it is allowed and supported, and once. Which schemes are on the list decides alone,
not where or how often. Those of the family that was preferred last, RSA where none was, come first, then those of the other
one, then Ed25519, each family in the order of its table. A list once ordered stays as it is, and any other preferences give a
permutation of it. -/
theorem order_is_stable (preferences : List KeyFamily) (supported : List SignatureScheme) :
    let p := prefers {} preferences
    let family := preferences.getLast?.getD .rsa
    let offered := p.order supported
    (∀ x, x ∈ offered ↔ (x ∈ rsaSchemes ∨ x ∈ ecdsaSchemes ∨ x = ed25519Scheme) ∧ x ∈ supported) ∧
    offered.Nodup ∧
    (∀ supported', (∀ x, x ∈ supported ↔ x ∈ supported') → p.order supported' = offered) ∧
    (∃ own others last, offered = own ++ others ++ last ∧ own.Sublist family.schemes ∧
      others.Sublist family.other.schemes ∧ last.Sublist [ed25519Scheme]) ∧
    p.order offered = offered ∧
    ∀ preferences', (order (prefers {} preferences') supported).Perm offered := by
  intro p family offered
  have preferred : p.preferred = family := preferred_prefers {} preferences
  refine ⟨fun x => ?_, p.order_nodup supported, fun supported' same => ?_, ?_, p.order_order supported,
    fun preferences' => order_perm _ p supported⟩
  · rw [← p.mem_allowed]
    exact p.mem_order supported x
  · exact p.order_congr fun x _ => (same x).symm
  · rw [← preferred]
    exact p.order_parts supported

/-- schemes of both families, one of them twice, Ed25519 in between, and one that is not allowed -/
theorem order_is_stable_mixed :
    let p := prefers {} [.rsa, .ecdsa]
    (∀ x : SignatureScheme, x ∈ [0x0401, 0x0807, 0x0503, 0x0808, 0x0401] ↔ x ∈ [0x0808, 0x0503, 0x0401, 0x0807]) ∧
      p.order [0x0401, 0x0807, 0x0503, 0x0808, 0x0401] = [0x0503, 0x0401, 0x0807] ∧
      p.order [0x0808, 0x0503, 0x0401, 0x0807] = [0x0503, 0x0401, 0x0807] := by
  intro p
  have same (x : SignatureScheme) :
      x ∈ [0x0401, 0x0807, 0x0503, 0x0808, 0x0401] ↔ x ∈ [0x0808, 0x0503, 0x0401, 0x0807] := by
    simp only [List.mem_cons, List.not_mem_nil, or_false]
    tauto
  have offered : p.order [0x0401, 0x0807, 0x0503, 0x0808, 0x0401] = [0x0503, 0x0401, 0x0807] := by decide
  obtain ⟨-, -, other, -⟩ := order_is_stable [.rsa, .ecdsa] [0x0401, 0x0807, 0x0503, 0x0808, 0x0401]
  exact ⟨same, offered, (other _ same).trans offered⟩

end SecureEndpoint.Tls.SignaturePolicy
