/-
Nothing but an explicit setting turns the verification of peers off.

Settings are read from a document. Which documents are read, and what of them, is said by the grammar alone: the settings are
a record of four fields (`ofJson_iff`), whose members may come in any order and among others of any names, or an array of the
four. The requirement is a flag that is true by default, so it is false where the document gives it exactly one value, and
that value is false (`waived_iff`).
- `verification_is_explicit`: for every document that is read, no certificate is required if and only if it says so in one of
  these two ways; the order of its members and other members do not matter; settings without all three paths configure
  nothing, whatever is in the files; and no client is ever configured that does not verify its server.
-/
import SecureEndpoint.Proofs.Json.Records
import SecureEndpoint.Proofs.Tls.Configuration

namespace SecureEndpoint.Tls

open Json (Bytes Field IsObject IsArray bytesOf valuesOf)
open Host (Path Files)

/-! ## What settings are read -/

namespace TlsSettings

/-- the field of the requirement -/
def requirement : Field := ⟨"cert-required", .flag, some (.flag true)⟩

theorem shape_plain : shape.Plain where
  distinct := by decide +kernel
  kinds := by simp [shape]

theorem ofJson_iff {text : String} {t : TlsSettings} :
    ofJson text = .ok t ↔ ∃ xs, shape.read (bytesOf text) = .ok xs ∧ ofScalars? xs = some t := by
  unfold ofJson Json.Shape.parse bytesOf
  cases hread : shape.read text.toUTF8.toList with
  | error e => simp only [hread, Except.mapError, reduceCtorEq, false_and, exists_const]
  | ok xs =>
    simp only [hread, Except.mapError, Except.ok.injEq, exists_eq_left']
    cases hxs : ofScalars? xs <;> simp

/-- the requirement is the last of the values -/
theorem certRequired_iff {xs : List Json.Scalar} {t : TlsSettings} (h : ofScalars? xs = some t) :
    ∃ x : Json.Scalar, xs[3]? = some x ∧ (t.certRequired = false ↔ x = .flag false) := by
  unfold ofScalars? at h
  split at h
  · cases h
    exact ⟨_, rfl, by simp⟩
  · cases h

/-- a requirement is waived by exactly one value, which is false -/
theorem waived_iff {vs : List Bytes} {x : Json.Scalar} (h : requirement.Gets none vs x) :
    x = .flag false ↔ vs = [bytesOf "false"] := by
  have hfalse : bytesOf "false" = 102 :: Json.falseTail := by decide +kernel
  rw [hfalse]
  cases h with
  | absent h =>
    cases h
    simp
  | value h =>
    cases h with
    | true => simp [Json.trueTail, Json.falseTail]
    | false => simp

end TlsSettings

/-! ## What is configured from settings -/

namespace Snapshot.Context

variable {N : Type} {b : Builder N} {c d : Context b} {files : Files} {xs : List Call}

/-- of calls that succeed one after another each can be read and is not refused -/
theorem readable_of_apply (h : (apply files c xs).2 = .ok d) :
    ∀ x ∈ xs, Readable (read files) (Load.check c.role) x := by
  induction xs generalizing c with
  | nil => nofun
  | cons x xs ih =>
    have called := called_attempt files c x
    rcases hx : attempt files c x with ⟨c', r⟩
    rw [hx] at called
    cases called with
    | unread read | failed read taken =>
      rw [apply_cons_error hx] at h
      cases h
    | @done l _ read taken =>
      rw [apply_cons_ok hx] at h
      exact List.forall_mem_cons.2 ⟨⟨l, read, taken.check⟩, taken.role ▸ ih h⟩

end Snapshot.Context

section

variable {C : Type} [Endpoint C]

/-- a client is not configured without verification, if calls do not succeed among which it is given up -/
theorem not_configured {t : TlsSettings} (h : t.certRequired = false) (files : Files)
    (refused : ∀ {c d : C} {xs : List Call}, Endpoint.fresh .client = .ok c → (apply files c xs).2 = .ok d →
      .certRequired false ∉ xs) (d : C) : (configureFrom C files .client t).2 ≠ .ok d := by
  intro hd
  unfold configureFrom at hd
  split at hd
  · cases hd
  · obtain ⟨c, start, happly⟩ := configure_ok_iff.1 hd
    exact refused start happly (by simp [configureCalls, h])

end

/-- no client is configured that does not verify its server, whatever stands behind its context -/
theorem client_verifies {N : Type} {b : Snapshot.Builder N} {t : TlsSettings} (h : t.certRequired = false) (files : Files) :
    (∀ d : Snapshot.Context b, (configureFrom (Snapshot.Context b) files .client t).2 ≠ .ok d) ∧
      ∀ d : LiveContext, (configureFrom LiveContext files .client t).2 ≠ .ok d := by
  constructor
  · refine not_configured h files fun {c d xs} start happly asked => ?_
    obtain ⟨l, hl, check⟩ := Snapshot.Context.readable_of_apply happly _ asked
    cases hl
    rw [(Snapshot.Context.built_fresh start).2.1] at check
    cases check
  · refine not_configured h files fun {c d xs} start happly asked => ?_
    obtain ⟨l, hl, check⟩ := ((LiveContext.apply_ok_iff c).1 happly).1 _ asked
    cases hl
    cases start
    cases check

/-- settings that lack a path configure nothing, and nothing is done -/
theorem configureFrom_incomplete {t : TlsSettings} (h : t.trustAnchor = none ∨ t.certFile = none ∨ t.keyFile = none) :
    ∃ message, ∀ (C : Type) [Endpoint C] (files : Files) (role : Role),
      configureFrom C files role t = ([], .error (.badValue message)) := by
  have hpaths : ∃ message, t.paths = .error (.badValue message) := by
    unfold TlsSettings.paths
    split
    · simp_all
    · exact ⟨_, rfl⟩
  obtain ⟨message, hpaths⟩ := hpaths
  refine ⟨message, fun C _ files role => ?_⟩
  rw [configureFrom, hpaths]

/-! ## The result -/

/-- what a document says about verification is all that counts for the settings that are read from it -/
structure Explicit (text : String) (t : TlsSettings) : Prop where
  /-- nothing else than an object or an array is read -/
  form : (∃ ms, IsObject ms (bytesOf text)) ∨ ∃ vs, IsArray vs (bytesOf text)
  /-- an object waives the requirement by exactly one member of its name, with the value false -/
  object : ∀ ms, IsObject ms (bytesOf text) →
    (t.certRequired = false ↔ valuesOf (bytesOf "cert-required") ms = [bytesOf "false"])
  /-- an array waives it by its fourth element -/
  array : ∀ vs, IsArray vs (bytesOf text) → (t.certRequired = false ↔ vs[3]? = some (bytesOf "false"))
  /-- every other object with the same members of known names, in whatever order, is read as the same -/
  order : ∀ ms, IsObject ms (bytesOf text) → ∀ text' ms', IsObject ms' (bytesOf text') →
    (ms.filter TlsSettings.shape.knows).Perm (ms'.filter TlsSettings.shape.knows) → TlsSettings.ofJson text' = .ok t

theorem explicit_of_ofJson {text : String} {t : TlsSettings} (h : TlsSettings.ofJson text = .ok t) : Explicit text t := by
  obtain ⟨xs, hread, ht⟩ := TlsSettings.ofJson_iff.1 h
  have plain := TlsSettings.shape_plain
  obtain ⟨x, hx, hrequired⟩ := TlsSettings.certRequired_iff ht
  have hfield : TlsSettings.shape.fields[3]? = some TlsSettings.requirement := rfl
  constructor
  case form => exact Json.Shape.read_sound plain hread
  case object =>
    intro ms hs
    have hgets := ((Json.Shape.read_object plain hs).1 hread).gets hfield hx
    exact hrequired.trans (TlsSettings.waived_iff hgets)
  case array =>
    intro vs hs
    have hgets := ((Json.Shape.read_array plain hs).1 hread).gets hfield hx
    refine hrequired.trans ((TlsSettings.waived_iff hgets).trans ?_)
    cases vs[3]? <;> simp
  case order =>
    intro ms hs text' ms' hs' hperm
    exact TlsSettings.ofJson_iff.2 ⟨xs, Json.Shape.read_perm plain hs hs' hperm hread, ht⟩

/-- **Only an explicit setting turns verification off.** Take settings that were read from any text. No certificate is
required of a peer if and only if the text is an object with exactly one member of that name, however it is spelled, and
with the value false, or an array with false in the fourth place. The order of members does not matter, and neither do
members of unknown names. If a path is missing, configuring any context from the settings fails in the same way whatever is
in the files, with nothing done; and if no certificate is required, no client is ever configured. -/
theorem verification_is_explicit {N : Type} (b : Snapshot.Builder N) {text : String} {t : TlsSettings}
    (h : TlsSettings.ofJson text = .ok t) :
    Explicit text t ∧
      (t.trustAnchor = none ∨ t.certFile = none ∨ t.keyFile = none →
        ∃ message, ∀ (C : Type) [Endpoint C] (files : Files) (role : Role),
          configureFrom C files role t = ([], .error (.badValue message))) ∧
      (t.certRequired = false → ∀ files : Files,
        (∀ d : Snapshot.Context b, (configureFrom (Snapshot.Context b) files .client t).2 ≠ .ok d) ∧
          ∀ d : LiveContext, (configureFrom LiveContext files .client t).2 ≠ .ok d) :=
  ⟨explicit_of_ofJson h, configureFrom_incomplete, client_verifies⟩

/-- a member whose name has no escapes, without blanks -/
theorem isMember_plain {k v : Bytes} (hk : ∀ b ∈ k, Json.isPlain b) (hv : Json.Written .value v) :
    Json.IsMember ⟨k, v⟩ (34 :: (k ++ 34 :: 58 :: v)) := by
  have blank : Json.Blank [] := nofun
  exact .pair blank (Json.spells_plain hk) blank blank hv

/-- the requirement is waived and no path is given; a member of an unknown name changes nothing -/
theorem verification_is_explicit_reordered :
    let text := "\x7b\"key-file\":null,\"cert-required\":false\x7d"
    let reordered := "\x7b\"cert-required\":false,\"Cert-Required\":true,\"key-file\":null\x7d"
    ∃ t, TlsSettings.ofJson text = .ok t ∧ t.certRequired = false ∧ TlsSettings.ofJson reordered = .ok t ∧
      ∃ message, configureFrom LiveContext {} .server t = ([], .error (.badValue message)) := by
  intro text reordered
  obtain ⟨t, ht, hgiven⟩ := Snapshot.Context.exists_ok_of_any
    (f := fun t : TlsSettings => !t.certRequired && t.trustAnchor.isNone) (x := TlsSettings.ofJson text) (by decide +kernel)
  obtain ⟨explicit, incomplete, -⟩ := verification_is_explicit Snapshot.Native.builder ht
  simp only [Bool.and_eq_true, Bool.not_eq_true', Option.isNone_iff_eq_none] at hgiven
  obtain ⟨message, hmessage⟩ := incomplete (.inl hgiven.2)
  have hkey := isMember_plain (k := bytesOf "key-file") (by decide +kernel) (.scalar .null)
  have hrequired := isMember_plain (k := bytesOf "cert-required") (by decide +kernel) (.scalar .false)
  have hother := isMember_plain (k := bytesOf "Cert-Required") (by decide +kernel) (.scalar .true)
  have blank : Json.Blank [] := nofun
  have hcomma : Json.Separator false [44] := .comma blank
  have hend : Json.Items Json.IsMember false [] [] := .done blank
  have htext := Eq.subst (motive := IsObject _) (b := bytesOf text) (by decide +kernel)
    (Json.IsDocument.frame (f := .object) blank (.more .none hkey (.more hcomma hrequired hend)) blank)
  have hreordered := Eq.subst (motive := IsObject _) (b := bytesOf reordered) (by decide +kernel)
    (Json.IsDocument.frame (f := .object) blank
      (.more .none hrequired (.more hcomma hother (.more hcomma hkey hend))) blank)
  exact ⟨t, ht, hgiven.1, explicit.order _ htext _ _ hreordered (by decide +kernel), message, hmessage _ _ _⟩

end SecureEndpoint.Tls
