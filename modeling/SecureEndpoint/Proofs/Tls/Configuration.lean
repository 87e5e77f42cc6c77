/-
Configuring a context in one go, and what the order of its calls is worth.

Configuring makes four calls on a new context: trust anchor, certificate, key, requirement. No two of them are about the same
kind of thing, and that is all it takes: such calls succeed in every order or in none, and every order that succeeds ends in
the same state. For a context whose handles are snapshots each call is a build of what is there by then, so the order decides
which parts of the material are ever built; but a part of material that can be built can be built (`apply_ok_iff_of_fresh`).
For a context whose handles are live each call succeeds by itself, and what the calls change can be changed in any order
(`put_comm`).

`configure_order_free` is the result for both. It relies on the native library to be `Selective`.
-/
import SecureEndpoint.Proofs.Tls.Selective
import SecureEndpoint.Tls.Configure
import Mathlib.Data.List.Nodup

namespace SecureEndpoint.Tls

open Certificate
open Host (Path Files)

/-! ## Calls of different kinds -/

/-- what a call is about -/
inductive Kind where
  | anchors
  | directory
  | chain
  | key
  | certRequired
  deriving DecidableEq

def Call.kind : Call → Kind
  | .anchorFile _ => .anchors
  | .anchorDirectory _ => .directory
  | .certificateFile _ => .chain
  | .keyFile _ => .key
  | .certRequired _ => .certRequired

section

variable {α β : Type} {pick : α → Option β}

/-- in a list without two things of one kind, there is at most one to pick from a kind -/
theorem pick_once {kind : α → Kind} {k : Kind} (of_kind : ∀ {a}, (pick a).isSome → kind a = k) {xs : List α}
    (apart : (xs.map kind).Nodup) : (xs.filterMap pick).length ≤ 1 :=
  calc (xs.filterMap pick).length
      = xs.countP fun a => (pick a).isSome := List.length_filterMap_eq_countP
    _ ≤ xs.countP fun a => kind a == k := List.countP_mono_left fun a _ h => beq_iff_eq.2 (of_kind h)
    _ = (xs.map kind).count k := by rw [List.count, List.countP_map]; rfl
    _ ≤ 1 := List.nodup_iff_count_le_one.1 apart k

/-- where there is at most one to pick, it is the same in every order -/
theorem last?_perm {xs ys : List α} (h : xs.Perm ys) (once : (xs.filterMap pick).length ≤ 1) :
    last? pick xs = last? pick ys := by
  have picked := h.filterMap pick
  unfold last?
  match hx : xs.filterMap pick with
  | [] => rw [hx] at picked; rw [picked.nil_eq]
  | [b] => rw [hx] at picked; rw [List.singleton_perm.1 picked]
  | _ :: _ :: _ => simp [hx] at once

/-- where there is at most one to pick, it is picked from the beginning or not yet -/
theorem last?_beginning {xs ys : List α} (h : xs <+: ys) (once : (ys.filterMap pick).length ≤ 1) :
    last? pick xs = none ∨ last? pick xs = last? pick ys := by
  obtain ⟨zs, rfl⟩ := h
  unfold last?
  rw [List.filterMap_append] at once ⊢
  match hx : xs.filterMap pick with
  | [] => exact .inl rfl
  | b :: bs =>
    rw [hx, List.length_append, List.length_cons] at once
    have none_after : zs.filterMap pick = [] := List.eq_nil_of_length_eq_zero (by omega)
    exact .inr (by rw [none_after, List.append_nil])

end

section

variable {L : Type} (read : Call → Except TlsError L)

/-- what calls bring, as far as it can be read -/
def brought (xs : List Call) : List L := xs.filterMap fun x => (read x).toOption

/-- a call that can be read and brings nothing that is refused -/
def Readable (check : L → Except TlsError Unit) (x : Call) : Prop := ∃ l, read x = .ok l ∧ check l = .ok ()

variable {read}

theorem brought_cons {x : Call} {l : L} (h : read x = .ok l) (xs : List Call) :
    brought read (x :: xs) = l :: brought read xs := by
  rw [brought, List.filterMap_cons_some (by rw [h]; rfl), brought]

/-- calls of different kinds bring things of different kinds -/
theorem kinds_brought {kind : L → Kind} (of_kind : ∀ {x l}, read x = .ok l → kind l = x.kind) {xs : List Call}
    (apart : (xs.map Call.kind).Nodup) : ((brought read xs).map kind).Nodup := by
  refine apart.sublist ?_
  clear apart
  induction xs with
  | nil => exact .slnil
  | cons x xs ih =>
    cases h : read x with
    | error e =>
      rw [brought, List.filterMap_cons_none (by rw [h]; rfl)]
      exact ih.cons _
    | ok l =>
      rw [brought_cons h, List.map_cons, List.map_cons, of_kind h]
      exact ih.cons_cons _

end

/-! ## Calls one after another -/

section

variable {C : Type} [Endpoint C] {files : Files} {c d : C} {x : Call} {xs : List Call}

theorem apply_cons_ok {events : List Event} (h : attempt files c x = (d, .ok events)) (xs : List Call) :
    (apply files c (x :: xs)).2 = (apply files d xs).2 := by
  rw [apply, h]

theorem apply_cons_error {e : TlsError} (h : attempt files c x = (d, .error e)) (xs : List Call) :
    (apply files c (x :: xs)).2 = .error e := by
  rw [apply, h]

/-- calls of which none failed were all accepted -/
theorem accepted_of_apply (h : (apply files c xs).2 = .ok d) :
    accepted c (xs.map fun x => (files, x)) = xs.map fun x => (files, x) := by
  induction xs generalizing c with
  | nil => rfl
  | cons x xs ih =>
    rcases hx : attempt files c x with ⟨c', e | events⟩
    · rw [apply_cons_error hx] at h
      cases h
    · rw [apply_cons_ok hx] at h
      rw [List.map_cons, accepted_cons_ok hx, ih h]

/-- the error of calls is that of the first that failed -/
theorem failed_of_apply {e : TlsError} (h : (apply files c xs).2 = .error e) :
    ∃ before x after d, xs = before ++ x :: after ∧ (apply files c before).2 = .ok d ∧ (attempt files d x).2 = .error e := by
  induction xs generalizing c with
  | nil => cases h
  | cons x xs ih =>
    rcases hx : attempt files c x with ⟨c', e' | events⟩
    · rw [apply_cons_error hx] at h
      cases h
      exact ⟨[], x, xs, c, rfl, rfl, by rw [hx]⟩
    · rw [apply_cons_ok hx] at h
      obtain ⟨before, y, after, d, rfl, hd, he⟩ := ih h
      exact ⟨x :: before, y, after, d, rfl, by rwa [apply_cons_ok hx], he⟩

variable {role : Role} {anchor certificate key : Path} {required : Bool}

theorem configure_ok_iff : (configure C files role anchor certificate key required).2 = .ok d ↔
    ∃ c : C, Endpoint.fresh role = .ok c ∧
      (apply files c (configureCalls files anchor certificate key required)).2 = .ok d := by
  unfold configure
  cases hc : (Endpoint.fresh role : Except TlsError C) with
  | error e => simp
  | ok c =>
    simp only [Except.ok.injEq, exists_eq_left']
    rcases apply files c (configureCalls files anchor certificate key required) with ⟨events, e | d'⟩ <;> simp

theorem configure_error_iff {e : TlsError} : (configure C files role anchor certificate key required).2 = .error e ↔
    (Endpoint.fresh role : Except TlsError C) = .error e ∨ ∃ c : C, Endpoint.fresh role = .ok c ∧
      (apply files c (configureCalls files anchor certificate key required)).2 = .error e := by
  unfold configure
  cases hc : (Endpoint.fresh role : Except TlsError C) with
  | error e' => simp
  | ok c =>
    simp only [reduceCtorEq, Except.ok.injEq, exists_eq_left', false_or]
    rcases apply files c (configureCalls files anchor certificate key required) with ⟨events, e' | d'⟩ <;> simp

end

/-- no two of the calls that configure a context are about the same -/
theorem configureCalls_apart (files : Files) (anchor certificate key : Path) (required : Bool) :
    ((configureCalls files anchor certificate key required).map Call.kind).Nodup := by
  unfold configureCalls anchorCall
  split <;> simp [Call.kind]

/-! ## A context whose handles are snapshots -/

namespace Snapshot

open Certificate Key

def Load.kind : Load → Kind
  | .anchors _ => .anchors
  | .directory _ => .directory
  | .chain _ => .chain
  | .key _ => .key
  | .certRequired _ => .certRequired

theorem kind_read {files : Files} {x : Call} {l : Load} (h : read files x = .ok l) : l.kind = x.kind := by
  cases x with
  | certRequired b =>
    cases h
    rfl
  | anchorFile p | anchorDirectory p | certificateFile p | keyFile p =>
    obtain ⟨_, -, rfl⟩ := exists_of_map_ok h
    rfl

section

variable {ls ls' : List Load} (apart : (ls.map Load.kind).Nodup)

include apart

theorem anchors_once : (ls.filterMap Load.anchors?).length ≤ 1 :=
  pick_once (k := .anchors) (fun {l} h => by cases l <;> first | rfl | cases h) apart

theorem directory_once : (ls.filterMap Load.directory?).length ≤ 1 :=
  pick_once (k := .directory) (fun {l} h => by cases l <;> first | rfl | cases h) apart

theorem chain_once : (ls.filterMap Load.chain?).length ≤ 1 :=
  pick_once (k := .chain) (fun {l} h => by cases l <;> first | rfl | cases h) apart

theorem key_once : (ls.filterMap Load.key?).length ≤ 1 :=
  pick_once (k := .key) (fun {l} h => by cases l <;> first | rfl | cases h) apart

theorem required_once : (ls.filterMap Load.required?).length ≤ 1 :=
  pick_once (k := .certRequired) (fun {l} h => by cases l <;> first | rfl | cases h) apart

/-- loads of different kinds leave the same in every order -/
theorem Material.after_perm (m : Material) (h : ls.Perm ls') : m.after ls = m.after ls' := by
  unfold Material.after
  rw [last?_perm h (anchors_once apart), last?_perm h (directory_once apart), last?_perm h (chain_once apart),
    last?_perm h (key_once apart)]

/-- the first of some loads of different kinds leave a part of what all of them leave -/
theorem Material.part_after (h : ls' <+: ls) : (({} : Material).after ls').Part (({} : Material).after ls) := by
  unfold Material.after
  constructor
  case anchors => exact (last?_beginning h (anchors_once apart)).imp (by rw [·]; rfl) (by rw [·])
  case directory => exact (last?_beginning h (directory_once apart)).imp (by rw [·]; rfl) (by rw [·])
  case chain => exact (last?_beginning h (chain_once apart)).imp (by rw [·]; rfl) (by rw [·])
  case key => exact (last?_beginning h (key_once apart)).imp (by rw [·]; rfl) (by rw [·])

end

variable {N : Type} {b : Builder N} {Bears : N → Option Certificate → Prop} {Mismatch : Certificate → PrivateKey → Prop}
  {files : Files} {role : Role} {xs ys : List Call}

namespace Context

variable {c d e : Context b}

/-- what calls leave if none of them fails -/
theorem recorded_of_apply (hb : c.Built) (h : (apply files c xs).2 = .ok d) :
    d.role = c.role ∧ d.certRequired = (last? Load.required? (brought (read files) xs)).getD c.certRequired ∧
      d.material = c.material.after (brought (read files) xs) ∧ d.Built := by
  have all : loads c (xs.map fun x => (files, x)) = brought (read files) xs := by
    rw [loads, accepted_of_apply h, List.filterMap_map]
    rfl
  obtain ⟨hrole, hreq, hmat⟩ := history_recorded c (xs.map fun x => (files, x))
  rw [history_of_apply h, all] at hreq hmat
  rw [history_of_apply h] at hrole
  exact ⟨hrole, hreq, hmat, history_of_apply h ▸ built_history hb _⟩

/-- where something was built for a role, everything that is accepted can be built for it -/
theorem Built.ok_iff (selective : b.Selective Bears Mismatch) (hb : c.Built) {required : Bool} {m : Material} :
    (∃ n, b.build c.role required m = .ok n) ↔ b.Accepts Mismatch m := by
  obtain ⟨begins, versioned, -⟩ := selective.build_ok_iff_accepts.1 ⟨_, hb⟩
  exact selective.build_ok_iff_accepts.trans ((and_iff_right begins).trans (and_iff_right versioned))

/-- a call is taken, or it cannot be read, is refused or brings something that is not accepted -/
theorem Built.attempt_outcome (selective : b.Selective Bears Mismatch) (hb : c.Built) (x : Call) :
    (∃ d events l, attempt files c x = (d, .ok events) ∧ (read files x = .ok l ∧ l.check c.role = .ok ()) ∧
        d.role = c.role ∧ d.material = l.into c.material ∧ d.Built) ∨
      (∃ e, attempt files c x = (c, .error e)) ∧ ∀ l, read files x = .ok l → l.check c.role = .ok () →
        ¬b.Accepts Mismatch (l.into c.material) := by
  have hc := called_attempt files c x
  rcases ha : attempt files c x with ⟨d, r⟩
  rw [ha] at hc
  cases hc with
  | unread unread => exact .inr ⟨⟨_, rfl⟩, fun l hl => by cases hl.symm.trans unread⟩
  | @failed l e hl taken =>
    refine .inr ⟨⟨e, rfl⟩, fun l' hl' check' accepts => ?_⟩
    obtain rfl : l' = l := Except.ok.inj (hl'.symm.trans hl)
    cases taken with
    | refused check => cases check'.symm.trans check
    | failed check build =>
      obtain ⟨n, hn⟩ := (hb.ok_iff selective).2 accepts
      cases hn.symm.trans build
  | @done l _ hl taken =>
    exact .inl ⟨d, _, l, rfl, ⟨hl, taken.check⟩, taken.role, taken.recorded.2, taken.keeps_built hb⟩

/-- calls one after another succeed if each of them can be read and everything is accepted that is ever there -/
theorem Built.apply_ok_iff (selective : b.Selective Bears Mismatch) (hb : c.Built) :
    (∃ d, (apply files c xs).2 = .ok d) ↔
      (∀ x ∈ xs, Readable (read files) (Load.check c.role) x) ∧
        ∀ ys, ys <+: xs → b.Accepts Mismatch (c.material.after (brought (read files) ys)) := by
  induction xs generalizing c with
  | nil =>
    refine iff_of_true ⟨c, rfl⟩ ⟨nofun, fun ys h => ?_⟩
    rw [List.prefix_nil.1 h]
    exact (hb.ok_iff selective).1 ⟨_, hb⟩
  | cons x xs ih =>
    obtain ⟨d, events, l, ha, ⟨hl, check⟩, hrole, material, built⟩ | ⟨⟨e, ha⟩, refused⟩ := hb.attempt_outcome selective x
    · have later : ∀ ys, c.material.after (brought (read files) (x :: ys)) = d.material.after (brought (read files) ys) := by
        intro ys
        rw [brought_cons hl, Material.after_cons, material]
      rw [apply_cons_ok ha, ih built, hrole, List.forall_mem_cons]
      constructor
      · rintro ⟨readable, all⟩
        refine ⟨⟨⟨l, hl, check⟩, readable⟩, fun ys hys => ?_⟩
        obtain rfl | ⟨zs, rfl, hzs⟩ := List.prefix_cons_iff.1 hys
        · exact (hb.ok_iff selective).1 ⟨_, hb⟩
        · rw [later]
          exact all zs hzs
      · rintro ⟨⟨-, readable⟩, all⟩
        refine ⟨readable, fun ys hys => ?_⟩
        rw [← later]
        exact all (x :: ys) (by simpa using hys)
    · rw [apply_cons_error ha]
      refine iff_of_false nofun fun ⟨readable, all⟩ => ?_
      obtain ⟨l, hl, check⟩ := readable x List.mem_cons_self
      have first := all [x] (by simp)
      rw [brought_cons hl, Material.after_cons] at first
      exact refused l hl check first

/-- on a new context calls of different kinds succeed if each can be read and everything together is accepted -/
theorem apply_ok_iff_of_fresh (selective : b.Selective Bears Mismatch) (h : fresh role = .ok c)
    (apart : (xs.map Call.kind).Nodup) :
    (∃ d, (apply files c xs).2 = .ok d) ↔ (∀ x ∈ xs, Readable (read files) (Load.check role) x) ∧
      b.Accepts Mismatch (({} : Material).after (brought (read files) xs)) := by
  obtain ⟨built, hrole, -, material⟩ := built_fresh h
  rw [built.apply_ok_iff selective, hrole, material]
  refine and_congr_right fun _ => ⟨fun all => all xs List.prefix_rfl, fun whole ys hys => ?_⟩
  exact whole.of_part (Material.part_after (kinds_brought kind_read apart) (hys.filterMap _))

/-- on a new context calls of different kinds succeed in every order or in none -/
theorem apply_perm (selective : b.Selective Bears Mismatch) (h : fresh role = .ok c) (apart : (xs.map Call.kind).Nodup)
    (perm : xs.Perm ys) : (∃ d, (apply files c xs).2 = .ok d) ↔ ∃ d, (apply files c ys).2 = .ok d := by
  have apart' : (ys.map Call.kind).Nodup := (perm.map _).nodup_iff.1 apart
  rw [apply_ok_iff_of_fresh selective h apart, apply_ok_iff_of_fresh selective h apart',
    Material.after_perm (kinds_brought kind_read apart) _ (perm.filterMap _)]
  exact and_congr_left fun _ => forall_congr' fun x => imp_congr_left perm.mem_iff

/-- the order of calls of different kinds makes no difference to the state that they end in -/
theorem state_perm (hb : c.Built) (apart : (xs.map Call.kind).Nodup) (perm : xs.Perm ys)
    (hd : (apply files c xs).2 = .ok d) (he : (apply files c ys).2 = .ok e) : d.state = e.state := by
  have apart' : ((brought (read files) xs).map Load.kind).Nodup := kinds_brought kind_read apart
  have perm' : (brought (read files) xs).Perm (brought (read files) ys) := perm.filterMap _
  obtain ⟨role_d, req_d, mat_d, built_d⟩ := recorded_of_apply hb hd
  obtain ⟨role_e, req_e, mat_e, built_e⟩ := recorded_of_apply hb he
  have hr : d.certRequired = e.certRequired := by rw [req_d, req_e, last?_perm perm' (required_once apart')]
  have hm : d.material = e.material := by rw [mat_d, mat_e, Material.after_perm apart' _ perm']
  -- both native contexts are the build of the same
  have hn : d.handle = e.handle := by
    unfold Built at built_d
    rw [role_d, hr, hm, ← role_e, built_e] at built_d
    exact (Except.ok.inj built_d).symm
  simp only [state, role_d, role_e, hr, hm, hn]

end Context

end Snapshot

/-! ## A context whose handles are live -/

theorem Shelf.alter_alter {α : Type} (s : Shelf α) (f g : α → α) : (s.alter f).alter g = s.alter (g ∘ f) := by
  simp only [alter, List.modify_modify_eq]

namespace LiveContext

def Load.kind : Load → Kind
  | .anchors _ => .anchors
  | .chain _ => .chain
  | .key _ => .key
  | .certRequired _ => .certRequired

theorem kind_read {files : Files} {x : Call} {l : Load} (h : read files x = .ok l) : l.kind = x.kind := by
  cases x with
  | certRequired b =>
    cases h
    rfl
  | anchorDirectory p => cases h
  | anchorFile p | certificateFile p | keyFile p =>
    obtain ⟨_, -, rfl⟩ := exists_of_map_ok h
    rfl

variable {c d e : LiveContext} {files : Files} {xs ys : List Call}

/-- the signature policy behind a load -/
def Load.policy : Load → SignaturePolicy → SignaturePolicy
  | .key k, p => k.algorithm.family?.elim p p.prefer
  | _, p => p

/-- the requirement behind a load -/
def Load.required : Load → Bool → Bool
  | .certRequired b, _ => b
  | _, old => old

/-- a load changes the requirement, the credentials and the policy, each by itself -/
theorem put_eq (c : LiveContext) (l : Load) : c.put l = { c with
    certRequired := l.required c.certRequired
    managers := c.managers.alter l.into
    policies := c.policies.alter l.policy } := by
  cases l with
  | key k => rfl
  | anchors | chain | certRequired =>
    have kept : c.policies.alter (fun p => p) = c.policies := c.policies.alter_self
    unfold Load.policy
    simp only [kept]
    rfl

/-- loads of different kinds come to the same in either order -/
theorem put_comm (c : LiveContext) {l l' : Load} (apart : l.kind ≠ l'.kind) : (c.put l).put l' = (c.put l').put l := by
  have required : l'.required (l.required c.certRequired) = l.required (l'.required c.certRequired) := by
    cases l <;> cases l' <;> first | rfl | exact absurd rfl apart
  have credentials : l'.into ∘ l.into = l.into ∘ l'.into := by
    cases l <;> cases l' <;> first | rfl | exact absurd rfl apart
  have policy : l'.policy ∘ l.policy = l.policy ∘ l'.policy := by
    cases l <;> cases l' <;> first | rfl | exact absurd rfl apart
  simp only [put_eq, Shelf.alter_alter, required, credentials, policy]

/-- loads of different kinds come to the same in every order -/
theorem foldl_put_perm {ls ls' : List Load} (apart : (ls.map Load.kind).Nodup) (perm : ls.Perm ls') (c : LiveContext) :
    ls.foldl put c = ls'.foldl put c := by
  refine perm.foldl_eq' (fun l hl l' hl' c => ?_) c
  by_cases same : l = l'
  · rw [same]
  · exact c.put_comm fun h => same (List.inj_on_of_nodup_map apart hl hl' h)

/-- calls one after another succeed if each of them can be read and is not refused, and leave what they brought -/
theorem apply_ok_iff (c : LiveContext) : (apply files c xs).2 = .ok d ↔
    (∀ x ∈ xs, Readable (read files) (Load.check c.role) x) ∧ (brought (read files) xs).foldl put c = d := by
  induction xs generalizing c with
  | nil => simp [apply, brought]
  | cons x xs ih =>
    rw [List.forall_mem_cons]
    by_cases hx : Readable (read files) (Load.check c.role) x
    · obtain ⟨l, hl, check⟩ := id hx
      have ha : attempt files c x = (c.put l, .ok (events c.role x l)) := by simp only [attempt_eq, hl, check]
      rw [apply_cons_ok ha, ih, role_put, brought_cons hl, List.foldl_cons, and_iff_right hx]
    · refine iff_of_false (fun h => hx ?_) fun h => hx h.1.1
      rw [Readable]
      rw [apply, attempt_eq] at h
      cases hl : read files x with
      | error e => simp [hl] at h
      | ok l =>
        cases check : l.check c.role with
        | error e => simp [hl, check] at h
        | ok u => exact ⟨l, rfl, check⟩

/-- calls of different kinds succeed in every order or in none, and every order ends in the same context -/
theorem apply_perm (apart : (xs.map Call.kind).Nodup) (perm : xs.Perm ys) :
    (apply files c xs).2 = .ok d ↔ (apply files c ys).2 = .ok d := by
  rw [apply_ok_iff, apply_ok_iff, foldl_put_perm (kinds_brought kind_read apart) (perm.filterMap _)]
  exact and_congr_left fun _ => forall_congr' fun x => imp_congr_left perm.mem_iff

end LiveContext

/-! ## Both kinds of context -/

/-- configuring a context of some kind is all or nothing, whatever the order; `state` is what counts of a context -/
structure OrderFree {C S : Type} [Endpoint C] (state : C → S) (files : Files) (role : Role) (anchor certificate key : Path)
    (required : Bool) : Prop where
  /-- it succeeds if there is a new context and all the calls succeed in their order, and the result is what they leave -/
  ok_iff : ∀ d : C, (configure C files role anchor certificate key required).2 = .ok d ↔
    ∃ c : C, Endpoint.fresh role = .ok c ∧
      (apply files c (configureCalls files anchor certificate key required)).2 = .ok d
  /-- every other order succeeds where this one does -/
  any_order : ∀ c : C, Endpoint.fresh role = .ok c → ∀ xs, xs.Perm (configureCalls files anchor certificate key required) →
    ((∃ d, (apply files c xs).2 = .ok d) ↔ ∃ d, (configure C files role anchor certificate key required).2 = .ok d)
  /-- all orders that succeed end in the same state -/
  same_end : ∀ c : C, Endpoint.fresh role = .ok c → ∀ xs ys,
    xs.Perm (configureCalls files anchor certificate key required) →
    ys.Perm (configureCalls files anchor certificate key required) →
    ∀ d e, (apply files c xs).2 = .ok d → (apply files c ys).2 = .ok e → state d = state e
  /-- the error is that of the first step that failed -/
  first_failure : ∀ e, (configure C files role anchor certificate key required).2 = .error e →
    (Endpoint.fresh role : Except TlsError C) = .error e ∨ ∃ c : C, Endpoint.fresh role = .ok c ∧
      ∃ before x after d, configureCalls files anchor certificate key required = before ++ x :: after ∧
        (apply files c before).2 = .ok d ∧ (attempt files d x).2 = .error e
  /-- a client that does not verify its server is never the result -/
  client : role = .client → required = false → ∀ d, (configure C files role anchor certificate key required).2 ≠ .ok d

section

variable {C S : Type} [Endpoint C] {state : C → S} {files : Files} {role : Role} {anchor certificate key : Path}
  {required : Bool}

/-- what is to be shown of a kind of context -/
theorem OrderFree.of_perm
    (perm : ∀ c : C, Endpoint.fresh role = .ok c → ∀ {xs ys : List Call}, (xs.map Call.kind).Nodup → xs.Perm ys →
      ((∃ d, (apply files c xs).2 = .ok d) ↔ ∃ d, (apply files c ys).2 = .ok d) ∧
        ∀ d e, (apply files c xs).2 = .ok d → (apply files c ys).2 = .ok e → state d = state e)
    (refused : ∀ c : C, Endpoint.fresh role = .ok c → role = .client → ∀ {xs : List Call} {d : C},
      (apply files c xs).2 = .ok d → .certRequired false ∉ xs) :
    OrderFree state files role anchor certificate key required := by
  have apart := configureCalls_apart files anchor certificate key required
  constructor
  case ok_iff => exact fun d => configure_ok_iff
  case any_order =>
    intro c start xs hxs
    rw [(perm c start ((hxs.map _).nodup_iff.2 apart) hxs).1]
    refine exists_congr fun d => ?_
    rw [configure_ok_iff]
    constructor
    · exact fun h => ⟨c, start, h⟩
    · rintro ⟨c', start', h⟩
      cases start.symm.trans start'
      exact h
  case same_end =>
    intro c start xs ys hxs hys
    exact (perm c start ((hxs.map _).nodup_iff.2 apart) (hxs.trans hys.symm)).2
  case first_failure =>
    intro e he
    obtain failed | ⟨c, start, failed⟩ := configure_error_iff.1 he
    · exact .inl failed
    · exact .inr ⟨c, start, failed_of_apply failed⟩
  case client =>
    rintro client rfl d hd
    obtain ⟨c, start, h⟩ := configure_ok_iff.1 hd
    exact refused c start client h (by simp [configureCalls])

end

/-- **Configuring is all or nothing, whatever the order.** Take any native library whose steps fail only on what they are
given, and a key only on the certificate that it is to go with; any role, files, paths and requirement. For a context of
either kind, configuring succeeds if and only if on a new context the four calls succeed one after another, and then they
succeed in each of their orders, with the same state at the end; where it fails, its error is that of the first call that
failed; and a client that does not verify its server is never configured. -/
theorem configure_order_free {N : Type} {b : Snapshot.Builder N} {Bears : N → Option Certificate → Prop}
    {Mismatch : Certificate → Key.PrivateKey → Prop} (selective : b.Selective Bears Mismatch) (files : Files) (role : Role)
    (anchor certificate key : Path) (required : Bool) :
    OrderFree (Snapshot.Context.state (b := b)) files role anchor certificate key required ∧
      OrderFree (fun c : LiveContext => c) files role anchor certificate key required := by
  constructor
  · refine OrderFree.of_perm (fun c start xs ys apart perm => ⟨?_, fun d e hd he => ?_⟩) fun c start client xs d hd asked => ?_
    · exact Snapshot.Context.apply_perm selective start apart perm
    · exact Snapshot.Context.state_perm (Snapshot.Context.built_fresh start).1 apart perm hd he
    · obtain ⟨built, hrole, -⟩ := Snapshot.Context.built_fresh start
      obtain ⟨l, hl, check⟩ := ((built.apply_ok_iff selective).1 ⟨d, hd⟩).1 _ asked
      cases hl
      rw [hrole, client] at check
      cases check
  · refine OrderFree.of_perm (fun c start xs ys apart perm => ⟨?_, fun d e hd he => ?_⟩) fun c start client xs d hd asked => ?_
    · exact exists_congr fun d => LiveContext.apply_perm apart perm
    · rw [LiveContext.apply_perm apart perm, he] at hd
      exact (Except.ok.inj hd).symm
    · obtain ⟨l, hl, check⟩ := ((LiveContext.apply_ok_iff c).1 hd).1 _ asked
      cases hl
      cases start
      rw [client] at check
      cases check

/-- a server with the pair of new, which trusts the old certificate, configured forwards and backwards -/
theorem configure_order_free_backwards :
    let calls : List Call := [.certRequired false, .keyFile (.ofText "new.key"), .certificateFile (.ofText "new.crt"),
      .anchorFile (.ofText "old.crt")]
    (∃ c d e : SnapshotContext, Endpoint.fresh .server = .ok c ∧
      (configure SnapshotContext Snapshot.Context.disk .server (.ofText "old.crt") (.ofText "new.crt") (.ofText "new.key")
        false).2 = .ok d ∧ (apply Snapshot.Context.disk c calls).2 = .ok e ∧ d.state = e.state ∧ d.certRequired = false) ∧
    ∃ c d : LiveContext, Endpoint.fresh .server = .ok c ∧
      (configure LiveContext Snapshot.Context.disk .server (.ofText "old.crt") (.ofText "new.crt") (.ofText "new.key")
        false).2 = .ok d ∧ (apply Snapshot.Context.disk c calls).2 = .ok d := by
  intro calls
  have perm : calls.Perm (configureCalls Snapshot.Context.disk (.ofText "old.crt") (.ofText "new.crt") (.ofText "new.key")
      false) := by decide +kernel
  obtain ⟨snapshot, live⟩ := configure_order_free Snapshot.Native.selective Snapshot.Context.disk .server
    (.ofText "old.crt") (.ofText "new.crt") (.ofText "new.key") false
  constructor
  · obtain ⟨d, hd, hreq⟩ := Snapshot.Context.exists_ok_of_any (f := fun d : SnapshotContext => d.certRequired == false)
      (x := (configure SnapshotContext Snapshot.Context.disk .server (.ofText "old.crt") (.ofText "new.crt")
        (.ofText "new.key") false).2) (by decide +kernel)
    obtain ⟨c, start, forwards⟩ := (snapshot.ok_iff d).1 hd
    obtain ⟨e, backwards⟩ := (snapshot.any_order c start calls perm).2 ⟨d, hd⟩
    exact ⟨c, d, e, start, hd, backwards, snapshot.same_end c start _ _ (.refl _) perm d e forwards backwards,
      beq_iff_eq.1 hreq⟩
  · obtain ⟨d, hd, -⟩ := Snapshot.Context.exists_ok_of_any (f := fun _ : LiveContext => true)
      (x := (configure LiveContext Snapshot.Context.disk .server (.ofText "old.crt") (.ofText "new.crt")
        (.ofText "new.key") false).2) (by decide +kernel)
    obtain ⟨c, start, forwards⟩ := (live.ok_iff d).1 hd
    obtain ⟨e, backwards⟩ := (live.any_order c start calls perm).2 ⟨d, hd⟩
    have same : e = d := live.same_end c start _ _ perm (.refl _) e d backwards forwards
    exact ⟨c, d, start, hd, same ▸ backwards⟩

end SecureEndpoint.Tls
