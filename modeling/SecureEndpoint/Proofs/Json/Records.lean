/-
Reading a record from a document, against the grammar.

A document gives a record as an object or as an array (`IsObject`, `IsArray`): items in a frame, with commas between them.
The reader takes the items one by one, so what it has yet to read is the rest of them, in front of which a comma may be due
(`Items`).
- `read_object`, `read_array`: a document that is one of these is read as its members fill the fields, or as its elements are
  a row of them.
- `read_sound`: whatever is read is one of these.
- `read_perm`: neither the order of the members nor members of unknown names matter.
-/
import Mathlib.Data.List.Forall2
import Mathlib.Data.List.TakeWhile
import SecureEndpoint.Proofs.Json.Fields

namespace SecureEndpoint.Json

/-! ## Documents of one frame -/

/-- what stands in front of an item of a frame: a comma, if it is not the first -/
inductive Separator : Bool → Bytes → Prop
  | none : Separator true []
  | comma {w} (hw : Blank w) : Separator false (w ++ [44])

/-- the items still to come in a frame, up to where it closes -/
inductive Items {α : Type} (Item : α → Bytes → Prop) : Bool → List α → Bytes → Prop
  | done {first w} (hw : Blank w) : Items Item first [] w
  | more {first c a s as t} (hc : Separator first c) (hs : Item a s) (ht : Items Item false as t) :
      Items Item first (a :: as) (c ++ (s ++ t))

/-- how a member may be written -/
inductive IsMember : Member → Bytes → Prop
  | pair {w k n w₁ w₂ v} (hw : Blank w) (hk : Spells k n) (hw₁ : Blank w₁) (hw₂ : Blank w₂) (hv : Written .value v) :
      IsMember ⟨n, v⟩ (w ++ 34 :: (k ++ 34 :: (w₁ ++ 58 :: (w₂ ++ v))))

/-- how an element may be written -/
inductive IsElement : Bytes → Bytes → Prop
  | value {w v} (hw : Blank w) (hv : Written .value v) : IsElement v (w ++ v)

/-- a whole document that is a frame with these items -/
inductive IsDocument {α : Type} (f : Frame) (Item : α → Bytes → Prop) (items : List α) : Bytes → Prop
  | frame {w t u} (hw : Blank w) (ht : Items Item true items t) (hu : Blank u) :
      IsDocument f Item items (w ++ f.opening :: (t ++ f.closing :: u))

/-- a document that is an object with these members -/
abbrev IsObject (ms : List Member) (s : Bytes) : Prop := IsDocument .object IsMember ms s

/-- a document that is an array with these elements -/
abbrev IsArray (vs : List Bytes) (s : Bytes) : Prop := IsDocument .list IsElement vs s

/-- behind a value of a frame the items go on or the frame closes -/
theorem Items.ends {α : Type} {Item : α → Bytes → Prop} {items : List α} {t : Bytes} (h : Items Item false items t)
    (f : Frame) (r : Bytes) : Ends (t ++ f.closing :: r) := by
  cases h with
  | done hw => exact (f.ends r).blank hw
  | more hc hs ht =>
    cases hc with
    | comma hw =>
      simp only [List.append_assoc, List.singleton_append]
      exact (ends_comma _).blank hw

theorem Frame.close_iff {f : Frame} {s r : Bytes} : f.close s = (r, none) ↔ skipBlanks s = f.closing :: r := by
  unfold Frame.close
  split
  · rename_i h
    simp [h]
  · rename_i b rest h
    rw [h]
    split
    · simp [*]
    · rename_i hb
      split
      · cases f <;> simp [hb]
      · simp [hb]

theorem Frame.finish_iff {α : Type} {f : Frame} {x : Except Stop (α × Bytes)} {a : α} {r : Bytes} :
    f.finish x = .ok (a, r) ↔ ∃ s, x = .ok (a, s) ∧ skipBlanks s = f.closing :: r := by
  unfold Frame.finish
  split
  · simp
  · simp
  · rename_i b rest
    split
    · rename_i h
      simp only [reduceCtorEq, Except.ok.injEq, Prod.mk.injEq, false_iff]
      rintro ⟨_, ⟨rfl, rfl⟩, hclose⟩
      cases h.symm.trans (close_iff.2 hclose)
    · rename_i h
      simp only [Except.ok.injEq, Prod.mk.injEq]
      constructor
      · rintro ⟨rfl, rfl⟩
        exact ⟨rest, ⟨rfl, rfl⟩, close_iff.1 h⟩
      · rintro ⟨_, ⟨rfl, rfl⟩, hclose⟩
        cases h.symm.trans (close_iff.2 hclose)
        exact ⟨rfl, rfl⟩

theorem Frame.skipBlanks_closing (f : Frame) {w : Bytes} (hw : Blank w) (r : Bytes) :
    skipBlanks (w ++ f.closing :: r) = f.closing :: r := by
  rw [skipBlanks_append hw, skipBlanks_cons (by cases f <;> rfl)]

theorem Separator.skipBlanks {c : Bytes} (h : Separator false c) (r : Bytes) : Json.skipBlanks (c ++ r) = 44 :: r := by
  cases h with
  | comma hw =>
    rw [List.append_assoc, skipBlanks_append hw]
    rfl

/-! ## Objects -/

/-- what is done with each element succeeds, if all of it does -/
theorem mapM_iff {α β ε : Type} {g : α → Except ε β} {as : List α} {bs : List β} :
    as.mapM g = .ok bs ↔ List.Forall₂ (fun a b => g a = .ok b) as bs := by
  induction as generalizing bs with
  | nil => simp [pure, Except.pure, eq_comm]
  | cons a as ih =>
    rw [List.mapM_cons]
    cases ha : g a with
    | error e => simp [bind, Except.bind, List.forall₂_cons_left_iff, ha]
    | ok b =>
      cases has : as.mapM g with
      | error e => simp [bind, Except.bind, List.forall₂_cons_left_iff, ha, ← ih, has]
      | ok bs' => simp [bind, Except.bind, pure, Except.pure, List.forall₂_cons_left_iff, ha, ← ih, has, eq_comm]

namespace Shape

theorem nextName_done (first : Bool) {w : Bytes} (hw : Blank w) (r : Bytes) :
    nextName first (w ++ 125 :: r) = .ok none := by
  rw [nextName, show skipBlanks (w ++ 125 :: r) = 125 :: r from Frame.object.skipBlanks_closing hw r]
  rfl

theorem nextName_more {first : Bool} {c w k n : Bytes} (hc : Separator first c) (hw : Blank w) (hk : Spells k n)
    (r : Bytes) : nextName first (c ++ (w ++ 34 :: (k ++ 34 :: r))) = .ok (some (n, r)) := by
  have hread := hk.read r []
  have hquote : skipBlanks (w ++ 34 :: (k ++ 34 :: r)) = 34 :: (k ++ 34 :: r) := by
    rw [skipBlanks_append hw]
    rfl
  cases first with
  | true =>
    cases hc
    rw [nextName, List.nil_append, hquote]
    simp [hread, Except.map]
  | false =>
    rw [nextName, hc.skipBlanks]
    simp [hquote, hread, Except.map]

theorem nextName_none {first : Bool} {s : Bytes} (h : nextName first s = .ok none) :
    ∃ r, skipBlanks s = 125 :: r := by
  unfold nextName at h
  split at h
  · cases h
  · rename_i b rest hs
    split at h
    · rename_i hb
      exact ⟨rest, by rw [hs, hb]⟩
    split at h
    · cases h
    split at h
    · cases h
    split at h
    · obtain ⟨a, -, ha⟩ := map_eq_ok h
      cases ha
    · split at h <;> cases h

theorem nextName_sound {first : Bool} {s n r : Bytes} (h : nextName first s = .ok (some (n, r))) :
    ∃ c w k, s = c ++ (w ++ 34 :: (k ++ 34 :: r)) ∧ Separator first c ∧ Blank w ∧ Spells k n := by
  unfold nextName at h
  split at h
  · cases h
  rename_i b rest hfront
  obtain ⟨w, hs, hw⟩ := skipBlanks_sound s
  rw [hfront] at hs
  split at h
  · cases h
  split at h
  · cases h
  rename_i hcomma
  split at h
  · cases h
  rename_i d after hd
  split at h
  · rename_i hquote
    obtain ⟨⟨n', r'⟩, hread, he⟩ := map_eq_ok h
    cases he
    obtain ⟨k, _, rfl, hk, rfl⟩ := stringTail_sound hread
    subst hquote
    cases first with
    | true =>
      simp only [if_true] at hd
      exact ⟨[], w, k, by rw [hs, hd]; rfl, .none, hw, by simpa using hk⟩
    | false =>
      obtain ⟨w', hs', hw'⟩ := skipBlanks_sound rest
      simp only [Bool.not_false, Bool.true_and, decide_eq_true_eq, Decidable.not_not, ne_eq] at hcomma
      simp only [if_false, Bool.false_eq_true] at hd
      exact ⟨w ++ [44], w', k, by rw [hs, hs', hd, hcomma]; simp, .comma hw, hw', by simpa using hk⟩
  · split at h <;> cases h

/-- the fields that were not given get their defaults -/
theorem fill_iff {shape : Shape} {given : Given} (hlength : given.length = shape.fields.length) {xs : List Scalar} :
    shape.fill given = .ok xs ↔ shape.Fills given [] xs := by
  rw [fill, mapM_iff, List.forall₂_iff_get]
  constructor
  · rintro ⟨hxs, h⟩
    rw [List.length_zip, hlength, Nat.min_self] at hxs
    refine ⟨hxs.symm, fun {i f x} hf hx => ?_⟩
    obtain ⟨hi, rfl⟩ := List.getElem?_eq_some_iff.1 hf
    obtain ⟨hix, rfl⟩ := List.getElem?_eq_some_iff.1 hx
    have hgiven : given[i]? = some given[i] := List.getElem?_eq_getElem (hlength ▸ hi)
    have hget := h i (by simpa [hlength] using hi) hix
    simp only [List.get_eq_getElem, List.getElem_zip] at hget
    rw [hgiven, Option.getD_some, valuesOf_nil]
    split at hget
    · rename_i hbefore
      cases hget
      rw [hbefore]
      exact .before
    · rename_i hbefore hdefault
      cases hget
      rw [hbefore]
      exact .absent hdefault
    · cases hget
  · intro h
    refine ⟨by rw [List.length_zip, hlength, Nat.min_self, h.length], fun i hi hix => ?_⟩
    rw [List.length_zip, hlength, Nat.min_self] at hi
    have hgets := h.gets (List.getElem?_eq_getElem hi) (List.getElem?_eq_getElem hix)
    rw [List.getElem?_eq_getElem (hlength ▸ hi), Option.getD_some, valuesOf_nil] at hgets
    simp only [List.get_eq_getElem, List.getElem_zip]
    generalize given[i] = before at hgets
    cases hgets with
    | absent hdefault => rw [hdefault]
    | before => rfl

variable {shape : Shape} {given : Given} {first : Bool} {s rest name : Bytes}

theorem members_done (h : nextName first s = .ok none) {xs : List Scalar} {t : Bytes} :
    shape.members given first s = .ok (xs, t) ↔ shape.fill given = .ok xs ∧ t = skipBlanks s := by
  rw [members]
  split
  · rename_i he
    cases h.symm.trans he
  · split
    · rename_i hfill
      simp [hfill, eq_comm]
    · rename_i hfill
      simp [hfill]
  · rename_i he
    cases h.symm.trans he

theorem members_more (h : nextName first s = .ok (some (name, rest))) {xs : List Scalar} {t : Bytes} :
    shape.members given first s = .ok (xs, t) ↔ shape.duplicate? given name = none ∧
      ∃ given' after, shape.member given name rest = .ok (given', after) ∧
        shape.members given' false after = .ok (xs, t) := by
  conv => lhs; rw [members]
  split
  · rename_i he
    cases h.symm.trans he
  · rename_i he
    cases h.symm.trans he
  · rename_i he
    cases h.symm.trans he
    split
    · simp [*]
    · split <;> simp [*]

/-- a member of a known name is taken once -/
theorem member_known (hp : shape.Plain) {f : Field} {i : Nat} (hlookup : shape.lookup? name = some (f, i))
    {w₁ w₂ v r : Bytes} (hw₁ : Blank w₁) (hw₂ : Blank w₂) (hv : Written .value v) (hr : Ends r) {given' : Given}
    {after : Bytes} : shape.member given name (w₁ ++ 58 :: (w₂ ++ (v ++ r))) = .ok (given', after) ↔
      after = r ∧ ∃ x, Stands f.kind v x ∧ given' = given.set i (some x) := by
  have hkind : f.kind ≠ .count := hp.kinds f (List.mem_of_getElem? (lookup_some hlookup).1)
  simp only [member, colon_append hw₁, hlookup]
  constructor
  · intro h
    obtain ⟨⟨x, after'⟩, hread, he⟩ := map_eq_ok h
    cases he
    obtain ⟨rfl, hstands⟩ := (Kind.read_iff hkind hw₂ hv hr).1 hread
    exact ⟨rfl, x, hstands, rfl⟩
  · rintro ⟨rfl, x, hstands, rfl⟩
    rw [(Kind.read_iff hkind hw₂ hv hr).2 ⟨rfl, hstands⟩]
    rfl

/-- a member of an unknown name is passed over -/
theorem member_unknown (hlookup : shape.lookup? name = none) {w₁ w₂ v r : Bytes} (hw₁ : Blank w₁) (hw₂ : Blank w₂)
    (hv : Written .value v) (hr : Ends r) :
    shape.member given name (w₁ ++ 58 :: (w₂ ++ (v ++ r))) = .ok (given, r) := by
  simp only [member, colon_append hw₁, hlookup, skipValue_append hw₂ hv hr]
  rfl

/-- the members still to come are read if they fill the fields with what was given before -/
theorem members_iff (hp : shape.Plain) (hlength : given.length = shape.fields.length) {ms : List Member} {t : Bytes}
    (ht : Items IsMember first ms t) (r : Bytes) {xs : List Scalar} {u : Bytes} :
    shape.members given first (t ++ 125 :: r) = .ok (xs, u) ↔ u = 125 :: r ∧ shape.Fills given ms xs := by
  induction ht generalizing given with
  | done hw =>
    rw [members_done (nextName_done _ hw r), fill_iff hlength, and_comm]
    rw [show skipBlanks (_ ++ 125 :: r) = 125 :: r from Frame.object.skipBlanks_closing hw r]
  | @more first c m s ms t hc hm ht ih =>
    cases hm with
    | @pair w k n w₁ w₂ v hw hk hw₁ hw₂ hv =>
      have hr : Ends (t ++ 125 :: r) := ht.ends .object r
      simp only [List.append_assoc, List.cons_append]
      rw [members_more (nextName_more hc hw hk _)]
      -- a member of an unknown name is passed over; one of a known name is refused if it was given before
      cases hlookup : shape.lookup? n with
      | none =>
        simp [duplicate?, hlookup, member_unknown hlookup hw₁ hw₂ hv hr, fills_unknown (m := ⟨n, v⟩) hlookup, ih hlength]
      | some p =>
        obtain ⟨f, i⟩ := p
        have hfresh : shape.duplicate? given n = none ↔ given[i]?.getD none = none := by simp [duplicate?, hlookup]
        have hset : ∀ x, (given.set i (some x)).length = shape.fields.length := fun x => by rw [List.length_set, hlength]
        rw [fills_known hp (m := ⟨n, v⟩) hlookup hlength, hfresh]
        simp only [member_known hp hlookup hw₁ hw₂ hv hr]
        constructor
        · rintro ⟨hnone, _, _, ⟨rfl, x, hstands, rfl⟩, hread⟩
          obtain ⟨rfl, hfills⟩ := (ih (hset x)).1 hread
          exact ⟨rfl, hnone, x, hstands, hfills⟩
        · rintro ⟨rfl, hnone, x, hstands, hfills⟩
          exact ⟨hnone, _, _, ⟨rfl, x, hstands, rfl⟩, (ih (hset x)).2 ⟨rfl, hfills⟩⟩

theorem member_sound (hp : shape.Plain) {given' : Given} {after : Bytes}
    (h : shape.member given name s = .ok (given', after)) :
    ∃ w₁ w₂ v, s = w₁ ++ 58 :: (w₂ ++ (v ++ after)) ∧ Blank w₁ ∧ Blank w₂ ∧ Written .value v := by
  unfold member at h
  split at h
  · cases h
  rename_i s' hcolon
  obtain ⟨w₁, rfl, hw₁⟩ := colon_sound hcolon
  split at h
  · obtain ⟨_, hskip, he⟩ := map_eq_ok h
    cases he
    obtain ⟨w₂, v, rfl, hw₂, hv⟩ := skipValue_sound hskip
    exact ⟨w₁, w₂, v, rfl, hw₁, hw₂, hv⟩
  · rename_i f i hlookup
    obtain ⟨⟨x, _⟩, hread, he⟩ := map_eq_ok h
    cases he
    have hkind : f.kind ≠ .count := hp.kinds f (List.mem_of_getElem? (lookup_some hlookup).1)
    obtain ⟨w₂, v, rfl, hw₂, hstands⟩ := Kind.read_sound hkind hread
    exact ⟨w₁, w₂, v, rfl, hw₁, hw₂, hstands.written⟩

theorem members_sound (hp : shape.Plain) {xs : List Scalar} {u : Bytes}
    (h : shape.members given first s = .ok (xs, u)) :
    ∃ ms t r, s = t ++ 125 :: r ∧ Items IsMember first ms t := by
  fun_induction shape.members given first s with
  | case1 => cases h
  | case2 given first s hnone vs hfill =>
    obtain ⟨w, hs, hw⟩ := skipBlanks_sound s
    obtain ⟨r, hr⟩ := nextName_none hnone
    exact ⟨[], w, r, by rw [hs, hr], .done hw⟩
  | case3 => cases h
  | case4 => cases h
  | case5 => cases h
  | case6 given first s name rest hname _ given' after hmember _ _ ih =>
    obtain ⟨ms, t, r, rfl, ht⟩ := ih h
    obtain ⟨c, w, k, rfl, hc, hw, hk⟩ := nextName_sound hname
    obtain ⟨w₁, w₂, v, rfl, hw₁, hw₂, hv⟩ := member_sound hp hmember
    exact ⟨⟨name, v⟩ :: ms, _, r, by simp, .more hc (.pair hw hk hw₁ hw₂ hv) ht⟩

/-! ## Arrays -/

variable {r : Bytes}

theorem nextElement_done (h : skipBlanks s = 93 :: r) : nextElement first s = .ok none := by
  rw [nextElement, h]
  rfl

theorem nextElement_more {c w v : Bytes} (hc : Separator first c) (hw : Blank w) (hv : Written .value v) (r : Bytes) :
    nextElement first (c ++ (w ++ (v ++ r))) = .ok (some (v ++ r)) := by
  have hfront := hv.skipBlanks hw r
  obtain ⟨b, v, rfl, hb⟩ := hv.front
  rw [List.cons_append] at hfront ⊢
  cases first with
  | true =>
    cases hc
    rw [nextElement, List.nil_append, hfront]
    simp [hb.2]
  | false =>
    rw [nextElement, hc.skipBlanks]
    simp [hfront, hb.2]

theorem nextElement_sound {o : Option Bytes} (h : nextElement first s = .ok o) :
    match o with
    | none => ∃ r, skipBlanks s = 93 :: r
    | some r => ∃ c w, s = c ++ (w ++ r) ∧ Separator first c ∧ Blank w := by
  obtain ⟨w, hs, hw⟩ := skipBlanks_sound s
  unfold nextElement at h
  split at h
  · cases h
  rename_i b rest hfront
  rw [hfront] at hs
  split at h
  · rename_i hb
    cases h
    exact ⟨rest, by rw [hfront, hb]⟩
  split at h
  · rename_i hfirst
    cases h
    subst hfirst
    exact ⟨[], w, hs, .none, hw⟩
  rename_i hfirst
  split at h
  · cases h
  rename_i hcomma
  split at h
  · cases h
  rename_i d after hafter
  split at h
  · cases h
  cases h
  obtain ⟨w', hs', hw'⟩ := skipBlanks_sound rest
  rw [ne_eq, Decidable.not_not] at hcomma
  rw [Bool.not_eq_true] at hfirst
  subst hfirst
  exact ⟨w ++ [44], w', by rw [hs, hs', hafter, hcomma]; simp, .comma hw, hw'⟩

variable (shape) in
theorem elements_done {taken : List Scalar} {f : Field} {fields : List Field} (h : nextElement taken.isEmpty s = .ok none)
    {xs : List Scalar} {t : Bytes} : shape.elements taken (f :: fields) s = .ok (xs, t) ↔
      ∃ x, f.default = some x ∧ shape.elements (taken ++ [x]) fields s = .ok (xs, t) := by
  rw [elements, h]
  cases f.default <;> simp

variable (shape) in
theorem elements_more {taken : List Scalar} {f : Field} {fields : List Field}
    (h : nextElement taken.isEmpty s = .ok (some r)) {xs : List Scalar} {t : Bytes} :
    shape.elements taken (f :: fields) s = .ok (xs, t) ↔
      ∃ x rest, f.kind.read r = .ok (x, rest) ∧ shape.elements (taken ++ [x]) fields rest = .ok (xs, t) := by
  rw [elements, h]
  cases hread : f.kind.read r with
  | error e => simp [hread]
  | ok p => simp [hread, Prod.ext_iff, eq_comm]

variable (shape) in
/-- the elements still to come are read if the fields still to come get them -/
theorem elements_iff {taken : List Scalar} {fields : List Field} (hkinds : ∀ f ∈ fields, f.kind ≠ .count)
    {vs : List Bytes} {t : Bytes} (ht : Items IsElement taken.isEmpty vs t) (r : Bytes) {xs : List Scalar} {r' : Bytes} :
    (∃ u, shape.elements taken fields (t ++ 93 :: r) = .ok (xs, u) ∧ skipBlanks u = 93 :: r') ↔
      r' = r ∧ ∃ ys, xs = taken ++ ys ∧ Row fields vs ys := by
  induction fields generalizing taken vs t with
  | nil =>
    simp only [elements, Except.ok.injEq, Prod.mk.injEq]
    constructor
    · rintro ⟨_, ⟨rfl, rfl⟩, hclose⟩
      cases ht with
      | done hw =>
        cases (Frame.list.skipBlanks_closing hw r).symm.trans hclose
        exact ⟨rfl, [], by simp, .done⟩
      | more hc he ht =>
        -- an element that is left is in the way
        cases he with
        | value hw hv =>
          rw [List.append_assoc, List.append_assoc, List.append_assoc] at hclose
          cases (nextElement_more hc hw hv _).symm.trans (nextElement_done hclose)
    · rintro ⟨rfl, ys, rfl, hrow⟩
      cases hrow with
      | done =>
        cases ht with
        | done hw => exact ⟨_, ⟨by simp, rfl⟩, Frame.list.skipBlanks_closing hw r'⟩
  | cons f fields ih =>
    obtain ⟨hkind, hkinds⟩ := List.forall_mem_cons.1 hkinds
    have hlater : ∀ x, (taken ++ [x]).isEmpty = false := fun x => by simp
    cases ht with
    | done hw =>
      have hdone : nextElement taken.isEmpty (t ++ 93 :: r) = .ok none :=
        nextElement_done (Frame.list.skipBlanks_closing hw r)
      have hih := fun x => ih hkinds (.done hw : Items IsElement (taken ++ [x]).isEmpty [] t)
      -- the array ends here, so this field and all behind it get their defaults
      simp only [shape.elements_done hdone]
      constructor
      · rintro ⟨u, ⟨x, hdefault, hread⟩, hclose⟩
        obtain ⟨rfl, ys, rfl, hrow⟩ := (hih x).1 ⟨u, hread, hclose⟩
        exact ⟨rfl, x :: ys, by simp, .absent hdefault hrow⟩
      · rintro ⟨rfl, _, rfl, hrow⟩
        cases hrow with
        | @absent _ _ x ys hdefault hrow =>
          obtain ⟨u, hread, hclose⟩ := (hih x).2 ⟨rfl, ys, by simp, hrow⟩
          exact ⟨u, ⟨x, hdefault, hread⟩, hclose⟩
    | @more _ c v s vs t hc he ht =>
      cases he with
      | @value w _ hw hv =>
        have hread : ∀ {x : Scalar} {rest : Bytes}, f.kind.read (v ++ (t ++ 93 :: r)) = .ok (x, rest) ↔
            rest = t ++ 93 :: r ∧ Stands f.kind v x := Kind.read_iff hkind (w := []) nofun hv (ht.ends .list r)
        have hih := fun x => ih hkinds (hlater x ▸ ht : Items IsElement (taken ++ [x]).isEmpty vs t)
        rw [List.append_assoc, List.append_assoc, List.append_assoc]
        simp only [shape.elements_more (nextElement_more hc hw hv _), hread]
        constructor
        · rintro ⟨u, ⟨x, _, ⟨rfl, hstands⟩, hread⟩, hclose⟩
          obtain ⟨rfl, ys, rfl, hrow⟩ := (hih x).1 ⟨u, hread, hclose⟩
          exact ⟨rfl, x :: ys, by simp, .element hstands hrow⟩
        · rintro ⟨rfl, _, rfl, hrow⟩
          cases hrow with
          | @element _ _ _ _ x ys hstands hrow =>
            obtain ⟨u, hread, hclose⟩ := (hih x).2 ⟨rfl, ys, by simp, hrow⟩
            exact ⟨u, ⟨x, _, ⟨rfl, hstands⟩, hread⟩, hclose⟩

theorem elements_sound {taken : List Scalar} {fields : List Field} (hkinds : ∀ f ∈ fields, f.kind ≠ .count)
    {xs : List Scalar} {u : Bytes} (h : shape.elements taken fields s = .ok (xs, u)) (hclose : skipBlanks u = 93 :: r) :
    ∃ vs t r, s = t ++ 93 :: r ∧ Items IsElement taken.isEmpty vs t := by
  induction fields generalizing taken s with
  | nil =>
    cases h
    obtain ⟨w, hs, hw⟩ := skipBlanks_sound u
    exact ⟨[], w, r, by rw [← hclose, ← hs], .done hw⟩
  | cons f fields ih =>
    obtain ⟨hkind, hkinds⟩ := List.forall_mem_cons.1 hkinds
    cases helement : nextElement taken.isEmpty s with
    | error e =>
      rw [elements, helement] at h
      cases h
    | ok o =>
      have hsound := nextElement_sound helement
      cases o with
      | none =>
        obtain ⟨w, hs, hw⟩ := skipBlanks_sound s
        obtain ⟨r', hr'⟩ := hsound
        exact ⟨[], w, r', by rw [← hr', ← hs], .done hw⟩
      | some r₀ =>
        obtain ⟨c, w, rfl, hc, hw⟩ := hsound
        obtain ⟨x, rest, hread, hlater⟩ := (shape.elements_more helement).1 h
        obtain ⟨w', v, rfl, hw', hstands⟩ := Kind.read_sound hkind hread
        obtain ⟨vs, t, r', rfl, ht⟩ := ih hkinds hlater
        have hsecond : (taken ++ [x]).isEmpty = false := by simp
        rw [hsecond] at ht
        exact ⟨v :: vs, _, r', by simp, .more hc (.value (hw.append hw') hstands.written) ht⟩

/-! ## Whole documents -/

@[simp] theorem blank_length (shape : Shape) : shape.blank.length = shape.fields.length := List.length_map ..

theorem blank_iff : Blank s ↔ skipBlanks s = [] := by
  rw [Blank, skipBlanks, List.dropWhile_eq_nil_iff]

theorem read_iff {xs : List Scalar} :
    shape.read s = .ok xs ↔ ∃ rest, shape.readFront s = .ok (xs, rest) ∧ Blank rest := by
  unfold read
  cases hfront : shape.readFront s with
  | error e => simp
  | ok p =>
    obtain ⟨ys, rest⟩ := p
    cases hrest : skipBlanks rest <;> simp [blank_iff, hrest, Fault.next]

/-- **Records as objects.** An object is read as a record if its members fill the fields. -/
theorem read_object (hp : shape.Plain) {ms : List Member} (hs : IsObject ms s) {xs : List Scalar} :
    shape.read s = .ok xs ↔ shape.Fills shape.blank ms xs := by
  cases hs with
  | @frame w t w' hw ht hw' =>
    have hfront : shape.readFront (w ++ 123 :: (t ++ 125 :: w')) =
        Frame.object.finish (shape.members shape.blank true (t ++ 125 :: w')) := by
      rw [readFront, skipBlanks_append hw]
      rfl
    simp only [Frame.opening, Frame.closing, read_iff, hfront, Frame.finish_iff,
      members_iff hp shape.blank_length ht]
    constructor
    · rintro ⟨_, ⟨_, ⟨-, h⟩, -⟩, -⟩
      exact h
    · intro h
      exact ⟨w', ⟨_, ⟨rfl, h⟩, rfl⟩, hw'⟩

/-- **Records as arrays.** An array is read as a record if its elements are a row of the fields. -/
theorem read_array (hp : shape.Plain) {vs : List Bytes} (hs : IsArray vs s) {xs : List Scalar} :
    shape.read s = .ok xs ↔ Row shape.fields vs xs := by
  cases hs with
  | @frame w t w' hw ht hw' =>
    have hfront : shape.readFront (w ++ 91 :: (t ++ 93 :: w')) =
        Frame.list.finish (shape.elements [] shape.fields (t ++ 93 :: w')) := by
      rw [readFront, skipBlanks_append hw]
      rfl
    have hfirst : Items IsElement ([] : List Scalar).isEmpty vs t := ht
    simp only [Frame.opening, Frame.closing, read_iff, hfront, Frame.finish_iff,
      shape.elements_iff hp.kinds hfirst w']
    constructor
    · rintro ⟨_, ⟨-, _, rfl, h⟩, -⟩
      exact h
    · intro h
      exact ⟨w', ⟨rfl, xs, rfl, h⟩, hw'⟩

/-- **Nothing else.** A record is read from an object or from an array. -/
theorem read_sound (hp : shape.Plain) {xs : List Scalar} (h : shape.read s = .ok xs) :
    (∃ ms, IsObject ms s) ∨ ∃ vs, IsArray vs s := by
  obtain ⟨rest, hfront, hrest⟩ := read_iff.1 h
  obtain ⟨w, hs, hw⟩ := skipBlanks_sound s
  unfold readFront at hfront
  split at hfront
  · cases hfront
  rename_i b after hb
  split at hfront
  · obtain ⟨u, helements, hclose⟩ := Frame.finish_iff.1 hfront
    obtain ⟨vs, t, r, rfl, ht⟩ := elements_sound hp.kinds helements hclose
    obtain ⟨rfl, -⟩ := (shape.elements_iff hp.kinds ht r).1 ⟨u, helements, hclose⟩
    rw [hs, hb, ‹b = 91›]
    exact .inr ⟨vs, .frame (f := .list) hw ht hrest⟩
  split at hfront
  · obtain ⟨u, hmembers, hclose⟩ := Frame.finish_iff.1 hfront
    obtain ⟨ms, t, r, rfl, ht⟩ := members_sound hp hmembers
    obtain ⟨rfl, -⟩ := (members_iff hp shape.blank_length ht r).1 hmembers
    cases hclose
    rw [hs, hb, ‹b = 123›]
    exact .inl ⟨ms, .frame (f := .object) hw ht hrest⟩
  split at hfront <;> cases hfront

/-! ## What does not matter -/

/-- a member has the name of a field -/
def knows (shape : Shape) (m : Member) : Bool := shape.fields.any fun f => f.key == m.name

/-- the members that have the name of a field are all that a field gets something from -/
theorem valuesOf_known {f : Field} (hf : f ∈ shape.fields) (ms : List Member) :
    valuesOf f.key (ms.filter shape.knows) = valuesOf f.key ms := by
  rw [valuesOf, List.filter_filter, valuesOf]
  refine congrArg _ (List.filter_congr fun m _ => ?_)
  by_cases hm : m.name = f.key
  · have hknown : shape.knows m = true := List.any_eq_true.2 ⟨f, hf, by simp [hm]⟩
    rw [hknown, Bool.and_true]
  · simp [hm]

theorem Fills.perm {given : Given} {ms ms' : List Member} {xs : List Scalar} (h : shape.Fills given ms xs)
    (hp : (ms.filter shape.knows).Perm (ms'.filter shape.knows)) : shape.Fills given ms' xs := by
  refine ⟨h.length, fun {i f x} hf hx => (h.gets hf hx).perm ?_⟩
  have hmem := List.mem_of_getElem? hf
  rw [← valuesOf_known hmem ms, ← valuesOf_known hmem ms']
  exact (hp.filter _).map _

/-- **Order and unknown members do not matter.** Objects whose members of known names are the same, in whatever order, are
read as the same record. -/
theorem read_perm (hp : shape.Plain) {s' : Bytes} {ms ms' : List Member} (hs : IsObject ms s) (hs' : IsObject ms' s')
    (hperm : (ms.filter shape.knows).Perm (ms'.filter shape.knows)) {xs : List Scalar} (h : shape.read s = .ok xs) :
    shape.read s' = .ok xs :=
  (read_object hp hs').2 (((read_object hp hs).1 h).perm hperm)

end Shape

end SecureEndpoint.Json
