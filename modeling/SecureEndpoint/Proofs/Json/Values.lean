/-
Passing over values of any depth.

`skipNested` goes through nested lists and objects with a list of the frames that are still open. What it has yet to pass
over is therefore not a part of the grammar but what completes these frames (`Completes`): each is closed, or goes on with
further items behind a comma.
- `skipNested_sound`: by the recursion of the reader, whatever it took completes the frames it began in.
- `Written.skip`: by the derivation, it takes every value and every list of items, and goes on behind them.
- `skipValue_sound`, `skipValue_append`: so it passes over exactly what the grammar derives as a value.
-/
import SecureEndpoint.Proofs.Json.Grammar

namespace SecureEndpoint.Json

/-! ## Names -/

theorem colon_sound {s r : Bytes} (h : colon s = .ok r) : ∃ w, s = w ++ 58 :: r ∧ Blank w := by
  obtain ⟨w, hs, hw⟩ := skipBlanks_sound s
  unfold colon at h
  split at h
  · cases h
  · rename_i b rest he
    split at h
    · rename_i hb
      cases h
      exact ⟨w, by rw [hs, he, hb], hw⟩
    · cases h

theorem colon_append {w : Bytes} (hw : Blank w) (r : Bytes) : colon (w ++ 58 :: r) = .ok r := by
  rw [colon, skipBlanks_append hw]
  rfl

theorem skipName_sound {f : Frame} {s r : Bytes} (h : skipName f s = .ok r) : ∃ l, s = l ++ r ∧ IsLead f l := by
  cases f with
  | list =>
    cases h
    exact ⟨[], rfl, .list⟩
  | object =>
    obtain ⟨w, hs, hw⟩ := skipBlanks_sound s
    simp only [skipName] at h
    split at h
    · cases h
    · rename_i b rest he
      split at h
      · cases h
      · rename_i hb
        split at h
        · cases h
        · rename_i after hskip
          obtain ⟨body, rfl, hbody⟩ := skipString_sound hskip
          obtain ⟨w', rfl, hw'⟩ := colon_sound h
          rw [Decidable.not_not] at hb
          exact ⟨w ++ 34 :: (body ++ 34 :: (w' ++ [58])), by rw [hs, he, hb]; simp, .object hw hbody hw'⟩

theorem IsLead.skip {f : Frame} {l : Bytes} (h : IsLead f l) (r : Bytes) : skipName f (l ++ r) = .ok r := by
  cases h with
  | list => rfl
  | @object w s w' hw hs hw' =>
    simp only [List.append_assoc, List.cons_append, List.nil_append, skipName, skipBlanks_append hw,
      skipBlanks_cons (b := 34) rfl, ne_eq, not_true_eq_false, if_false, hs.skip]
    exact colon_append hw' r

/-! ## The reader, step by step -/

theorem skipNested_done (s : Bytes) : skipNested .ended [] s = .ok s := by
  rw [skipNested]

section

variable {f : Frame} {frames : List Frame} {s r rest : Bytes} {b : UInt8}

theorem skipNested_scalar (h : skipScalar (skipBlanks s) = .ok (some r)) :
    skipNested .value frames s = skipNested .ended frames r := by
  rw [skipNested]
  split
  · rename_i he
    cases h.symm.trans he
  · rename_i he
    cases h.symm.trans he
    rfl
  · rename_i he
    cases h.symm.trans he

theorem skipNested_frame (h : skipBlanks s = f.opening :: rest) :
    skipNested .value frames s = skipNested .opened (f :: frames) rest := by
  have hnone : skipScalar (skipBlanks s) = .ok none := by rw [h, skipScalar_opening]
  rw [skipNested]
  split
  · rename_i he
    cases hnone.symm.trans he
  · rename_i he
    cases hnone.symm.trans he
  · split
    · rename_i he
      cases h.symm.trans he
    · rename_i he
      cases h.symm.trans he
      cases f <;> rfl

theorem skipNested_opened_close (h : skipBlanks s = f.closing :: rest) :
    skipNested .opened (f :: frames) s = skipNested .ended frames rest := by
  conv => lhs; rw [skipNested]
  split
  · rename_i he
    cases h.symm.trans he
  · rename_i he
    cases h.symm.trans he
    rw [if_pos rfl]

theorem skipNested_opened_item (h : skipBlanks s = b :: rest) (hb : b ≠ f.closing) (hn : skipName f (b :: rest) = .ok r) :
    skipNested .opened (f :: frames) s = skipNested .value (f :: frames) r := by
  conv => lhs; rw [skipNested]
  split
  · rename_i he
    cases h.symm.trans he
  · rename_i he
    cases h.symm.trans he
    rw [if_neg hb]
    split
    · rename_i he
      cases hn.symm.trans he
    · rename_i he
      cases hn.symm.trans he
      rfl

theorem skipNested_ended_close (h : skipBlanks s = f.closing :: rest) :
    skipNested .ended (f :: frames) s = skipNested .ended frames rest := by
  conv => lhs; rw [skipNested]
  split
  · rename_i he
    cases h.symm.trans he
  · rename_i he
    cases h.symm.trans he
    rw [if_pos rfl]

theorem skipNested_comma (h : skipBlanks s = 44 :: rest) (hn : skipName f rest = .ok r) :
    skipNested .ended (f :: frames) s = skipNested .value (f :: frames) r := by
  conv => lhs; rw [skipNested]
  split
  · rename_i he
    cases h.symm.trans he
  · rename_i he
    cases h.symm.trans he
    rw [if_neg (by cases f <;> decide), if_pos rfl]
    split
    · rename_i he
      cases hn.symm.trans he
    · rename_i he
      cases hn.symm.trans he
      rfl

end

/-! ## What the grammar derives is passed over -/

/-- a byte that begins a value: no blank, and nothing that closes or goes on -/
def Front (b : UInt8) : Prop := isBlank b = false ∧ b ≠ 93

theorem IsScalar.front {v : Bytes} (h : IsScalar v) : ∃ b t, v = b :: t ∧ Front b := by
  cases h with
  | null | true | false | negative | string => exact ⟨_, _, rfl, by decide, by decide⟩
  | positive hu =>
    obtain ⟨b, t, rfl, hb⟩ := hu.head
    refine ⟨b, t, rfl, ?_, digit_ne hb (by decide)⟩
    simp [isBlank, digit_ne hb (c := 32) (by decide), digit_ne hb (c := 10) (by decide), digit_ne hb (c := 9) (by decide),
      digit_ne hb (c := 13) (by decide)]

theorem Written.front {v : Bytes} (h : Written .value v) : ∃ b t, v = b :: t ∧ Front b := by
  cases h with
  | scalar hs => exact hs.front
  | empty f | frame f => exact ⟨_, _, rfl, by cases f <;> decide, by cases f <;> decide⟩

theorem Written.skipBlanks {w v : Bytes} (h : Written .value v) (hw : Blank w) (r : Bytes) :
    Json.skipBlanks (w ++ (v ++ r)) = v ++ r := by
  obtain ⟨b, t, rfl, hb, -⟩ := h.front
  rw [skipBlanks_append hw, List.cons_append, skipBlanks_cons hb]

/-- the first item of a frame, behind its name -/
theorem IsLead.opened {f : Frame} {l w v : Bytes} (hl : IsLead f l) (hw : Blank w) (hv : Written .value v)
    (frames : List Frame) (r : Bytes) : ∃ w', Blank w' ∧ skipNested .opened (f :: frames) (l ++ (w ++ (v ++ r))) =
      skipNested .value (f :: frames) (w' ++ (v ++ r)) := by
  cases hl with
  | list =>
    obtain ⟨b, t, rfl, hb⟩ := hv.front
    exact ⟨[], nofun, skipNested_opened_item (f := .list) (hv.skipBlanks hw r) hb.2 rfl⟩
  | @object w₁ s w₂ hw₁ hs hw₂ =>
    have hquote : Json.skipBlanks ((w₁ ++ 34 :: (s ++ 34 :: (w₂ ++ [58]))) ++ (w ++ (v ++ r))) =
        34 :: (s ++ 34 :: (w₂ ++ 58 :: (w ++ (v ++ r)))) := by
      simp only [List.append_assoc, List.cons_append, List.nil_append, skipBlanks_append hw₁]
      exact skipBlanks_cons rfl _
    have hname : skipName .object (34 :: (s ++ 34 :: (w₂ ++ 58 :: (w ++ (v ++ r))))) = .ok (w ++ (v ++ r)) := by
      simpa using (IsLead.object (w := []) nofun hs hw₂).skip (w ++ (v ++ r))
    exact ⟨w, hw, skipNested_opened_item hquote (by decide) hname⟩

/-- what the reader does behind a part of a document: behind a value it goes on, behind the items it closes the frame -/
theorem Written.skip {p : Part} {s : Bytes} (h : Written p s) (frames : List Frame) (r : Bytes) :
    match p with
    | .value => ∀ w, Blank w → Ends r → skipNested .value frames (w ++ (s ++ r)) = skipNested .ended frames r
    | .items f =>
      skipNested .opened (f :: frames) (s ++ f.closing :: r) = skipNested .ended frames r ∧
        ∀ w, Blank w → skipNested .ended (f :: frames) (w ++ 44 :: (s ++ f.closing :: r)) = skipNested .ended frames r := by
  induction h generalizing frames r with
  | scalar hs =>
    intro w hw hr
    refine skipNested_scalar ?_
    rw [(Written.scalar hs).skipBlanks hw, hs.skip hr]
  | @empty f w' hw' =>
    intro w hw _
    have hskip := (Written.empty f hw').skipBlanks hw r
    rw [List.cons_append, List.append_assoc] at hskip ⊢
    rw [skipNested_frame hskip, skipNested_opened_close (by rw [skipBlanks_append hw']; cases f <;> rfl)]
    rfl
  | @frame f s hs ih =>
    intro w hw _
    have hskip := (Written.frame f hs).skipBlanks hw r
    rw [List.cons_append, List.append_assoc] at hskip ⊢
    rw [skipNested_frame hskip]
    exact (ih frames r).1
  | @last f l w v w' hl hw hv hw' ih =>
    have hclose : ∀ w₀, Blank w₀ → skipNested .value (f :: frames) (w₀ ++ (v ++ (w' ++ f.closing :: r))) =
        skipNested .ended frames r := fun w₀ hw₀ => by
      rw [ih (f :: frames) (w' ++ f.closing :: r) w₀ hw₀ ((f.ends r).blank hw'),
        skipNested_ended_close (by rw [skipBlanks_append hw']; cases f <;> rfl)]
    simp only [List.append_assoc]
    refine ⟨?_, fun w₁ hw₁ => ?_⟩
    · obtain ⟨w₀, hw₀, he⟩ := hl.opened hw hv frames (w' ++ f.closing :: r)
      rw [he, hclose w₀ hw₀]
    · rw [skipNested_comma (by rw [skipBlanks_append hw₁]; rfl) (hl.skip _), hclose w hw]
  | @more f l w v w' s hl hw hv hw' hs ih ihs =>
    have hgo : ∀ w₀, Blank w₀ → skipNested .value (f :: frames) (w₀ ++ (v ++ (w' ++ 44 :: (s ++ f.closing :: r)))) =
        skipNested .ended frames r := fun w₀ hw₀ => by
      rw [ih (f :: frames) _ w₀ hw₀ ((ends_comma _).blank hw')]
      exact (ihs frames r).2 w' hw'
    simp only [List.append_assoc, List.cons_append]
    refine ⟨?_, fun w₁ hw₁ => ?_⟩
    · obtain ⟨w₀, hw₀, he⟩ := hl.opened hw hv frames (w' ++ 44 :: (s ++ f.closing :: r))
      rw [he, hgo w₀ hw₀]
    · rw [skipNested_comma (by rw [skipBlanks_append hw₁]; rfl) (hl.skip _), hgo w hw]

theorem skipValue_append {w v r : Bytes} (hw : Blank w) (hv : Written .value v) (hr : Ends r) :
    skipValue (w ++ (v ++ r)) = .ok r := by
  rw [skipValue, hv.skip [] r w hw hr, skipNested_done]

/-! ## What is passed over was derived -/

/-- what closes the frames that are open, the innermost one first, behind a value in it -/
inductive Completes : List Frame → Bytes → Prop
  | done : Completes [] []
  | close {f outer w c} (hw : Blank w) (hc : Completes outer c) : Completes (f :: outer) (w ++ f.closing :: c)
  | more {f outer w s c} (hw : Blank w) (hs : Written (.items f) s) (hc : Completes outer c) :
      Completes (f :: outer) (w ++ 44 :: (s ++ f.closing :: c))

/-- blanks may be added in front of the items of a frame -/
theorem Written.blank {f : Frame} {w₀ s : Bytes} (hw₀ : Blank w₀) (h : Written (.items f) s) :
    Written (.items f) (w₀ ++ s) := by
  have hlead : ∀ {l w : Bytes} (t : Bytes), IsLead f l → Blank w →
      ∃ l' w', IsLead f l' ∧ Blank w' ∧ w₀ ++ (l ++ (w ++ t)) = l' ++ (w' ++ t) := by
    intro l w t hl hw
    cases hl with
    | list => exact ⟨[], w₀ ++ w, .list, hw₀.append hw, by simp⟩
    | @object w₁ s w₂ hw₁ hs hw₂ => exact ⟨_, w, .object (hw₀.append hw₁) hs hw₂, hw, by simp⟩
  cases h with
  | last hl hw hv hw' =>
    obtain ⟨l', w', hl', hw'', he⟩ := hlead _ hl hw
    exact he ▸ .last hl' hw'' hv hw'
  | more hl hw hv hw' hs =>
    obtain ⟨l', w', hl', hw'', he⟩ := hlead _ hl hw
    exact he ▸ .more hl' hw'' hv hw' hs

/-- behind the name of an item: the item and what completes the frames make up the items and what completes the frames
outside -/
theorem Completes.items {f : Frame} {outer : List Frame} {l w v c : Bytes} (hl : IsLead f l) (hw : Blank w)
    (hv : Written .value v) (hc : Completes (f :: outer) c) (r : Bytes) :
    ∃ s d, l ++ (w ++ (v ++ (c ++ r))) = s ++ f.closing :: (d ++ r) ∧ Written (.items f) s ∧ Completes outer d := by
  cases hc with
  | close hw' hd => exact ⟨_, _, by simp, .last hl hw hv hw', hd⟩
  | more hw' hs hd => exact ⟨_, _, by simp, .more hl hw hv hw' hs, hd⟩

/-- what the reader took before it stopped in front of `r` -/
def Took (p : SkipPoint) (frames : List Frame) (s r : Bytes) : Prop :=
  match p, frames with
  | .value, frames => ∃ w v c, s = w ++ (v ++ (c ++ r)) ∧ Blank w ∧ Written .value v ∧ Completes frames c
  | .opened, f :: outer => ∃ t c, s = t ++ f.closing :: (c ++ r) ∧ (Blank t ∨ Written (.items f) t) ∧ Completes outer c
  | .opened, [] => s = r
  | .ended, frames => ∃ c, s = c ++ r ∧ Completes frames c

theorem skipNested_sound {p : SkipPoint} {frames : List Frame} {s r : Bytes} (h : skipNested p frames s = .ok r) :
    Took p frames s r := by
  fun_induction skipNested p frames s with
  | case1 => cases h
  | case2 frames s rest hscalar _ _ ih =>
    obtain ⟨w, hs, hw⟩ := skipBlanks_sound s
    obtain ⟨v, hv, hwritten⟩ := skipScalar_sound hscalar
    obtain ⟨c, hc, hcomplete⟩ := ih h
    exact ⟨w, v, c, by rw [hs, hv, hc], hw, .scalar hwritten, hcomplete⟩
  | case3 frames s hnone hempty =>
    rw [hempty] at hnone
    cases hnone
  | case4 frames s hnone b rest hfront _ ih =>
    obtain ⟨w, hs, hw⟩ := skipBlanks_sound s
    rw [hfront] at hnone
    obtain ⟨f, rest', hf⟩ := skipScalar_frame hnone
    obtain ⟨rfl, rfl⟩ := List.cons.inj hf
    have hopened : Took .opened (f :: frames) rest r := by
      cases f with
      | list => exact ih h
      | object => exact ih h
    obtain ⟨t, c, hrest, ht, hc⟩ := hopened
    refine ⟨w, f.opening :: (t ++ [f.closing]), c, by rw [hs, hfront, hrest]; simp, hw, ?_, hc⟩
    exact ht.elim (.empty f) (.frame f)
  | case5 => cases h; rfl
  | case6 => cases h
  | case7 s f outer rest hfront _ ih =>
    obtain ⟨w, hs, hw⟩ := skipBlanks_sound s
    obtain ⟨c, hc, hcomplete⟩ := ih h
    exact ⟨w, c, by rw [hs, hfront, hc], .inl hw, hcomplete⟩
  | case8 => cases h
  | case9 s f outer b rest hfront _ _ after hname _ ih =>
    -- an item: its name, and what the reader took behind it
    obtain ⟨w₀, hs, hw₀⟩ := skipBlanks_sound s
    obtain ⟨l, hl, hlead⟩ := skipName_sound hname
    obtain ⟨w, v, c, hafter, hw, hv, hc⟩ := ih h
    obtain ⟨t, d, ht, hwritten, hd⟩ := hc.items hlead hw hv r
    exact ⟨w₀ ++ t, d, by rw [hs, hfront, hl, hafter, ht, List.append_assoc], .inr (hwritten.blank hw₀), hd⟩
  | case10 => cases h; exact ⟨[], rfl, .done⟩
  | case11 => cases h
  | case12 s f outer rest hfront _ ih =>
    obtain ⟨w, hs, hw⟩ := skipBlanks_sound s
    obtain ⟨c, hc, hcomplete⟩ := ih h
    exact ⟨w ++ f.closing :: c, by rw [hs, hfront, hc]; simp, .close hw hcomplete⟩
  | case13 => cases h
  | case14 s f outer rest after hname _ hfront _ _ ih =>
    obtain ⟨w₀, hs, hw₀⟩ := skipBlanks_sound s
    obtain ⟨l, hl, hlead⟩ := skipName_sound hname
    obtain ⟨w, v, c, hafter, hw, hv, hc⟩ := ih h
    obtain ⟨t, d, ht, hwritten, hd⟩ := hc.items hlead hw hv r
    exact ⟨w₀ ++ 44 :: (t ++ f.closing :: d), by rw [hs, hfront, hl, hafter, ht]; simp, .more hw₀ hwritten hd⟩
  | case15 => cases h

theorem skipValue_sound {s r : Bytes} (h : skipValue s = .ok r) :
    ∃ w v, s = w ++ (v ++ r) ∧ Blank w ∧ Written .value v := by
  obtain ⟨w, v, c, hs, hw, hv, hc⟩ := skipNested_sound h
  cases hc
  exact ⟨w, v, hs, hw, hv⟩

end SecureEndpoint.Json
