/-
The entry of an address tells which address it is.

`address?` reads the textual forms of internet addresses, however they are spelled: four decimal numbers between points,
or eight hexadecimal groups between colons. A run of zero groups may be left out once, which leaves two colons together,
and the last two groups may be written as an IPv4 address. Whether a text was written by `entryOfAddress?` plays no part.
- `ipv4?_text`, `ipv6?_text`: what is written for an address reads back as its bytes. The runs that are left out are zero
  groups (`longestZeroRun_zero`), and the only two colons together stand for them (`atGap?_groups`).
- `addresses_unambiguous`: so no two byte strings have the same entry.
-/
import Mathlib.Data.List.TakeWhile
import SecureEndpoint.Certificate.Address

namespace SecureEndpoint.Certificate

/-! ## Reading the text of an address -/

/-- the value of a digit of any base up to sixteen, in lower or upper case -/
def digit? (c : Char) : Option Nat :=
  if '0' ≤ c ∧ c ≤ '9' then some (c.toNat - 48)
  else if 'a' ≤ c ∧ c ≤ 'f' then some (c.toNat - 87)
  else if 'A' ≤ c ∧ c ≤ 'F' then some (c.toNat - 55)
  else none

/-- a number goes on with another digit -/
def withDigit? (base n : Nat) (c : Char) : Option Nat :=
  (digit? c).bind fun d => if d < base then some (n * base + d) else none

/-- the number that digits stand for -/
def number? (base : Nat) (cs : List Char) : Option Nat := cs.foldlM (withDigit? base) 0

/-- a byte in at most three decimal digits, without leading zeros -/
def octet? (cs : List Char) : Option UInt8 :=
  if cs = [] ∨ 3 < cs.length ∨ cs.head? = some '0' ∧ 1 < cs.length then none
  else (number? 10 cs).bind fun n => if n < 256 then some (UInt8.ofNat n) else none

/-- four bytes between points -/
def ipv4? (cs : List Char) : Option (List UInt8) :=
  if (cs.splitOn '.').length = 4 then (cs.splitOn '.').mapM octet? else none

/-- the two bytes of a group -/
def groupBytes (n : Nat) : List UInt8 := [UInt8.ofNat (n / 256), UInt8.ofNat n]

/-- a group of at most four hexadecimal digits -/
def group? (cs : List Char) : Option (List UInt8) :=
  if cs = [] ∨ 4 < cs.length then none else (number? 16 cs).map groupBytes

/-- the bytes of groups; where it is allowed, the last two may be written as an IPv4 address -/
def groups? (dotted : Bool) : List (List Char) → Option (List UInt8)
  | [] => some []
  | [p] => (group? p).or (if dotted then ipv4? p else none)
  | p :: q :: rest => (group? p).bind fun g => (groups? dotted (q :: rest)).map (g ++ ·)

/-- groups between colons, or nothing at all -/
def side? (dotted : Bool) (cs : List Char) : Option (List UInt8) :=
  if cs = [] then some [] else groups? dotted (cs.splitOn ':')

/-- what stands before and behind the first two colons that stand together -/
def atGap? : List Char → Option (List Char × List Char)
  | [] => none
  | c :: rest =>
    if c = ':' ∧ rest.head? = some ':' then some ([], rest.tail)
    else (atGap? rest).map fun p => (c :: p.1, p.2)

/-- eight groups between colons; where two colons stand together, they stand for at least one zero group -/
def ipv6? (cs : List Char) : Option (List UInt8) :=
  match atGap? cs with
  | none => (side? true cs).filter (·.length = 16)
  | some (front, back) =>
    (side? false front).bind fun a => (side? true back).bind fun b =>
      if a.length + b.length ≤ 14 then some (a ++ List.replicate (16 - (a.length + b.length)) 0 ++ b) else none

/-- the bytes of an address in one of its textual forms -/
def address? (s : String) : Option (List UInt8) :=
  if ':' ∈ s.toList then ipv6? s.toList else ipv4? s.toList

example : address? "2001:DB8:0:00::0.0.255.1" = some [0x20, 0x01, 0x0d, 0xb8, 0, 0, 0, 0, 0, 0, 0, 0, 0, 0, 255, 1] := by
  decide +kernel

example : [":", "1::2::3", ":::", "1:2:3:4:5:6:7:8:9", "1:2:3:4:5:6:7:8::", "1.2.3.4::", "12345::", "01.2.3.4",
    "1.2.3.256", "1.2.3", ""].filterMap address? = [] := by
  decide +kernel

/-! ## Digits -/

theorem digit?_digitChar {d : Nat} (h : d < 16) : digit? d.digitChar = some d := by
  have : ∀ k : Fin 16, digit? (k : Nat).digitChar = some (k : Nat) := by decide
  exact this ⟨d, h⟩

theorem mem_toDigits {base n : Nat} {c : Char} (hb : 1 < base) (h : c ∈ Nat.toDigits base n) :
    ∃ d < base, c = d.digitChar := by
  induction n using Nat.strongRecOn with
  | ind n ih =>
    rw [Nat.toDigits_eq_if hb] at h
    split at h
    · rename_i hlt
      exact ⟨n, hlt, List.mem_singleton.1 h⟩
    · rcases List.mem_append.1 h with h | h
      · exact ih (n / base) (Nat.div_lt_self (by omega) hb) h
      · exact ⟨n % base, Nat.mod_lt n (by omega), List.mem_singleton.1 h⟩

/-- neither a point nor a colon is a digit -/
theorem not_mem_toDigits {base n : Nat} {c : Char} (hb : 1 < base) (hc : c = '.' ∨ c = ':') :
    c ∉ Nat.toDigits base n := by
  intro h
  obtain ⟨d, -, rfl⟩ := mem_toDigits hb h
  rcases hc with hc | hc <;> exact Nat.digitChar_ne _ (by decide) hc

/-- the digits of a number have a leading zero only if there is nothing else -/
theorem head?_toDigits {base n : Nat} (hb : 1 < base) (hn : 0 < n) : (Nat.toDigits base n).head? ≠ some '0' := by
  induction n using Nat.strongRecOn with
  | ind n ih =>
    rw [Nat.toDigits_eq_if hb]
    split
    · simp; omega
    · have hpos : 0 < n / base := Nat.div_pos (by omega) (by omega)
      rw [List.head?_append, Option.or_of_isSome (by simp)]
      exact ih (n / base) (Nat.div_lt_self hn hb) hpos

theorem number?_toDigits {base : Nat} (hb : 1 < base) (hle : base ≤ 16) (n : Nat) :
    number? base (Nat.toDigits base n) = some n := by
  induction n using Nat.strongRecOn with
  | ind n ih =>
    have last : ∀ k, withDigit? base k (n % base).digitChar = some (k * base + n % base) := by
      intro k
      have hd : n % base < base := Nat.mod_lt n (by omega)
      simp [withDigit?, digit?_digitChar (Nat.lt_of_lt_of_le hd hle), hd]
    rw [Nat.toDigits_eq_if hb]
    split
    · rename_i hlt
      have := last 0
      rw [Nat.mod_eq_of_lt hlt] at this
      simpa [number?] using this
    · have hfront := ih (n / base) (Nat.div_lt_self (by omega) hb)
      rw [number?] at hfront ⊢
      rw [List.foldlM_append, hfront]
      have := last (n / base)
      rw [Nat.div_add_mod' n base] at this
      simpa using this

/-! ## IPv4 addresses -/

theorem octet?_toDigits (b : UInt8) : octet? (Nat.toDigits 10 b.toNat) = some b := by
  have hlt : b.toNat < 256 := b.toNat_lt
  have hlen : (Nat.toDigits 10 b.toNat).length ≤ 3 := (Nat.length_toDigits_le_iff (by decide) (by decide)).2 (by omega)
  have hzero : (Nat.toDigits 10 b.toNat).head? = some '0' → (Nat.toDigits 10 b.toNat).length ≤ 1 := by
    intro hhead
    by_cases hb : 0 < b.toNat
    · exact absurd hhead (head?_toDigits (by decide) hb)
    · exact (Nat.length_toDigits_le_iff (by decide) (by decide)).2 (by omega)
  have hform : ¬ (Nat.toDigits 10 b.toNat = [] ∨ 3 < (Nat.toDigits 10 b.toNat).length ∨
      (Nat.toDigits 10 b.toNat).head? = some '0' ∧ 1 < (Nat.toDigits 10 b.toNat).length) := by
    rintro (hnil | hlong | ⟨hhead, hmore⟩)
    · exact Nat.toDigits_ne_nil hnil
    · omega
    · exact absurd (hzero hhead) (by omega)
  rw [octet?, if_neg hform, number?_toDigits (by decide) (by decide)]
  simp [hlt]

theorem toList_ipv4Text (bytes : List UInt8) :
    (ipv4Text bytes).toList = ['.'].intercalate (bytes.map fun b => Nat.toDigits 10 b.toNat) := by
  simp [ipv4Text, Text.joinWith, Function.comp_def]

theorem mapM_octet? (bytes : List UInt8) :
    (bytes.map fun b => Nat.toDigits 10 b.toNat).mapM octet? = some bytes := by
  induction bytes with
  | nil => rfl
  | cons b rest ih => simp [List.mapM_cons, octet?_toDigits, ih]

/-- **Four bytes read back.** -/
theorem ipv4?_text {bytes : List UInt8} (h : bytes.length = 4) : ipv4? (ipv4Text bytes).toList = some bytes := by
  have hsplit : (ipv4Text bytes).toList.splitOn '.' = bytes.map fun b => Nat.toDigits 10 b.toNat := by
    rw [toList_ipv4Text]
    refine List.splitOn_intercalate _ (fun l hl => ?_) (fun hnil => ?_)
    · obtain ⟨b, -, rfl⟩ := List.mem_map.1 hl
      exact not_mem_toDigits (by decide) (.inl rfl)
    · rw [List.map_eq_nil_iff.1 hnil] at h
      cases h
  rw [ipv4?, hsplit, if_pos (by simpa using h), mapM_octet?]

theorem colon_not_mem_ipv4Text (bytes : List UInt8) : ':' ∉ (ipv4Text bytes).toList := by
  rw [toList_ipv4Text]
  induction bytes with
  | nil => simp
  | cons b rest ih =>
    have hb : ':' ∉ Nat.toDigits 10 b.toNat := not_mem_toDigits (by decide) (.inr rfl)
    cases rest with
    | nil => simpa using hb
    | cons c rest => simpa [hb] using ih

/-! ## Groups -/

theorem group?_toDigits {n : Nat} (h : n < 65536) : group? (Nat.toDigits 16 n) = some (groupBytes n) := by
  have hlen : (Nat.toDigits 16 n).length ≤ 4 := (Nat.length_toDigits_le_iff (by decide) (by decide)).2 (by omega)
  rw [group?, if_neg (by simp; omega), number?_toDigits (by decide) (by decide)]
  rfl

theorem groups?_toDigits (dotted : Bool) {groups : List Nat} (h : ∀ g ∈ groups, g < 65536) :
    groups? dotted (groups.map (Nat.toDigits 16)) = some (groups.flatMap groupBytes) := by
  induction groups with
  | nil => rfl
  | cons g rest ih =>
    have hg := group?_toDigits (h g (.head _))
    have ih := ih fun k hk => h k (.tail _ hk)
    cases rest with
    | nil => simp [groups?, hg]
    | cons k rest =>
      rw [List.map_cons, List.map_cons, groups?, hg, Option.bind_some, ← List.map_cons, ih]
      simp

theorem toList_groupsText (groups : List Nat) :
    (groupsText groups).toList = [':'].intercalate (groups.map (Nat.toDigits 16)) := by
  simp [groupsText, Text.joinWith, Text.hex, Function.comp_def]

/-- groups read back, on either side of the gap -/
theorem side?_groupsText (dotted : Bool) {groups : List Nat} (h : ∀ g ∈ groups, g < 65536) :
    side? dotted (groupsText groups).toList = some (groups.flatMap groupBytes) := by
  cases groups with
  | nil => simp [side?, toList_groupsText]
  | cons g rest =>
    have hne : (groupsText (g :: rest)).toList ≠ [] := by
      rw [toList_groupsText]
      cases rest <;> simp
    have hsplit : (groupsText (g :: rest)).toList.splitOn ':' = (g :: rest).map (Nat.toDigits 16) := by
      rw [toList_groupsText]
      refine List.splitOn_intercalate _ (fun l hl => ?_) (by simp)
      obtain ⟨k, -, rfl⟩ := List.mem_map.1 hl
      exact not_mem_toDigits (by decide) (.inr rfl)
    rw [side?, if_neg hne, hsplit, groups?_toDigits dotted h]

/-! ## The gap -/

/-- before the gap there may be anything without a colon -/
theorem atGap?_append {p : List Char} (hp : ':' ∉ p) (t : List Char) :
    atGap? (p ++ t) = (atGap? t).map fun q => (p ++ q.1, q.2) := by
  induction p with
  | nil => simp
  | cons c p ih =>
    rw [List.mem_cons, not_or] at hp
    rw [List.cons_append, atGap?, if_neg fun h => hp.1 h.1.symm, ih hp.2, Option.map_map]
    rfl

/-- before the gap there may be groups between colons -/
theorem atGap?_groups (groups : List Nat) (t : List Char) :
    atGap? ((groupsText groups).toList ++ t) = (atGap? t).map fun q => ((groupsText groups).toList ++ q.1, q.2) := by
  simp only [toList_groupsText]
  induction groups with
  | nil => simp
  | cons g rest ih =>
    have hg : ':' ∉ Nat.toDigits 16 g := not_mem_toDigits (by decide) (.inr rfl)
    cases rest with
    | nil => simpa using atGap?_append hg t
    | cons k rest =>
      -- the colon behind the first group is followed by a digit of the next one
      have hhead : ([':'].intercalate ((k :: rest).map (Nat.toDigits 16)) ++ t).head? ≠ some ':' := by
        obtain ⟨c, cs, hk⟩ := List.exists_cons_of_ne_nil (Nat.toDigits_ne_nil (n := k) (b := 16))
        have hc : c ≠ ':' := by
          rintro rfl
          have hdigit : ':' ∉ Nat.toDigits 16 k := not_mem_toDigits (by decide) (.inr rfl)
          exact hdigit (hk ▸ .head _)
        cases rest <;> simpa [hk] using hc
      have hsplit : [':'].intercalate ((g :: k :: rest).map (Nat.toDigits 16)) =
          Nat.toDigits 16 g ++ ':' :: [':'].intercalate ((k :: rest).map (Nat.toDigits 16)) := by simp
      rw [hsplit, List.append_assoc, List.cons_append, atGap?_append hg, atGap?, if_neg fun h => hhead h.2, ih,
        Option.map_map, Option.map_map]
      congr 1
      funext q
      simp

theorem atGap?_two (t : List Char) : atGap? (':' :: ':' :: t) = some ([], t) := rfl

/-! ## The groups of an address -/

theorem ipv6Groups_bound (bytes : List UInt8) : ∀ g ∈ ipv6Groups bytes, g < 65536 := by
  fun_induction ipv6Groups bytes with
  | case1 a b rest ih =>
    have ha : a.toNat < 256 := a.toNat_lt
    have hb : b.toNat < 256 := b.toNat_lt
    simpa using ⟨by omega, ih⟩
  | case2 => nofun

/-- the groups of an address hold its bytes -/
theorem flatMap_ipv6Groups {bytes : List UInt8} {n : Nat} (h : bytes.length = 2 * n) :
    (ipv6Groups bytes).length = n ∧ (ipv6Groups bytes).flatMap groupBytes = bytes := by
  fun_induction ipv6Groups bytes generalizing n with
  | case1 a b rest ih =>
    obtain ⟨k, rfl⟩ : ∃ k, n = k + 1 := ⟨n - 1, by simp at h; omega⟩
    obtain ⟨hlen, hbytes⟩ := ih (n := k) (by simp at h; omega)
    refine ⟨by simp [hlen], ?_⟩
    have hb : b.toNat < 256 := b.toNat_lt
    have hhigh : UInt8.ofNat ((a.toNat * 256 + b.toNat) / 256) = a := by
      rw [show (a.toNat * 256 + b.toNat) / 256 = a.toNat by omega]
      exact UInt8.ofNat_toNat
    have hlow : UInt8.ofNat (a.toNat * 256 + b.toNat) = b := by
      rw [← UInt8.toNat_inj]
      simp
    simp [groupBytes, hhigh, hlow, hbytes]
  | case2 bytes hshort =>
    match bytes with
    | [] => exact ⟨by rw [List.length_nil] at h ⊢; omega, rfl⟩
    | [a] => simp at h; omega
    | a :: b :: rest => exact absurd rfl (hshort a b rest)

theorem flatMap_replicate_zero (n : Nat) : (List.replicate n 0).flatMap groupBytes = List.replicate (2 * n) 0 := by
  induction n with
  | zero => rfl
  | succ n ih => simp [List.replicate_succ, Nat.mul_succ, ih, groupBytes]

/-- the run that is left out is a run of zero groups -/
theorem longestZeroRun_zero (groups : List Nat) :
    groups = groups.take (longestZeroRun groups).1 ++ List.replicate (longestZeroRun groups).2 0 ++
      groups.drop ((longestZeroRun groups).1 + (longestZeroRun groups).2) := by
  have hrun : (longestZeroRun groups).2 ≤ zeroRun (groups.drop (longestZeroRun groups).1) := by
    unfold longestZeroRun
    refine List.foldlRecOn (motive := fun best : Nat × Nat => best.2 ≤ zeroRun (groups.drop best.1)) _ _
      (Nat.zero_le _) fun best hbest i _ => ?_
    by_cases hlt : best.2 < zeroRun (groups.drop i)
    · simp [hlt]
    · simpa [hlt] using hbest
  generalize longestZeroRun groups = run at hrun
  obtain ⟨start, n⟩ := run
  have hzero : (groups.drop start).take n = List.replicate n 0 := by
    obtain ⟨t, ht⟩ := List.takeWhile_prefix (l := groups.drop start) fun g => decide (g = 0)
    rw [← ht, List.take_append_of_le_length hrun, List.eq_replicate_iff]
    refine ⟨by rw [List.length_take]; exact Nat.min_eq_left hrun, fun g hg => ?_⟩
    simpa using List.mem_takeWhile_imp (List.mem_of_mem_take hg)
  calc groups = groups.take start ++ groups.drop start := (List.take_append_drop start groups).symm
    _ = groups.take start ++ ((groups.drop start).take n ++ (groups.drop start).drop n) := by rw [List.take_append_drop n]
    _ = groups.take start ++ List.replicate n 0 ++ groups.drop (start + n) := by
      rw [hzero, List.drop_drop, List.append_assoc]

/-! ## IPv6 addresses -/

section

variable {bytes : List UInt8}

/-- four bytes between points are no group -/
theorem group?_ipv4Text {v4 : List UInt8} (h : v4.length = 4) : group? (ipv4Text v4).toList = none := by
  have stops : ∀ (p t : List Char) (n : Nat), List.foldlM (withDigit? 16) n (p ++ '.' :: t) = none := by
    intro p t n
    rw [List.foldlM_append]
    cases List.foldlM (withDigit? 16) n p <;> rfl
  match v4, h with
  | [a, b, c, d], _ =>
    rw [group?]
    split
    · rfl
    · rw [toList_ipv4Text, List.map_cons, List.map_cons, List.intercalate_cons_cons, List.append_assoc,
        List.singleton_append, number?, stops]
      rfl

/-- the last group before an IPv4 address that an IPv6 address stands for -/
def mappedMark : List Char := ['f', 'f', 'f', 'f']

/-- an address that stands for an IPv4 address reads back -/
theorem ipv6?_mapped {v4 : List UInt8} (h : v4.length = 4) :
    ipv6? ("::ffff:" ++ ipv4Text v4).toList = some (List.replicate 10 0 ++ [255, 255] ++ v4) := by
  have htext : ("::ffff:" ++ ipv4Text v4).toList = ':' :: ':' :: (mappedMark ++ ':' :: (ipv4Text v4).toList) := by
    rw [String.toList_append]
    rfl
  have hmark : ':' ∉ mappedMark := by decide
  have hgroup : group? mappedMark = some [255, 255] := by decide
  have hback : side? true (mappedMark ++ ':' :: (ipv4Text v4).toList) = some ([255, 255] ++ v4) := by
    rw [side?, if_neg (by simp), List.splitOn_append_cons_self_of_not_mem hmark,
      List.splitOn_eq_singleton (colon_not_mem_ipv4Text v4), groups?, groups?, group?_ipv4Text h, if_pos rfl,
      ipv4?_text h, hgroup]
    rfl
  have hcount : ([] : List UInt8).length + ([255, 255] ++ v4).length = 6 := by simp [h]
  rw [ipv6?, htext, atGap?_two]
  dsimp only
  rw [side?, if_pos rfl, Option.bind_some, hback, Option.bind_some, hcount, if_pos (by decide), List.nil_append,
    List.append_assoc]

/-- **Sixteen bytes read back.** -/
theorem ipv6?_text (h : bytes.length = 16) : ipv6? (ipv6Text bytes).toList = some bytes := by
  obtain ⟨hlen, hbytes⟩ := flatMap_ipv6Groups (n := 8) h
  have hbound := ipv6Groups_bound bytes
  unfold ipv6Text
  generalize hgs : ipv6Groups bytes = groups at *
  dsimp only
  split
  · rename_i hmapped
    have hfront : bytes.take 12 = List.replicate 10 0 ++ [255, 255] := by
      have htake : (groups.take 6).flatMap groupBytes ++ (groups.drop 6).flatMap groupBytes = bytes := by
        rw [← List.flatMap_append, List.take_append_drop, hbytes]
      rw [hmapped] at htake
      rw [← htake]
      rfl
    rw [ipv6?_mapped (by simp [h]), ← hfront, List.take_append_drop]
  · have hzero := longestZeroRun_zero groups
    generalize longestZeroRun groups = run at hzero
    obtain ⟨start, n⟩ := run
    dsimp only at hzero ⊢
    split
    · rename_i hn
      have hbefore : ∀ g ∈ groups.take start, g < 65536 := fun g hg => hbound g (List.mem_of_mem_take hg)
      have hbehind : ∀ g ∈ groups.drop (start + n), g < 65536 := fun g hg => hbound g (List.mem_of_mem_drop hg)
      have hfront := side?_groupsText false hbefore
      have hback := side?_groupsText true hbehind
      have hgap : atGap? ((groupsText (groups.take start)) ++ "::" ++ (groupsText (groups.drop (start + n)))).toList =
          some ((groupsText (groups.take start)).toList, (groupsText (groups.drop (start + n))).toList) := by
        have hcolons : "::".toList = [':', ':'] := by decide
        rw [String.toList_append, String.toList_append, List.append_assoc, atGap?_groups, hcolons, List.cons_append,
          List.singleton_append, atGap?_two, Option.map_some, List.append_nil]
      have hparts : (groups.take start).flatMap groupBytes ++ List.replicate (2 * n) 0 ++
          (groups.drop (start + n)).flatMap groupBytes = bytes := by
        rw [← flatMap_replicate_zero, ← List.flatMap_append, ← List.flatMap_append, ← hzero, hbytes]
      have hcount := congrArg List.length hparts
      simp only [List.length_append, List.length_replicate, h] at hcount
      rw [ipv6?, hgap]
      dsimp only
      rw [hfront, Option.bind_some, hback, Option.bind_some, if_pos (by omega),
        show 16 - (((groups.take start).flatMap groupBytes).length +
          ((groups.drop (start + n)).flatMap groupBytes).length) = 2 * n by omega, hparts]
    · have hgap : atGap? (groupsText groups).toList = none := by
        have := atGap?_groups groups []
        rwa [List.append_nil] at this
      rw [ipv6?, hgap]
      dsimp only
      rw [side?_groupsText true hbound, hbytes]
      simp [h]

theorem colon_mem_ipv6Text (h : bytes.length = 16) : ':' ∈ (ipv6Text bytes).toList := by
  obtain ⟨hlen, -⟩ := flatMap_ipv6Groups (n := 8) h
  unfold ipv6Text
  generalize ipv6Groups bytes = groups at hlen
  dsimp only
  split
  · simp
  · split
    · simp
    · rw [toList_groupsText]
      match groups, hlen with
      | a :: b :: rest, _ => simp

end

/-! ## The result -/

/-- the IPv6 address that stands for an IPv4 address -/
def ipv4Mapped (v4 : List UInt8) : List UInt8 := List.replicate 10 0 ++ [255, 255] ++ v4

/-- the IPv6 address that has an IPv4 address behind zeros -/
def ipv4Compatible (v4 : List UInt8) : List UInt8 := List.replicate 12 0 ++ v4

theorem entryOfAddress?_eq_some {b : List UInt8} {e : String} (h : entryOfAddress? b = some e) :
    ∃ s, e = "IP:" ++ s ∧ address? s = some b := by
  unfold entryOfAddress? at h
  split at h
  · rename_i hlen
    refine ⟨ipv4Text b, (Option.some.inj h).symm, ?_⟩
    rw [address?, if_neg (colon_not_mem_ipv4Text b), ipv4?_text hlen]
  · split at h
    · rename_i hlen
      refine ⟨ipv6Text b, (Option.some.inj h).symm, ?_⟩
      rw [address?, if_pos (colon_mem_ipv6Text hlen), ipv6?_text hlen]
    · cases h

theorem entryOfAddress?_isSome (b : List UInt8) : (entryOfAddress? b).isSome ↔ b.length = 4 ∨ b.length = 16 := by
  unfold entryOfAddress?
  split
  · simp [*]
  · split <;> simp [*]

theorem entryOfAddress?_injective {b c : List UInt8} {e : String} (hb : entryOfAddress? b = some e)
    (hc : entryOfAddress? c = some e) : b = c := by
  obtain ⟨s, rfl, hs⟩ := entryOfAddress?_eq_some hb
  obtain ⟨t, ht, hr⟩ := entryOfAddress?_eq_some hc
  rw [String.append_right_inj] at ht
  subst ht
  exact Option.some.inj (hs.symm.trans hr)

/-- **The entries of addresses are unambiguous.** A byte string has an entry exactly if it has four or sixteen bytes. Then
the text behind the mark reads back as the very same bytes, so that no other byte string has this entry; in particular an
IPv4 address and the two IPv6 addresses that are made of it have three different entries. -/
theorem addresses_unambiguous (b : List UInt8) :
    ((entryOfAddress? b).isSome ↔ b.length = 4 ∨ b.length = 16) ∧
      (∀ e, entryOfAddress? b = some e → ∃ s, e = "IP:" ++ s ∧ address? s = some b) ∧
      (∀ c e, entryOfAddress? b = some e → entryOfAddress? c = some e → c = b) ∧
      (b.length = 4 → [entryOfAddress? b, entryOfAddress? (ipv4Mapped b), entryOfAddress? (ipv4Compatible b)].Nodup) := by
  refine ⟨entryOfAddress?_isSome b, fun e => entryOfAddress?_eq_some, fun c e hb hc => entryOfAddress?_injective hc hb,
    fun hlen => ?_⟩
  have differs : ∀ {c d : List UInt8}, c ≠ d → (c.length = 4 ∨ c.length = 16) → entryOfAddress? c ≠ entryOfAddress? d := by
    intro c d hne hc heq
    obtain ⟨e, he⟩ := Option.isSome_iff_exists.1 ((entryOfAddress?_isSome c).2 hc)
    exact hne (entryOfAddress?_injective he (heq ▸ he))
  have hmapped : b ≠ ipv4Mapped b := fun h => by simpa [ipv4Mapped, hlen] using congrArg List.length h
  have hcompatible : b ≠ ipv4Compatible b := fun h => by simpa [ipv4Compatible, hlen] using congrArg List.length h
  have hapart : ipv4Mapped b ≠ ipv4Compatible b := fun h => by simp [ipv4Mapped, ipv4Compatible] at h
  simp only [List.nodup_cons, List.mem_cons, List.not_mem_nil, or_false, not_or, not_false_eq_true, List.nodup_nil, and_true]
  exact ⟨⟨differs hmapped (.inl hlen), differs hcompatible (.inl hlen)⟩,
    differs hapart (.inr (by simp [ipv4Mapped, hlen]))⟩

end SecureEndpoint.Certificate
