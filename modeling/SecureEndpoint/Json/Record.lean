/-
Reading a flat record of settings from a JSON document.

A `Shape` names the fields of the record in order, each with the kind of its value and its default. `Shape.read` takes a
document that is an object, whose members may come in any order, or an array, which gives the fields in their order and
may leave off the last ones. Members with unknown names are passed over, known ones may occur once, and a field without
a default must be there. A text field may be null.

A complaint about the meaning of the document (`missing`, `duplicate`, `too short`) is placed where the reader stands
once it has tried to close the object or the array.
-/
import SecureEndpoint.Json.Scan

namespace SecureEndpoint.Json

/-! ## Passing over a value -/

/-- what encloses a value -/
inductive Frame where
  | list
  | object
  deriving DecidableEq, Repr

/-- the byte that closes a frame -/
def Frame.closing : Frame → UInt8
  | .list => 93
  | .object => 125

/-- the fault of a text that ends inside a frame -/
def Frame.eof : Frame → Cause
  | .list => .eofInList
  | .object => .eofInObject

/-- the fault of a value that is followed neither by a comma nor by the end of the frame -/
def Frame.expected : Frame → Cause
  | .list => .expectedListCommaOrEnd
  | .object => .expectedObjectCommaOrEnd

/-- passes over the colon of a member -/
def colon (s : Bytes) : Except Fault Bytes :=
  match skipBlanks s with
  | [] => Fault.next .eofInObject []
  | b :: rest => if b = 58 then .ok rest else Fault.next .expectedColon (b :: rest)

theorem colon_length_lt {s r : Bytes} (h : colon s = .ok r) : r.length < s.length := by
  unfold colon at h
  have h1 := skipBlanks_length_le s
  split at h
  · cases h
  · rename_i e
    split at h
    · cases h; simp [e] at h1; omega
    · cases h

/-- passes over the name of a member and the colon; in a list there is none -/
def skipName (f : Frame) (s : Bytes) : Except Fault Bytes :=
  match f with
  | .list => .ok s
  | .object =>
    match skipBlanks s with
    | [] => Fault.next .eofInObject []
    | b :: rest =>
      if b ≠ 34 then Fault.next .keyMustBeString (b :: rest) else
      match skipString rest with
      | .error e => .error e
      | .ok rest => colon rest

theorem skipName_length_le {f : Frame} {s r : Bytes} (h : skipName f s = .ok r) : r.length ≤ s.length := by
  unfold skipName at h
  split at h
  · cases h; simp
  · have h1 := skipBlanks_length_le s
    split at h
    · cases h
    · rename_i e
      split at h
      · cases h
      · split at h
        · cases h
        · rename_i t e2
          have h2 := skipString_length_lt e2
          have h3 := colon_length_lt h
          simp [e] at h1; omega

/-- passes over a value that is not a list or an object; none where one of these begins -/
def skipScalar (s : Bytes) : Except Fault (Option Bytes) :=
  match s with
  | [] => Fault.next .eofInValue []
  | b :: rest =>
    if b = 110 then (word nullTail rest).map some
    else if b = 116 then (word trueTail rest).map some
    else if b = 102 then (word falseTail rest).map some
    else if b = 45 then (skipNumber rest).map some
    else if isDigit b then (skipNumber s).map some
    else if b = 34 then (skipString rest).map some
    else if b = 91 || b = 123 then .ok none
    else Fault.next .expectedValue s

theorem skipScalar_length_lt {s r : Bytes} (h : skipScalar s = .ok (some r)) : r.length < s.length := by
  have map_some : ∀ {x : Except Fault Bytes}, x.map some = .ok (some r) → x = .ok r := by
    intro x h
    cases x with
    | error => cases h
    | ok v => cases h; rfl
  unfold skipScalar at h
  split at h
  · cases h
  · repeat' split at h
    · have := word_length_le (map_some h); simp; omega
    · have := word_length_le (map_some h); simp; omega
    · have := word_length_le (map_some h); simp; omega
    · have := skipNumber_length_lt (map_some h); simp; omega
    · exact skipNumber_length_lt (map_some h)
    · have := skipString_length_lt (map_some h); simp; omega
    · cases h
    · cases h

/-- where the passing over of nested values stands -/
inductive SkipPoint where
  /-- a frame was opened -/
  | opened
  /-- a value comes next -/
  | value
  /-- a value has ended -/
  | ended
  deriving DecidableEq, Repr

/-- passes over a value inside the given frames, the innermost one first -/
def skipNested (p : SkipPoint) (frames : List Frame) (s : Bytes) : Except Fault Bytes :=
  match p with
  | .value =>
    match h : skipScalar (skipBlanks s) with
    | .error e => .error e
    | .ok (some rest) =>
      have := skipScalar_length_lt h
      have := skipBlanks_length_le s
      skipNested .ended frames rest
    | .ok none =>
      match h : skipBlanks s with
      | [] => .ok []
      | b :: rest =>
        have : rest.length < s.length := by have := skipBlanks_length_le s; simp [h] at this; omega
        skipNested .opened ((if b = 91 then .list else .object) :: frames) rest
  | .opened =>
    match frames with
    | [] => .ok s
    | f :: outer =>
      match h : skipBlanks s with
      | [] => Fault.next f.eof []
      | b :: rest =>
        have : rest.length < s.length := by have := skipBlanks_length_le s; simp [h] at this; omega
        if b = f.closing then skipNested .ended outer rest
        else
          match hn : skipName f (b :: rest) with
          | .error e => .error e
          | .ok r =>
            have : r.length ≤ rest.length + 1 := by simpa using skipName_length_le hn
            skipNested .value (f :: outer) r
  | .ended =>
    match frames with
    | [] => .ok s
    | f :: outer =>
      match h : skipBlanks s with
      | [] => Fault.next f.eof []
      | b :: rest =>
        have : rest.length < s.length := by have := skipBlanks_length_le s; simp [h] at this; omega
        if b = f.closing then skipNested .ended outer rest
        else if b = 44 then
          match hn : skipName f rest with
          | .error e => .error e
          | .ok r =>
            have := skipName_length_le hn
            skipNested .value (f :: outer) r
        else Fault.next f.expected (b :: rest)
termination_by (s.length, if p = .opened then 1 else 0)
decreasing_by
  all_goals simp only [Prod.lex_def]
  all_goals simp
  all_goals omega

/-- passes over a value of any kind and any depth -/
def skipValue (s : Bytes) : Except Fault Bytes := skipNested .value [] s

/-! ## Values of fields -/

/-- the value of a field -/
inductive Scalar where
  | count (n : Nat)
  | flag (b : Bool)
  | text (s : String)
  | null
  deriving DecidableEq, Repr

/-- the kind of a field -/
inductive Kind where
  /-- a natural number of 64 bits -/
  | count
  | flag
  /-- a text or null; what it is called when something else is found -/
  | text (expected : String)
  deriving DecidableEq, Repr

/-- what a kind is called when something else is found -/
def Kind.expected : Kind → String
  | .count => "usize"
  | .flag => "a boolean"
  | .text e => e

/-- describes the value at the front: what it is, and the bytes behind it; lists and objects are not entered -/
def describe (s : Bytes) : Except Fault (Found × Bytes) :=
  match s with
  | [] => Fault.next .eofInValue []
  | b :: rest =>
    if b = 110 then (word nullTail rest).map fun r => (.null, r)
    else if b = 116 then (word trueTail rest).map fun r => (.bool true, r)
    else if b = 102 then (word falseTail rest).map fun r => (.bool false, r)
    else if b = 45 then (number false rest).map fun p => (.number p.1, p.2)
    else if isDigit b then (number true s).map fun p => (.number p.1, p.2)
    else if b = 34 then (stringTail [] rest).map fun p => (.text (textOf p.1), p.2)
    else if b = 91 then .ok (.sequence, s)
    else if b = 123 then .ok (.map, s)
    else Fault.next .expectedValue s

/-- the value as one of the kind; where it is none, what is wrong with it -/
def Kind.accept (k : Kind) (found : Found) : Except Cause Scalar :=
  match k, found with
  | .count, .number (.natural n) => .ok (.count n)
  | .count, .number (.negative i) => .error (.wrongValue (.number (.negative i)) k.expected)
  | .flag, .bool b => .ok (.flag b)
  | .text _, .text s => .ok (.text s)
  | .text _, .null => .ok .null
  | _, found => .error (.wrongType found k.expected)

/-- reads the value of a field -/
def Kind.read (k : Kind) (s : Bytes) : Except Fault (Scalar × Bytes) :=
  match describe (skipBlanks s) with
  | .error f => .error f
  | .ok (found, rest) =>
    match k.accept found with
    | .ok v => .ok (v, rest)
    | .error c => Fault.here c rest

/-! ## Records -/

/-- a field of a record -/
structure Field where
  name : String
  kind : Kind
  /-- the value of a field that is not given -/
  default : Option Scalar
  deriving DecidableEq, Repr

/-- the fields of a record, in order -/
structure Shape where
  title : String
  fields : List Field
  deriving DecidableEq, Repr

/-- why a record could not be read -/
inductive Stop where
  | fault (f : Fault)
  /-- a complaint about the meaning, raised with these bytes left -/
  | complaint (c : Cause) (rest : Bytes)

/-- a located fault as a reason to stop -/
def Stop.ofFault {α : Type} : Except Fault α → Except Stop α
  | .ok a => .ok a
  | .error f => .error (.fault f)

/-- the values given so far, by the order of the fields -/
abbrev Given := List (Option Scalar)

namespace Shape

/-- the field of a name, with its place among the fields -/
def lookup? (shape : Shape) (name : Bytes) : Option (Field × Nat) :=
  shape.fields.zipIdx.find? fun p => p.1.name.toUTF8.toList == name

/-- nothing was given for any field -/
def blank (shape : Shape) : Given := shape.fields.map fun _ => none

/-- the description of the whole array, for one that is too short -/
def arrayTitle (shape : Shape) : String :=
  "struct " ++ shape.title ++ " with " ++ toString shape.fields.length ++ " elements"

/-- the bytes of the next element; none at the end of the array -/
def nextElement (first : Bool) (s : Bytes) : Except Fault (Option Bytes) :=
  match skipBlanks s with
  | [] => Fault.next .eofInList []
  | b :: rest =>
    if b = 93 then .ok none
    else if first then .ok (some (b :: rest))
    else if b ≠ 44 then Fault.next .expectedListCommaOrEnd (b :: rest)
    else match skipBlanks rest with
      | [] => Fault.next .eofInValue []
      | c :: rest => if c = 93 then Fault.next .trailingComma (c :: rest) else .ok (some (c :: rest))

/-- reads the elements of an array as the fields still to come; the bytes left are those before the closing bracket -/
def elements (shape : Shape) (taken : List Scalar) (fields : List Field) (s : Bytes) :
    Except Stop (List Scalar × Bytes) :=
  match fields with
  | [] => .ok (taken, s)
  | f :: more =>
    match nextElement taken.isEmpty s with
    | .error e => .error (.fault e)
    | .ok (some r) =>
      match f.kind.read r with
      | .error e => .error (.fault e)
      | .ok (v, rest) => elements shape (taken ++ [v]) more rest
    | .ok none =>
      match f.default with
      | some v => elements shape (taken ++ [v]) more s
      | none => .error (.complaint (.tooShort taken.length shape.arrayTitle) (skipBlanks s))

/-- fills the fields that are not given -/
def fill (shape : Shape) (given : Given) : Except Cause (List Scalar) :=
  (shape.fields.zip given).mapM fun p =>
    match p.2, p.1.default with
    | some v, _ => .ok v
    | none, some v => .ok v
    | none, none => .error (.missingField p.1.name)

/-- reads the colon of a member and its value into the fields; the value of an unknown member is passed over -/
def member (shape : Shape) (given : Given) (name : Bytes) (s : Bytes) : Except Fault (Given × Bytes) :=
  match colon s with
  | .error e => .error e
  | .ok s =>
    match shape.lookup? name with
    | none => (skipValue s).map fun rest => (given, rest)
    | some (f, i) => (f.kind.read s).map fun p => (given.set i (some p.1), p.2)

/-- the name of the next member, with the bytes behind it; none at the end of the object -/
def nextName (first : Bool) (s : Bytes) : Except Fault (Option (Bytes × Bytes)) :=
  match skipBlanks s with
  | [] => Fault.next .eofInObject []
  | b :: rest =>
    if b = 125 then .ok none
    else if !first && b ≠ 44 then Fault.next .expectedObjectCommaOrEnd (b :: rest)
    else
      match (if first then b :: rest else skipBlanks rest) with
      | [] => Fault.next .eofInValue []
      | c :: rest =>
        if c = 34 then (stringTail [] rest).map some
        else if c = 125 then Fault.next .trailingComma (c :: rest)
        else Fault.next .keyMustBeString (c :: rest)

/-- a known name that was given before -/
def duplicate? (shape : Shape) (given : Given) (name : Bytes) : Option String :=
  match shape.lookup? name with
  | some (f, i) => if (given[i]?.getD none).isSome then some f.name else none
  | none => none

end Shape

/-! ## What is left is shorter -/

theorem Stop.ofFault_ok {α : Type} {x : Except Fault α} {a : α} (h : Stop.ofFault x = .ok a) : x = .ok a := by
  cases x with
  | ok v => cases h; rfl
  | error e => cases h

theorem map_eq_ok {α β : Type} {f : α → β} {x : Except Fault α} {b : β} (h : x.map f = .ok b) :
    ∃ a, x = .ok a ∧ f a = b := by
  cases x with
  | error => cases h
  | ok v => cases h; exact ⟨v, rfl, rfl⟩

theorem describe_length_le {s r : Bytes} {v : Found} (h : describe s = .ok (v, r)) : r.length ≤ s.length := by
  unfold describe at h
  split at h
  · cases h
  · repeat' split at h
    · obtain ⟨a, ha, e⟩ := map_eq_ok h; cases e; have := word_length_le ha; simp; omega
    · obtain ⟨a, ha, e⟩ := map_eq_ok h; cases e; have := word_length_le ha; simp; omega
    · obtain ⟨a, ha, e⟩ := map_eq_ok h; cases e; have := word_length_le ha; simp; omega
    · obtain ⟨⟨a, b⟩, ha, e⟩ := map_eq_ok h; cases e; have := number_length_lt ha; simp; omega
    · obtain ⟨⟨a, b⟩, ha, e⟩ := map_eq_ok h; cases e; have := number_length_lt ha; simp at this ⊢; omega
    · obtain ⟨⟨a, b⟩, ha, e⟩ := map_eq_ok h; cases e; have := stringTail_length_lt ha; simp; omega
    · cases h; simp
    · cases h; simp
    · cases h

theorem Kind.read_length_le {k : Kind} {s r : Bytes} {v : Scalar} (h : k.read s = .ok (v, r)) :
    r.length ≤ s.length := by
  unfold Kind.read at h
  have h1 := skipBlanks_length_le s
  split at h
  · cases h
  · rename_i e
    have h2 := describe_length_le e
    split at h
    · cases h; omega
    · cases h

theorem skipNested_length_le {p : SkipPoint} {frames : List Frame} {s r : Bytes}
    (h : skipNested p frames s = .ok r) : r.length ≤ s.length := by
  fun_induction skipNested p frames s with
  | case1 => cases h
  | case2 _ _ _ _ _ _ ih => have := ih h; omega
  | case3 => cases h; simp
  | case4 _ _ _ _ _ _ _ ih => have := ih h; omega
  | case5 => cases h; simp
  | case6 => cases h
  | case7 _ _ _ _ _ _ ih => have := ih h; omega
  | case8 => cases h
  | case9 _ _ _ _ _ _ _ _ _ _ _ ih => have := ih h; omega
  | case10 => cases h; simp
  | case11 => cases h
  | case12 _ _ _ _ _ _ ih => have := ih h; omega
  | case13 => cases h
  | case14 _ _ _ _ _ _ _ _ _ _ ih => have := ih h; omega
  | case15 => cases h

theorem skipValue_length_le {s r : Bytes} (h : skipValue s = .ok r) : r.length ≤ s.length := skipNested_length_le h

namespace Shape

theorem nextName_length_lt {first : Bool} {s n r : Bytes} (h : nextName first s = .ok (some (n, r))) :
    r.length < s.length := by
  unfold nextName at h
  have h1 := skipBlanks_length_le s
  split at h
  · cases h
  · rename_i b rest e
    rw [e] at h1
    have h2 := skipBlanks_length_le rest
    split at h
    · cases h
    · split at h
      · cases h
      · split at h
        · cases h
        · rename_i c t e2
          have h3 : (c :: t).length ≤ (b :: rest).length := by
            rw [← e2]; split
            · simp
            · simp; omega
          simp at h1 h3
          split at h
          · obtain ⟨⟨x, y⟩, hx, e3⟩ := map_eq_ok h
            cases e3
            have := stringTail_length_lt hx
            omega
          · split at h <;> cases h

theorem member_length_le {shape : Shape} {given given' : Given} {n s r : Bytes}
    (h : shape.member given n s = .ok (given', r)) : r.length ≤ s.length := by
  unfold member at h
  split at h
  · cases h
  · rename_i e
    have h1 := colon_length_lt e
    split at h
    · obtain ⟨a, ha, e⟩ := map_eq_ok h
      cases e
      have := skipValue_length_le ha; omega
    · obtain ⟨⟨a, b⟩, ha, e⟩ := map_eq_ok h
      cases e
      have := Kind.read_length_le ha
      exact Nat.le_trans this (by omega)

end Shape

/-! ## Whole documents -/

/-- closes an array or an object: where the reader stands afterwards, and what is wrong there -/
def Frame.close (f : Frame) (s : Bytes) : Bytes × Option Fault :=
  match skipBlanks s with
  | [] => ([], some ⟨f.eof, 0⟩)
  | b :: rest =>
    if b = f.closing then (rest, none)
    else if b = 44 then
      match f with
      | .list =>
        let after := skipBlanks rest
        (after, some ⟨if after.head? = some 93 then .trailingComma else .trailingCharacters, after.length - 1⟩)
      | .object => (b :: rest, some ⟨.trailingComma, rest.length⟩)
    else (b :: rest, some ⟨.trailingCharacters, rest.length⟩)

/-- closes an array or an object that was read, or places the complaint that stopped the reading -/
def Frame.finish {α : Type} (f : Frame) (r : Except Stop (α × Bytes)) : Except Fault (α × Bytes) :=
  match r with
  | .error (.fault e) => .error e
  | .error (.complaint c rest) => .error ⟨c, (f.close rest).1.length⟩
  | .ok (v, rest) =>
    match f.close rest with
    | (_, some e) => .error e
    | (after, none) => .ok (v, after)

namespace Shape

/-- reads the members of an object; the bytes left are those before the closing brace -/
def members (shape : Shape) (given : Given) (first : Bool) (s : Bytes) : Except Stop (List Scalar × Bytes) :=
  match hn : nextName first s with
  | .error e => .error (.fault e)
  | .ok none =>
    match shape.fill given with
    | .ok vs => .ok (vs, skipBlanks s)
    | .error c => .error (.complaint c (skipBlanks s))
  | .ok (some (name, rest)) =>
    match shape.duplicate? given name with
    | some n => .error (.complaint (.duplicateField n) rest)
    | none =>
      match hm : shape.member given name rest with
      | .error e => .error (.fault e)
      | .ok (given, after) =>
        have := nextName_length_lt hn
        have := member_length_le hm
        members shape given false after
termination_by s.length

/-- reads a record from the front of a document -/
def readFront (shape : Shape) (s : Bytes) : Except Fault (List Scalar × Bytes) :=
  match skipBlanks s with
  | [] => Fault.next .eofInValue []
  | b :: rest =>
    if b = 91 then Frame.list.finish (shape.elements [] shape.fields rest)
    else if b = 123 then Frame.object.finish (shape.members shape.blank true rest)
    else match describe (b :: rest) with
      | .error e => .error e
      | .ok (found, after) => Fault.here (.wrongType found ("struct " ++ shape.title)) after

/-- reads a record from a whole document: the values of the fields in order -/
def read (shape : Shape) (s : Bytes) : Except Fault (List Scalar) :=
  match shape.readFront s with
  | .error e => .error e
  | .ok (vs, rest) =>
    match skipBlanks rest with
    | [] => .ok vs
    | b :: rest => Fault.next .trailingCharacters (b :: rest)

/-- reads a record from a text, with the wording of what is wrong -/
def parse (shape : Shape) (text : String) : Except String (List Scalar) :=
  let s := text.toUTF8.toList
  (shape.read s).mapError (Fault.message s)

end Shape

end SecureEndpoint.Json
