/-
The blocks of a text file: a first line with a name, an optional header, base64, and a last line with the same name.

Text is read in pieces of at most 254 bytes that end at a line feed. What is blank at the end of a piece is dropped, where
everything up to the space and everything from 0x80 on is blank. An empty line ends the header; lines without a header
have the form of a header until the block ends. A block that cannot be read is broken: reading goes on behind it.
-/
import SecureEndpoint.Pem.Base64
import SecureEndpoint.Pem.Section

namespace SecureEndpoint.Pem

open Der (Bytes)

/-- a block: its name, its header and its contents -/
structure Block where
  label : Bytes
  header : Bytes
  contents : Bytes
  deriving DecidableEq, Repr

/-- the longest piece -/
def pieceLength : Nat := 254

/-- the pieces of a text; `room` bytes still fit into the piece that has begun -/
def piecesOf (room : Nat) (piece : Bytes) : Bytes → List Bytes
  | [] => if piece = [] then [] else [piece.reverse]
  | b :: rest =>
    if b = 10 || room ≤ 1 then (b :: piece).reverse :: piecesOf pieceLength [] rest
    else piecesOf (room - 1) (b :: piece) rest

/-- the pieces of a text -/
def pieces (s : Bytes) : List Bytes := piecesOf pieceLength [] s

/-- a piece without what is blank at its end -/
def trimmed (piece : Bytes) : Bytes := (piece.reverse.dropWhile fun b => b ≤ 32 || 128 ≤ b).reverse

/-- the mark of the encoding in front of a text -/
def encodingMark : Bytes := [0xef, 0xbb, 0xbf]

/-- a piece without the mark of the encoding -/
def withoutMark (piece : Bytes) : Bytes :=
  if 3 < piece.length && encodingMark.isPrefixOf piece then piece.drop 3 else piece

/-- a line as it is kept: with its end, but nothing from a NUL on -/
def kept (line : Bytes) : Bytes := (line ++ [10]).takeWhile (· ≠ 0)

/-- the name in a line that begins a block -/
def blockLabel? (line : Bytes) : Option Bytes :=
  if beginMark.isPrefixOf line && hyphens.isSuffixOf (line.drop (beginMark.length - 1)) then
    some (((line.drop beginMark.length).take (line.length - beginMark.length - hyphens.length)).takeWhile (· ≠ 0))
  else none

/-- what is known about the lines read so far -/
inductive Phase where
  /-- they may be a header or contents -/
  | unsure
  /-- they belong to the header -/
  | header
  /-- the header is over -/
  | body
  deriving DecidableEq, Repr

/-- a block that is being read -/
structure Progress where
  phase : Phase := .unsure
  header : Bytes := []
  body : Bytes := []
  /-- the last piece did not end its line -/
  cut : Bool := false
  /-- the last line was short, so that the block has to end -/
  short : Bool := false

/-- a block without a header is all contents -/
def Progress.block? (p : Progress) (label : Bytes) : Option Block :=
  let (header, text) := if p.phase = .unsure then ([], p.header) else (p.header, p.body)
  (decodeRequired text).map fun contents => { label, header, contents }

/-- reads the lines of a block up to its end, or up to what breaks it -/
def readBlock (label : Bytes) (p : Progress) : List Bytes → Option Block × List Bytes
  | [] => (none, [])
  | piece :: rest =>
    let phase := if p.phase = .unsure && piece.contains 58 then .header else p.phase
    let cut := piece.length = pieceLength && piece.getLast? ≠ some 10
    let line := trimmed piece
    if line = [] then
      if p.cut then readBlock label { p with phase, cut } rest
      else if phase = .body then (none, rest)
      else readBlock label { p with phase := .body, cut } rest
    else if endMark.isPrefixOf line then
      if line = endMark ++ label ++ hyphens then ({ p with phase }.block? label, rest)
      else (none, rest)
    else if p.short then (none, rest)
    else if phase = .body then
      if 64 < line.length then (none, rest)
      else readBlock label { p with phase, cut, body := p.body ++ kept line, short := line.length < 64 } rest
    else readBlock label { p with phase, cut, header := p.header ++ kept line } rest

theorem readBlock_length (label : Bytes) (p : Progress) (pieces : List Bytes) :
    (readBlock label p pieces).2.length ≤ pieces.length := by
  fun_induction readBlock label p pieces <;> simp_all <;> omega

/-- finds the next block, readable or not, and what follows it; `front` stands in front of the first line -/
def nextBlock (front : Bool) : List Bytes → Option (Option Block × List Bytes)
  | [] => none
  | piece :: rest =>
    match blockLabel? (trimmed (if front then withoutMark piece else piece)) with
    | some label => some (readBlock label {} rest)
    | none => nextBlock false rest

theorem nextBlock_length {front : Bool} {pieces rest : List Bytes} {b : Option Block}
    (h : nextBlock front pieces = some (b, rest)) : rest.length < pieces.length := by
  induction pieces generalizing front with
  | nil => cases h
  | cons piece more ih =>
    unfold nextBlock at h
    split at h
    · rename_i label _
      have := readBlock_length label {} more
      rw [Option.some.inj h] at this
      simp only [List.length_cons] at this ⊢
      omega
    · have := ih h
      simp only [List.length_cons]
      omega

/-- all blocks of the pieces, where none stands for a broken one -/
def blocksOf (pieces : List Bytes) : List (Option Block) :=
  match h : nextBlock true pieces with
  | none => []
  | some (b, rest) =>
    have := nextBlock_length h
    b :: blocksOf rest
termination_by pieces.length

/-- all blocks of a file, where none stands for a broken one -/
def blocks (s : Bytes) : List (Option Block) := blocksOf (pieces s)

end SecureEndpoint.Pem
