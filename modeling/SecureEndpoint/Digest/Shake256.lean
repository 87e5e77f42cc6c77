/-
Any number of digest bytes of a message, from a state of 25 words.

The state is a square of five by five words. A message is added to it in blocks of 136 bytes, and digest bytes are taken
from it in the same way; after every block the state is mixed in 24 rounds.
-/

namespace SecureEndpoint.Digest

/-- a word turned to the left -/
def turnLeft (w : UInt64) (n : Nat) : UInt64 :=
  if n % 64 = 0 then w else (w <<< (n % 64).toUInt64) ||| (w >>> (64 - n % 64).toUInt64)

/-- the constants of the rounds -/
def mixConstants : List UInt64 := [
  0x0000000000000001, 0x0000000000008082, 0x800000000000808a, 0x8000000080008000, 0x000000000000808b,
  0x0000000080000001, 0x8000000080008081, 0x8000000000008009, 0x000000000000008a, 0x0000000000000088,
  0x0000000080008009, 0x000000008000000a, 0x000000008000808b, 0x800000000000008b, 0x8000000000008089,
  0x8000000000008003, 0x8000000000008002, 0x8000000000000080, 0x000000000000800a, 0x800000008000000a,
  0x8000000080008081, 0x8000000000008080, 0x0000000080000001, 0x8000000080008008]

/-- how far the word in column `x` and row `y` is turned, at index `x + 5 * y` -/
def turns : List Nat :=
  [0, 1, 62, 28, 27, 36, 44, 6, 55, 20, 3, 10, 43, 25, 39, 41, 45, 15, 21, 8, 18, 2, 61, 56, 14]

/-- one round -/
def mixRound (state : Array UInt64) (constant : UInt64) : Array UInt64 :=
  let entry (a : Array UInt64) (x y : Nat) : UInt64 := a.getD (x % 5 + 5 * (y % 5)) 0
  let column := (List.range 5).map fun x =>
    entry state x 0 ^^^ entry state x 1 ^^^ entry state x 2 ^^^ entry state x 3 ^^^ entry state x 4
  let parity (x : Nat) : UInt64 := column.getD (x % 5) 0
  let even := ((List.range 25).map fun i =>
    state.getD i 0 ^^^ parity (i % 5 + 4) ^^^ turnLeft (parity (i % 5 + 1)) 1).toArray
  let moved := ((List.range 25).map fun i =>
    let x := (i % 5 + 3 * (i / 5)) % 5
    let y := i % 5
    turnLeft (entry even x y) (turns.getD (x + 5 * y) 0)).toArray
  let mixed := ((List.range 25).map fun i =>
    let x := i % 5
    let y := i / 5
    entry moved x y ^^^ (~~~(entry moved (x + 1) y) &&& entry moved (x + 2) y)).toArray
  mixed.modify 0 (· ^^^ constant)

/-- the state mixed in all rounds -/
def mix (state : Array UInt64) : Array UInt64 := mixConstants.foldl mixRound state

/-- the number of bytes that are added or taken at once -/
def blockLength : Nat := 136

/-- the state with a block added -/
def addBlock (state : Array UInt64) (block : List UInt8) : Array UInt64 :=
  ((List.range 25).map fun i =>
    state.getD i 0 ^^^ ((block.drop (8 * i)).take 8).foldr (fun b (w : UInt64) => w <<< 8 ||| b.toUInt64) 0).toArray

/-- a message filled up to whole blocks: five one bits, zeros, a one bit -/
def filledBlocks (s : List UInt8) : List UInt8 :=
  let free := blockLength - s.length % blockLength
  if free = 1 then s ++ [0x9f] else s ++ 0x1f :: List.replicate (free - 2) 0 ++ [0x80]

/-- the state behind `blocks` blocks -/
def takeIn (state : Array UInt64) (s : List UInt8) : Nat → Array UInt64
  | 0 => state
  | blocks + 1 => takeIn (mix (addBlock state (s.take blockLength))) (s.drop blockLength) blocks

/-- `size` digest bytes of a message, at most one block -/
def shake256 (size : Nat) (s : List UInt8) : List UInt8 :=
  let message := filledBlocks s
  let state := takeIn (Array.replicate 25 0) message (message.length / blockLength)
  (state.toList.flatMap fun w => (List.range 8).map fun i => (w >>> (8 * i).toUInt64).toUInt8).take (min size blockLength)

end SecureEndpoint.Digest
