/-
The 512-bit digest of a message.

The message is filled up to whole blocks of 128 bytes with a one bit, zeros and its length in bits. Each block changes a
state of eight words in eighty rounds. The start of the state are the first 64 bits behind the point of the square roots
of the first eight primes, and the constants of the rounds those of the cube roots of the first eighty.
-/

namespace SecureEndpoint.Digest

/-- the largest number between `low` and `low + 2 ^ steps` whose `k`-th power is at most `n`, if that of `low` is -/
def rootBetween (k n low : Nat) : Nat → Nat
  | 0 => low
  | steps + 1 =>
    let middle := low + Nat.pow 2 steps
    rootBetween k n (if Nat.pow middle k ≤ n then middle else low) steps

/-- the first 64 bits behind the point of the `k`-th root of `n`, which is below 512 -/
def rootWord (k n : Nat) : UInt64 := UInt64.ofNat (rootBetween k (n * Nat.pow 2 (64 * k)) 0 73 % Nat.pow 2 64)

/-- the primes below 410, of which there are eighty -/
def firstPrimes : List Nat :=
  (List.range 410).filter fun n => 2 ≤ n && (List.range n).all fun d => d < 2 || n % d != 0

/-- the state at the start -/
def startWords : Array UInt64 := ((firstPrimes.take 8).map (rootWord 2)).toArray

/-- the constants of the rounds -/
def roundWords : Array UInt64 := (firstPrimes.map (rootWord 3)).toArray

/-- a word turned to the right -/
def turnRight (w : UInt64) (n : UInt64) : UInt64 := (w >>> n) ||| (w <<< (64 - n))

/-- a block as words, continued to one word for every round -/
def schedule (block : List UInt8) : Array UInt64 :=
  let first := (List.range 16).map fun i =>
    ((block.drop (8 * i)).take 8).foldl (fun (w : UInt64) b => w <<< 8 ||| b.toUInt64) 0
  (List.range 64).foldl (fun (w : Array UInt64) i =>
    let a := w.getD (i + 1) 0
    let b := w.getD (i + 14) 0
    let s := turnRight a 1 ^^^ turnRight a 8 ^^^ (a >>> 7)
    let t := turnRight b 19 ^^^ turnRight b 61 ^^^ (b >>> 6)
    w.push (w.getD i 0 + s + w.getD (i + 9) 0 + t)) first.toArray

/-- one round -/
def round (v : Array UInt64) (word constant : UInt64) : Array UInt64 :=
  match v.toList with
  | [a, b, c, d, e, f, g, h] =>
    let s := turnRight e 14 ^^^ turnRight e 18 ^^^ turnRight e 41
    let choice := (e &&& f) ^^^ (~~~e &&& g)
    let t := h + s + choice + constant + word
    let u := turnRight a 28 ^^^ turnRight a 34 ^^^ turnRight a 39
    let majority := (a &&& b) ^^^ (a &&& c) ^^^ (b &&& c)
    #[t + u + majority, a, b, c, d + t, e, f, g]
  | _ => v

/-- the state behind a block -/
def absorbBlock (state : Array UInt64) (block : List UInt8) : Array UInt64 :=
  let words := schedule block
  let v := (List.range 80).foldl (fun v i => round v (words.getD i 0) (roundWords.getD i 0)) state
  (state.zip v).map fun p => p.1 + p.2

/-- a message filled up to whole blocks -/
def filled (s : List UInt8) : List UInt8 :=
  let zeros := (239 - s.length % 128) % 128
  let bits := s.length * 8
  s ++ 128 :: List.replicate (zeros + 8) 0 ++ (List.range 8).map fun i => UInt8.ofNat (bits / Nat.pow 256 (7 - i) % 256)

/-- the state behind `blocks` blocks -/
def absorbAll (state : Array UInt64) (s : List UInt8) : Nat → Array UInt64
  | 0 => state
  | blocks + 1 => absorbAll (absorbBlock state (s.take 128)) (s.drop 128) blocks

/-- the digest of a message -/
def sha512 (s : List UInt8) : List UInt8 :=
  let message := filled s
  (absorbAll startWords message (message.length / 128)).toList.flatMap fun w =>
    (List.range 8).map fun i => (w >>> (8 * (7 - i)).toUInt64).toUInt8

end SecureEndpoint.Digest
