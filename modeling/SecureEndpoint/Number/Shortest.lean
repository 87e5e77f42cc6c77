/-
The shortest decimal that reads back as a given floating point number.

A finite double is m · 2^q with natural m; the reals that round to it form an interval around it, ends included exactly
when m is even. `Double.shortest` tries one digit, two digits and so on up to seventeen, and takes the first grid of
decimals that has a point in the interval; of two such points the nearer one, and at an exact tie the even one. All of
it is exact arithmetic on natural numbers.

`DecimalFormat` says how the digits are laid out; `DecimalFormat.text` writes a number with it.
-/

namespace SecureEndpoint.Number

/-- the size of a finite double: `mantissa * 2 ^ exponent` -/
structure Double where
  mantissa : Nat
  exponent : Int
  /-- the double below is only half as far away as the one above -/
  irregular : Bool
  deriving DecidableEq, Repr

/-- takes the bits of a double apart; the sign is left out -/
def Double.ofBits (bits : UInt64) : Double :=
  let fraction : Nat := bits.toNat % Nat.pow 2 52
  let biased : Nat := bits.toNat / Nat.pow 2 52 % Nat.pow 2 11
  if biased == 0 then ⟨fraction, -1074, false⟩
  else ⟨fraction + Nat.pow 2 52, (biased : Int) - 1075, fraction == 0 && biased != 1⟩

/-- a decimal: `digits * 10 ^ exponent` -/
structure Decimal where
  digits : Nat
  exponent : Int
  deriving DecidableEq, Repr

/-- the number of decimal digits -/
def digitCount (n : Nat) : Nat := (Nat.toDigits 10 n).length

namespace Double

/-- `a * 10 ^ p ≤ b * 2 ^ q`, without fractions -/
def decimalLe (a : Nat) (p : Int) (b : Nat) (q : Int) : Bool :=
  a * Nat.pow 10 p.toNat * Nat.pow 2 (-q).toNat ≤ b * Nat.pow 2 q.toNat * Nat.pow 10 (-p).toNat

/-- `a * 10 ^ p < b * 2 ^ q`, without fractions -/
def decimalLt (a : Nat) (p : Int) (b : Nat) (q : Int) : Bool :=
  a * Nat.pow 10 p.toNat * Nat.pow 2 (-q).toNat < b * Nat.pow 2 q.toNat * Nat.pow 10 (-p).toNat

/-- `b * 2 ^ q < a * 10 ^ p`, without fractions -/
def binaryLt (b : Nat) (q : Int) (a : Nat) (p : Int) : Bool :=
  b * Nat.pow 2 q.toNat * Nat.pow 10 (-p).toNat < a * Nat.pow 10 p.toNat * Nat.pow 2 (-q).toNat

/-- the decimal rounds to the double -/
def accepts (x : Double) (d : Nat) (p : Int) : Bool :=
  let q := x.exponent - 2
  let lower := 4 * x.mantissa - (if x.irregular then 1 else 2)
  let upper := 4 * x.mantissa + 2
  if x.mantissa % 2 = 0 then !binaryLt upper q d p && !decimalLt d p lower q
  else binaryLt lower q d p && decimalLt d p upper q

/-- the largest power of ten that is not above a positive double -/
def magnitude (x : Double) : Int :=
  let scaled := x.mantissa * Nat.pow 2 x.exponent.toNat * Nat.pow 10 400 / Nat.pow 2 (-x.exponent).toNat
  (digitCount scaled : Int) - 401

/-- the whole multiples of `10 ^ p` in the double -/
def quotient (x : Double) (p : Int) : Nat :=
  x.mantissa * Nat.pow 2 x.exponent.toNat * Nat.pow 10 (-p).toNat / (Nat.pow 2 (-x.exponent).toNat * Nat.pow 10 p.toNat)

/-- the point of the grid of `10 ^ p` that reads back, the nearer of two -/
def onGrid (x : Double) (p : Int) : Option Nat :=
  let d := x.quotient p
  match x.accepts d p, x.accepts (d + 1) p with
  | true, false => some d
  | false, true => some (d + 1)
  | false, false => none
  | true, true =>
    -- twice the double against the sum of its two neighbours
    if decimalLt (2 * d + 1) p (2 * x.mantissa) x.exponent then some (d + 1)
    else if binaryLt (2 * x.mantissa) x.exponent (2 * d + 1) p then some d
    else some (if d % 2 = 0 then d else d + 1)

/-- the shortest decimal that reads back as a positive double -/
def shortest (x : Double) : Decimal :=
  let top := x.magnitude
  let found := (List.range 17).findSome? fun k : Nat =>
    (x.onGrid (top - k)).map fun d => Decimal.mk d (top - k)
  found.getD ⟨x.quotient (top - 16), top - 16⟩

end Double

/-- how the digits of a decimal are laid out -/
structure DecimalFormat where
  /-- the lowest and the highest power of ten that are written without an exponent -/
  positional : Int × Int
  deriving DecidableEq, Repr

namespace DecimalFormat

/-- lays out digits whose first has the weight `10 ^ top` -/
def layOut (f : DecimalFormat) (digits : List Char) (top : Int) : String :=
  if f.positional.1 ≤ top ∧ top ≤ f.positional.2 then
    if 0 ≤ top then
      let whole := digits.take (top.toNat + 1)
      let rest := digits.drop (top.toNat + 1)
      String.ofList whole ++ String.ofList (List.replicate (top.toNat + 1 - whole.length) '0') ++ "." ++
        (if rest.isEmpty then "0" else String.ofList rest)
    else "0." ++ String.ofList (List.replicate ((-top).toNat - 1) '0') ++ String.ofList digits
  else
    String.ofList (digits.take 1) ++ (if digits.length ≤ 1 then "" else "." ++ String.ofList (digits.drop 1)) ++
      "e" ++ (if 0 ≤ top then "+" else "-") ++ toString top.natAbs

/-- the text of a finite double -/
def text (f : DecimalFormat) (x : Float) : String :=
  let bits := x.toBits
  let sign := if Nat.pow 2 63 ≤ bits.toNat then "-" else ""
  let size := Double.ofBits bits
  if size.mantissa = 0 then sign ++ f.layOut ['0'] 0
  else
    let d := size.shortest
    let digits := Nat.toDigits 10 d.digits
    let kept := (digits.reverse.dropWhile (· == '0')).reverse
    sign ++ f.layOut kept (d.exponent + digits.length - 1)

end DecimalFormat

end SecureEndpoint.Number
