/-
Elliptic curves over prime fields: y² = x³ + a·x + b modulo a prime.

A point is a pair of coordinates, or nothing for the neutral element. `Curve.multiple` computes in projective coordinates
(x/z², y/z³), so that it divides only once. `Curve.pointOf` reads the four written forms of a point and checks that it
lies on the curve.
-/
import SecureEndpoint.Der.Header

namespace SecureEndpoint.Key

open Der (Bytes bigEndian)

/-- the power of a number modulo `m` -/
def powMod (base exponent m : Nat) : Nat :=
  if exponent = 0 then 1 % m
  else
    let half := powMod (base * base % m) (exponent / 2) m
    if exponent % 2 = 1 then base * half % m else half
termination_by exponent

/-- a number as `size` bytes, the first one most significant -/
def bytesOf (size n : Nat) : Bytes :=
  (List.range size).map fun i => UInt8.ofNat (n / Nat.pow 256 (size - 1 - i) % 256)

/-- a curve with a generator -/
structure Curve where
  /-- the encoded name of the curve -/
  oid : Bytes
  /-- the number of bytes of a coordinate -/
  size : Nat
  prime : Nat
  a : Nat
  b : Nat
  generator : Nat × Nat
  order : Nat
  deriving DecidableEq, Repr

/-- a point, or the neutral element -/
abbrev Point := Option (Nat × Nat)

/-- a point in projective coordinates; `z` is zero for the neutral element -/
structure Projective where
  x : Nat
  y : Nat
  z : Nat

namespace Curve

/-- the difference modulo the prime -/
def sub (c : Curve) (m n : Nat) : Nat := (m + (c.prime - n % c.prime)) % c.prime

/-- the sum of a point with itself -/
def double (c : Curve) (p : Projective) : Projective :=
  if p.z = 0 || p.y = 0 then ⟨1, 1, 0⟩
  else
    let yy := p.y * p.y % c.prime
    let s := 4 * p.x * yy % c.prime
    let zz := p.z * p.z % c.prime
    let m := (3 * p.x * p.x + c.a * zz % c.prime * zz) % c.prime
    let x := c.sub (m * m) (2 * s)
    ⟨x, c.sub (m * c.sub s x) (8 * yy * yy), 2 * p.y * p.z % c.prime⟩

/-- the sum of two points -/
def add (c : Curve) (p q : Projective) : Projective :=
  if p.z = 0 then q
  else if q.z = 0 then p
  else
    let pz := p.z * p.z % c.prime
    let qz := q.z * q.z % c.prime
    let u := p.x * qz % c.prime
    let v := q.x * pz % c.prime
    let s := p.y * qz % c.prime * q.z % c.prime
    let t := q.y * pz % c.prime * p.z % c.prime
    if u = v then if s = t then c.double p else ⟨1, 1, 0⟩
    else
      let h := c.sub v u
      let r := c.sub t s
      let hh := h * h % c.prime
      let hhh := hh * h % c.prime
      let x := c.sub (c.sub (r * r) hhh) (2 * u * hh)
      ⟨x, c.sub (r * c.sub (u * hh) x) (s * hhh), h * p.z % c.prime * q.z % c.prime⟩

/-- a multiple of a point -/
def multipleOf (c : Curve) (n : Nat) (p : Projective) : Projective :=
  if n = 0 then ⟨1, 1, 0⟩
  else
    let half := c.multipleOf (n / 2) (c.double p)
    if n % 2 = 1 then c.add p half else half
termination_by n

/-- a point in plain coordinates -/
def plain (c : Curve) (p : Projective) : Point :=
  if p.z = 0 then none
  else
    let i := powMod p.z (c.prime - 2) c.prime
    let ii := i * i % c.prime
    some (p.x * ii % c.prime, p.y * ii % c.prime * i % c.prime)

/-- a multiple of the generator -/
def multiple (c : Curve) (n : Nat) : Point := c.plain (c.multipleOf n ⟨c.generator.1, c.generator.2, 1⟩)

/-- the right-hand side of the equation -/
def square (c : Curve) (x : Nat) : Nat := ((x * x + c.a) % c.prime * x + c.b) % c.prime

/-- the point lies on the curve -/
def contains (c : Curve) (x y : Nat) : Bool := x < c.prime && y < c.prime && y * y % c.prime == c.square x

/-- the point with this first coordinate whose second coordinate is odd or even; the prime is 3 modulo 4 -/
def lift (c : Curve) (x : Nat) (odd : Bool) : Option (Nat × Nat) :=
  let y := powMod (c.square x) ((c.prime + 1) / 4) c.prime
  if ¬ c.contains x y then none
  else if (y % 2 == 1) == odd then some (x, y)
  else if y = 0 then none
  else some (x, c.prime - y)

/-- a point written with both coordinates -/
def encode (c : Curve) (p : Nat × Nat) : Bytes := 4 :: (bytesOf c.size p.1 ++ bytesOf c.size p.2)

/-- reads a point: one zero byte, or one coordinate, or both coordinates with or without the parity of the second -/
def pointOf (c : Curve) (s : Bytes) : Option Point :=
  match s with
  | [] => none
  | form :: rest =>
    let x := bigEndian (rest.take c.size)
    let y := bigEndian (rest.drop c.size)
    if form = 0 then if rest = [] then some none else none
    else if form = 2 || form = 3 then
      if rest.length = c.size then (c.lift x (form = 3)).map some else none
    else if rest.length ≠ 2 * c.size || !c.contains x y then none
    else if form = 4 || (form = 6 && y % 2 = 0) || (form = 7 && y % 2 = 1) then some (some (x, y))
    else none

end Curve

/-! ## The curves -/

/-- the curve P-256 -/
def p256 : Curve where
  oid := [0x2a, 0x86, 0x48, 0xce, 0x3d, 0x03, 0x01, 0x07]
  size := 32
  prime :=
    0xffffffff00000001000000000000000000000000ffffffffffffffffffffffff
  a :=
    0xffffffff00000001000000000000000000000000fffffffffffffffffffffffc
  b :=
    0x5ac635d8aa3a93e7b3ebbd55769886bc651d06b0cc53b0f63bce3c3e27d2604b
  generator := (
    0x6b17d1f2e12c4247f8bce6e563a440f277037d812deb33a0f4a13945d898c296,
    0x4fe342e2fe1a7f9b8ee7eb4a7c0f9e162bce33576b315ececbb6406837bf51f5)
  order :=
    0xffffffff00000000ffffffffffffffffbce6faada7179e84f3b9cac2fc632551

/-- the curve P-384 -/
def p384 : Curve where
  oid := [0x2b, 0x81, 0x04, 0x00, 0x22]
  size := 48
  prime :=
    0xfffffffffffffffffffffffffffffffffffffffffffffffffffffffffffffffeffffffff0000000000000000ffffffff
  a :=
    0xfffffffffffffffffffffffffffffffffffffffffffffffffffffffffffffffeffffffff0000000000000000fffffffc
  b :=
    0xb3312fa7e23ee7e4988e056be3f82d19181d9c6efe8141120314088f5013875ac656398d8a2ed19d2a85c8edd3ec2aef
  generator := (
    0xaa87ca22be8b05378eb1c71ef320ad746e1d3b628ba79b9859f741e082542a385502f25dbf55296c3a545e3872760ab7,
    0x3617de4a96262c6f5d9e98bf9292dc29f8f41dbd289a147ce9da3113b5f0b8c00a60b1ce1d7e819d7a431d7c90ea0e5f)
  order :=
    0xffffffffffffffffffffffffffffffffffffffffffffffffc7634d81f4372ddf581a0db248b0a77aecec196accc52973

/-- the curve P-521 -/
def p521 : Curve where
  oid := [0x2b, 0x81, 0x04, 0x00, 0x23]
  size := 66
  prime :=
    0x1ffffffffffffffffffffffffffffffffffffffffffffffffffffffffffffffffffffffffffffffffffffffffffffffffffffffffffffffffffffffffffffffffff
  a :=
    0x1fffffffffffffffffffffffffffffffffffffffffffffffffffffffffffffffffffffffffffffffffffffffffffffffffffffffffffffffffffffffffffffffffc
  b :=
    0x51953eb9618e1c9a1f929a21a0b68540eea2da725b99b315f3b8b489918ef109e156193951ec7e937b1652c0bd3bb1bf073573df883d2c34f1ef451fd46b503f00
  generator := (
    0x00c6858e06b70404e9cd9e3ecb662395b4429c648139053fb521f828af606b4d3dbaa14b5e77efe75928fe1dc127a2ffa8de3348b3c1856a429bf97e7e31c2e5bd66,
    0x011839296a789a3bc0045c8a5fb42c7d1bd998f54449579b446817afbd17273e662c97ee72995ef42640c550b9013fad0761353c7086a272c24088be94769fd16650)
  order :=
    0x1fffffffffffffffffffffffffffffffffffffffffffffffffffffffffffffffffa51868783bf2f966b7fcc0148f709a5d03bb5c9b8899c47aebb6fb71e91386409

/-- the curve secp256k1 -/
def k256 : Curve where
  oid := [0x2b, 0x81, 0x04, 0x00, 0x0a]
  size := 32
  prime :=
    0xfffffffffffffffffffffffffffffffffffffffffffffffffffffffefffffc2f
  a :=
    0x0
  b :=
    0x7
  generator := (
    0x79be667ef9dcbbac55a06295ce870b07029bfcdb2dce28d959f2815b16f81798,
    0x483ada7726a3c4655da4fbfc0e1108a8fd17b448a68554199c47d08ffb10d4b8)
  order :=
    0xfffffffffffffffffffffffffffffffebaaedce6af48a03bbfd25e8cd0364141

/-- the curves that are known by their names -/
def curves : List Curve := [p256, p384, p521, k256]

/-- the curve with this encoded name -/
def Curve.ofOid? (oid : Bytes) : Option Curve := curves.find? fun c => c.oid == oid

end SecureEndpoint.Key
