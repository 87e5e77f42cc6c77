/-
Public keys on twisted Edwards curves: a·x² + y² = 1 + d·x²·y² modulo a prime.

The secret bytes are spread by a digest, some bits of the first half are set and cleared, and the number they stand for
is multiplied with the base point. The public key is the second coordinate, with the parity of the first in its top bit.
-/
import SecureEndpoint.Key.Curve
import SecureEndpoint.Digest.Sha512
import SecureEndpoint.Digest.Shake256

namespace SecureEndpoint.Key

open Der (Bytes)

/-- a twisted Edwards curve with a base point and the rules for its keys -/
structure EdwardsCurve where
  /-- the number of bytes of a key -/
  size : Nat
  prime : Nat
  a : Nat
  d : Nat
  base : Nat × Nat
  /-- the digest that spreads the secret bytes -/
  spread : Bytes → Bytes
  /-- the number that the first half of the digest stands for -/
  clamp : Nat → Nat

namespace EdwardsCurve

/-- the sum of two points in projective coordinates (x/z, y/z) -/
def add (c : EdwardsCurve) (p q : Projective) : Projective :=
  let f := c.prime
  let z := p.z * q.z % f
  let zz := z * z % f
  let x := p.x * q.x % f
  let y := p.y * q.y % f
  let e := c.d * x % f * y % f
  let minus := (zz + f - e) % f
  let plus := (zz + e) % f
  let cross := ((p.x + p.y) * (q.x + q.y) + 2 * f - x - y) % f
  ⟨z * minus % f * cross % f, z * plus % f * ((y + (f - c.a) * x) % f) % f, minus * plus % f⟩

/-- a multiple of a point -/
def multipleOf (c : EdwardsCurve) (n : Nat) (p : Projective) : Projective :=
  if n = 0 then ⟨0, 1, 1⟩
  else
    let half := c.multipleOf (n / 2) (c.add p p)
    if n % 2 = 1 then c.add p half else half
termination_by n

/-- a point as a public key -/
def encode (c : EdwardsCurve) (p : Projective) : Bytes :=
  let i := powMod p.z (c.prime - 2) c.prime
  let x := p.x * i % c.prime
  let y := p.y * i % c.prime
  (bytesOf c.size (y + x % 2 * Nat.pow 2 (8 * c.size - 1))).reverse

/-- the public key of secret bytes -/
def publicKey (c : EdwardsCurve) (secret : Bytes) : Bytes :=
  let n := c.clamp (Der.bigEndian ((c.spread secret).take c.size).reverse)
  c.encode (c.multipleOf n ⟨c.base.1, c.base.2, 1⟩)

end EdwardsCurve

/-- the curve of Ed25519 -/
def ed25519 : EdwardsCurve where
  size := 32
  prime := Nat.pow 2 255 - 19
  a := Nat.pow 2 255 - 20
  d := 0x52036cee2b6ffe738cc740797779e89800700a4d4141d8ab75eb4dca135978a3
  base := (
    0x216936d3cd6e53fec0a4e231fdd6dc5c692cc7609525a7b2c9562d608f25d51a,
    0x6666666666666666666666666666666666666666666666666666666666666658)
  spread := Digest.sha512
  clamp n := n % Nat.pow 2 254 / 8 * 8 + Nat.pow 2 254

/-- the curve of Ed448 -/
def ed448 : EdwardsCurve where
  size := 57
  prime := Nat.pow 2 448 - Nat.pow 2 224 - 1
  a := 1
  d := Nat.pow 2 448 - Nat.pow 2 224 - 1 - 39081
  base := (
    0x4f1970c66bed0ded221d15a622bf36da9e146570470f1767ea6de324a3d3a46412ae1af72ab66511433b80e18b00938e2626a82bc70cc05e,
    0x693f46716eb6bc248876203756c9c7624bea73736ca3984087789c1e05a0c2d73ad3ff1ce67c39c4fdbd132c4ed7c8ad9808795bf230fa14)
  spread := Digest.shake256 114
  clamp n := n % Nat.pow 2 447 / 4 * 4 + Nat.pow 2 447

end SecureEndpoint.Key
