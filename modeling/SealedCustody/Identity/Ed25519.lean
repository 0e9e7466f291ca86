import SealedCustody.Digest.Sha512

/-!
# Ed25519 public keys

The public key of RFC 8032 that belongs to a secret of 32 octets: the secret is hashed, half of the
hash is made a scalar, and the base point is multiplied by it. Points are in extended coordinates on
the curve `-x² + y² = 1 + d·x²·y²` over the field of `2 ^ 255 - 19` elements.
-/

namespace SealedCustody.Ed25519

/-- The size of the field. -/
def prime : Nat := Nat.pow 2 255 - 19

/-- Power in the field, by squaring. -/
def power (base exponent : Nat) : Nat :=
  if exponent = 0 then 1
  else
    let half := power (base * base % prime) (exponent / 2)
    if exponent % 2 = 0 then half else half * base % prime
termination_by exponent
decreasing_by omega

/-- The inverse in the field; zero for zero. -/
def inverse (x : Nat) : Nat := power x (prime - 2)

/-- The difference in the field. -/
def sub (a b : Nat) : Nat := (a + prime - b) % prime

/-- The coefficient of the curve. -/
def d : Nat := sub 0 (121665 * inverse 121666 % prime)

/-- A point `(x / z, y / z)` with `t = x · y / z`. -/
structure Point where
  x : Nat
  y : Nat
  z : Nat
  t : Nat
deriving Repr, Inhabited

/-- The neutral point. -/
def neutral : Point := ⟨0, 1, 1, 0⟩

/-- The sum of two points, equal or not. -/
def add (p q : Point) : Point :=
  let a := sub p.y p.x * sub q.y q.x % prime
  let b := (p.y + p.x) * (q.y + q.x) % prime
  let c := 2 * p.t * q.t % prime * d % prime
  let e := 2 * p.z * q.z % prime
  let f := sub b a
  let g := sub e c
  let h := (e + c) % prime
  let i := (b + a) % prime
  ⟨f * g % prime, h * i % prime, g * h % prime, f * i % prime⟩

/-- A multiple of a point, by doubling. -/
def multiple (n : Nat) (p : Point) : Point :=
  if n = 0 then neutral
  else
    let half := multiple (n / 2) (add p p)
    if n % 2 = 0 then half else add half p
termination_by n
decreasing_by omega

/-- The base point. -/
def base : Point :=
  let x := 15112221349535400772501151409588531511454012693041857206046113283949847762202
  let y := 46316835694926478169428394003475163141307993866256225615783033603165251855960
  ⟨x, y, 1, x * y % prime⟩

/-- The octets of a number, least significant first. -/
def littleEndian (width n : Nat) : List UInt8 :=
  (List.range width).map fun i => (n / Nat.pow 256 i % 256).toUInt8

/-- The number that octets spell, least significant first. -/
def number (bs : List UInt8) : Nat := bs.foldr (fun b n => n * 256 + b.toNat) 0

/-- The scalar of a secret: half of its hash, a multiple of eight with its highest bit at 254. -/
def scalar (secret : List UInt8) : Nat :=
  let n := number ((Sha512.digest secret).take 32)
  n % Nat.pow 2 254 / 8 * 8 + Nat.pow 2 254

/-- A point as 32 octets: its `y` and the lowest bit of its `x`. -/
def encode (p : Point) : List UInt8 :=
  let z := inverse p.z
  let x := p.x * z % prime
  let y := p.y * z % prime
  littleEndian 32 (y + (x % 2) * Nat.pow 2 255)

/-- The public key of a secret. -/
def publicKey (secret : List UInt8) : List UInt8 := encode (multiple (scalar secret) base)

end SealedCustody.Ed25519
