import SharedRuntime.Digest.Sha512

/-!
# Ed25519 signatures

Points of the twisted Edwards curve `-x² + y² = 1 + d x² y²` over the integers modulo
`p = 2²⁵⁵ - 19`, in extended coordinates. `verify` compares the encoding of `s·B - k·A` with the
first half of the signature byte by byte; it accepts a key of small order and a key whose `y` is
not reduced, and refuses an `s` that is not below the group order.
-/

set_option autoImplicit false

namespace SharedRuntime.Ed25519

/-- The prime of the field. -/
def p : Nat := Nat.pow 2 255 - 19

/-- The order of the base point. -/
def order : Nat := Nat.pow 2 252 + 27742317777372353535851937790883648493

/-- Powers modulo `m` by squaring; `bits` bounds the length of the exponent. -/
def powMod (m : Nat) : Nat → Nat → Nat → Nat
  | 0, _, _ => 1 % m
  | bits + 1, base, e =>
    let half := powMod m bits (base * base % m) (e / 2)
    if e % 2 = 1 then base * half % m else half

/-- Field subtraction. -/
def sub (a b : Nat) : Nat := (a + p - b % p) % p

/-- The inverse of a nonzero field element. -/
def inv (a : Nat) : Nat := powMod p 255 (a % p) (p - 2)

/-- The constant of the curve equation. -/
def d : Nat := sub 0 (121665 * inv 121666 % p)

/-- A square root of minus one. -/
def sqrtMinusOne : Nat := powMod p 255 2 ((p - 1) / 4)

/-- A point in extended coordinates: `x = X/Z`, `y = Y/Z`, `X·Y = Z·T`. -/
structure Point where
  (x y z t : Nat)

/-- The neutral point. -/
def neutral : Point := ⟨0, 1, 1, 0⟩

/-- The sum of two points. -/
def Point.add (a b : Point) : Point :=
  let aa := sub a.y a.x * sub b.y b.x % p
  let bb := (a.y + a.x) * (b.y + b.x) % p
  let cc := a.t * b.t % p * (2 * d) % p
  let dd := 2 * a.z * b.z % p
  let e := sub bb aa
  let f := sub dd cc
  let g := (dd + cc) % p
  let h := (bb + aa) % p
  ⟨e * f % p, g * h % p, f * g % p, e * h % p⟩

/-- The negative of a point. -/
def Point.neg (a : Point) : Point := ⟨sub 0 a.x, a.y, a.z, sub 0 a.t⟩

/-- `n` times a point; `bits` bounds the length of `n`. -/
def Point.mul : Nat → Nat → Point → Point
  | 0, _, _ => neutral
  | bits + 1, n, a =>
    let rest := Point.mul bits (n / 2) (a.add a)
    if n % 2 = 1 then rest.add a else rest

/-- The thirty-two bytes of a point: `y`, with the lowest bit of `x` on top. -/
def Point.encode (a : Point) : Bytes :=
  let zi := inv a.z
  let x := a.x * zi % p
  let y := a.y * zi % p
  Bytes.ofNatLE 32 (y + x % 2 * Nat.pow 2 255)

/-- The even square root of `u/v`, if there is one. -/
def sqrtRatio? (u v : Nat) : Option Nat :=
  let v3 := v * v % p * v % p
  let v7 := v3 * v3 % p * v % p
  let r := u * v3 % p * powMod p 255 (u * v7 % p) ((p - 5) / 8) % p
  let check := v * (r * r % p) % p
  let even (a : Nat) : Nat := if a % 2 = 1 then sub 0 a else a
  if check = u % p then some (even r)
  else if check = sub 0 u then some (even (r * sqrtMinusOne % p))
  else none

/-- The point that thirty-two bytes encode: any `y` below `2²⁵⁵` with a root for `x`. -/
def decode? (bs : Bytes) : Option Point :=
  let n := Bytes.natLE bs
  let y := n % Nat.pow 2 255 % p
  let sign := n / Nat.pow 2 255 % 2
  let yy := y * y % p
  match sqrtRatio? (sub yy 1) ((d * yy + 1) % p) with
  | none => none
  | some x =>
    let x := if sign = 1 then sub 0 x else x
    some ⟨x, y, 1, x * y % p⟩

/-- The base point: `y = 4/5` and `x` even. -/
def base : Point :=
  let y := 4 * inv 5 % p
  let yy := y * y % p
  let x := (sqrtRatio? (sub yy 1) ((d * yy + 1) % p)).getD 0
  ⟨x, y, 1, x * y % p⟩

/-- The scalar and the nonce key that a seed expands to. -/
def expand (seed : Bytes) : Nat × Bytes :=
  let h := Digest.Sha512.hash seed
  let n := Bytes.natLE (h.take 32)
  let low := n % Nat.pow 2 254 - n % 8
  (low + Nat.pow 2 254, h.drop 32)

/-- The public key of a seed. -/
def publicKey (seed : Bytes) : Bytes := (Point.mul 256 (expand seed).1 base).encode

/-- The challenge of a signature, reduced by the group order. -/
def challenge (r key msg : Bytes) : Nat :=
  Bytes.natLE (Digest.Sha512.hash (r ++ key ++ msg)) % order

/-- The signature of a message under the key of a seed. -/
def sign (seed msg : Bytes) : Bytes :=
  let (a, nonceKey) := expand seed
  let r := Bytes.natLE (Digest.Sha512.hash (nonceKey ++ msg)) % order
  let rBytes := (Point.mul 256 r base).encode
  let k := challenge rBytes (publicKey seed) msg
  rBytes ++ Bytes.ofNatLE 32 ((r + k * a) % order)

/-- Does a key encode a point of the curve? -/
def isKey (key : Bytes) : Bool := (decode? key).isSome

/-- Does a sixty-four byte signature hold for the message under the key? -/
def verify (key msg sig : Bytes) : Bool :=
  (decode? key).any fun a =>
    let r := sig.take 32
    let s := Bytes.natLE (sig.drop 32)
    if s < order then
      let k := challenge r key msg
      ((Point.mul 256 s base).add (Point.mul 256 k a.neg)).encode == r
    else false

end SharedRuntime.Ed25519
