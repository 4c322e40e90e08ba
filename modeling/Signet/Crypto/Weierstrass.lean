import Signet.Crypto.Residue

/-! Curves `y² = x³ + ax + b` of prime order, in homogeneous coordinates. One addition law
serves all pairs of points, doubling and the point at infinity included: on a curve without
a point of order two it has no exceptions. -/

namespace Signet

/-- A curve over `p` with `n` points. -/
structure Weierstrass (p n : Nat) where
  a : Fin p
  b : Fin p
  baseX : Fin p
  baseY : Fin p

namespace Weierstrass

variable {p n : Nat}

structure Point (p : Nat) where
  x : Fin p
  y : Fin p
  z : Fin p

def Point.affine (x y : Fin p) : Point p := ⟨x, y, Residue.ofNat x 1⟩

/-- The affine abscissa; `none` at infinity. -/
def Point.abscissa? (P : Point p) : Option (Fin p) :=
  if P.z.val = 0 then none else some (P.x * Residue.inverse P.z)

variable (curve : Weierstrass p n)

def base : Point p := .affine curve.baseX curve.baseY

def infinity : Point p :=
  ⟨Residue.ofNat curve.a 0, Residue.ofNat curve.a 1, Residue.ofNat curve.a 0⟩

def add (P Q : Point p) : Point p :=
  let b3 := curve.b + curve.b + curve.b
  let xx := P.x * Q.x
  let yy := P.y * Q.y
  let zz := P.z * Q.z
  let xy := P.x * Q.y + P.y * Q.x
  let xz := P.x * Q.z + P.z * Q.x
  let yz := P.y * Q.z + P.z * Q.y
  let s := curve.a * xz + b3 * zz
  let t := curve.a * xx + b3 * xz - curve.a * curve.a * zz
  let u := xx + xx + xx + curve.a * zz
  ⟨xy * (yy - s) - yz * t, (yy + s) * (yy - s) + u * t, yz * (yy + s) + xy * u⟩

/-- The multiple `k P`, by doubling and adding. -/
def multiple (k : Nat) (P : Point p) : Point p :=
  if k = 0 then curve.infinity
  else
    let half := multiple (k / 2) P
    let double := curve.add half half
    if k % 2 = 1 then curve.add double P else double
termination_by k

/-- The right side of the equation of the curve. -/
def cubic (x : Fin p) : Fin p := x * x * x + curve.a * x + curve.b

def contains (x y : Fin p) : Bool := y * y == curve.cubic x

/-- The point with abscissa `x` and an ordinate that is odd as asked. -/
def lift? (x : Fin p) (odd : Bool) : Option (Point p) :=
  (Residue.sqrt? (curve.cubic x)).map fun y => .affine x (Residue.withParity odd y)

end Weierstrass

/-- The field of secp256r1. -/
abbrev Secp256r1.fieldSize : Nat :=
  0xffffffff00000001000000000000000000000000ffffffffffffffffffffffff

/-- The number of points of secp256r1. -/
abbrev Secp256r1.order : Nat :=
  0xffffffff00000000ffffffffffffffffbce6faada7179e84f3b9cac2fc632551

def secp256r1 : Weierstrass Secp256r1.fieldSize Secp256r1.order where
  a := 0xffffffff00000001000000000000000000000000fffffffffffffffffffffffc
  b := 0x5ac635d8aa3a93e7b3ebbd55769886bc651d06b0cc53b0f63bce3c3e27d2604b
  baseX := 0x6b17d1f2e12c4247f8bce6e563a440f277037d812deb33a0f4a13945d898c296
  baseY := 0x4fe342e2fe1a7f9b8ee7eb4a7c0f9e162bce33576b315ececbb6406837bf51f5

/-- The field of secp256k1. -/
abbrev Secp256k1.fieldSize : Nat :=
  0xfffffffffffffffffffffffffffffffffffffffffffffffffffffffefffffc2f

/-- The number of points of secp256k1. -/
abbrev Secp256k1.order : Nat :=
  0xfffffffffffffffffffffffffffffffebaaedce6af48a03bbfd25e8cd0364141

def secp256k1 : Weierstrass Secp256k1.fieldSize Secp256k1.order where
  a := 0
  b := 7
  baseX := 0x79be667ef9dcbbac55a06295ce870b07029bfcdb2dce28d959f2815b16f81798
  baseY := 0x483ada7726a3c4655da4fbfc0e1108a8fd17b448a68554199c47d08ffb10d4b8

end Signet
