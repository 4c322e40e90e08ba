import Signet.Bytes.Number
import Signet.Crypto.Residue

/-! The twisted Edwards curve `-x² + y² = 1 + d x² y²` over the integers modulo `2^255 - 19`, in
homogeneous coordinates. Its addition law has no exceptions. -/

namespace Signet.Edwards

abbrev fieldSize : Nat :=
  0x7fffffffffffffffffffffffffffffffffffffffffffffffffffffffffffffed

abbrev Scalar := Fin fieldSize

/-- The order of the base point. -/
def order : Nat := 0x1000000000000000000000000000000014def9dea2f79cd65812631a5cf5d3ed

def d : Scalar := 0 - 121665 * Residue.inverse 121666

structure Point where
  x : Scalar
  y : Scalar
  z : Scalar

def neutral : Point := ⟨0, 1, 1⟩

def negate (P : Point) : Point := ⟨-P.x, P.y, P.z⟩

def add (P Q : Point) : Point :=
  let zz := P.z * Q.z
  let xx := P.x * Q.x
  let yy := P.y * Q.y
  let e := d * xx * yy
  let f := zz * zz - e
  let g := zz * zz + e
  let cross := (P.x + P.y) * (Q.x + Q.y) - xx - yy
  ⟨zz * f * cross, zz * g * (yy + xx), f * g⟩

/-- The multiple `k P`, by doubling and adding. -/
def multiple (k : Nat) (P : Point) : Point :=
  if k = 0 then neutral
  else
    let half := multiple (k / 2) P
    let double := add half half
    if k % 2 = 1 then add double P else double
termination_by k

/-- A square root of minus one. -/
def sqrtMinusOne : Scalar := Residue.power 2 ((fieldSize - 1) / 4)

def sqrt? (x : Scalar) : Option Scalar :=
  let y := Residue.power x ((fieldSize + 3) / 8)
  if y * y = x then some y
  else if y * sqrtMinusOne * (y * sqrtMinusOne) = x then some (y * sqrtMinusOne)
  else none

/-- The point with ordinate `y` and an abscissa that is odd as asked. An abscissa of zero is
taken whatever was asked. -/
def lift? (y : Scalar) (odd : Bool) : Option Point :=
  (sqrt? ((y * y - 1) * Residue.inverse (d * y * y + 1))).map fun x =>
    ⟨Residue.withParity odd x, y, 1⟩

def base : Point := (lift? (4 * Residue.inverse 5) false).getD neutral

/-- Reads 32 bytes: the ordinate, least significant byte first, and the parity of the abscissa
in the top bit. The ordinate may exceed the size of the field. -/
def decode? (bytes : Bytes) : Option Point :=
  if bytes.length = 32 then
    let n := Bytes.toNatLE bytes
    lift? (Residue.ofNat d (n % (1 <<< 255))) (n >>> 255 == 1)
  else none

def encode (P : Point) : Bytes :=
  let w := Residue.inverse P.z
  let x := P.x * w
  let y := P.y * w
  Bytes.ofNatLE 32 (y.val + if Residue.isOdd x then 1 <<< 255 else 0)

end Signet.Edwards
