import Signet.Bytes.Number
import Signet.Crypto.Weierstrass

/-! Points written as bytes: a tag and one or both coordinates, 32 bytes each. A point is read
only if its coordinates are below the size of the field and it lies on the curve. -/

namespace Signet.Sec1

variable {p n : Nat}

/-- A coordinate of exactly 32 bytes. -/
def coordinate? (bytes : Bytes) : Option (Fin p) :=
  if bytes.length = 32 then Residue.ofNat? (Bytes.toNatBE bytes) else none

/-- Tags 2 and 3: an abscissa, with an even or an odd ordinate. -/
def compressed? (curve : Weierstrass p n) (bytes : Bytes) : Option (Weierstrass.Point p) :=
  match bytes with
  | 2 :: x => do curve.lift? (← coordinate? x) false
  | 3 :: x => do curve.lift? (← coordinate? x) true
  | _ => none

/-- Any tag: also 4, with both coordinates, and 5, an abscissa whose ordinate is even. -/
def point? (curve : Weierstrass p n) (bytes : Bytes) : Option (Weierstrass.Point p) :=
  match bytes with
  | 4 :: xy => do
    let x ← coordinate? (xy.take 32)
    let y ← coordinate? (xy.drop 32)
    if curve.contains x y then some (.affine x y) else none
  | 5 :: x => do curve.lift? (← coordinate? x) false
  | _ => compressed? curve bytes

end Signet.Sec1
