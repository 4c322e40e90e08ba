/-! Arithmetic modulo a prime, on `Fin p`: powers, inverses by Fermat's little theorem, and
square roots where one power finds them. -/

namespace Signet.Residue

variable {p : Nat}

/-- The residue of `n` for the modulus that `x` has. -/
def ofNat (x : Fin p) (n : Nat) : Fin p := ⟨n % p, Nat.mod_lt n x.pos⟩

/-- Powers by repeated squaring. -/
def power (x : Fin p) (e : Nat) : Fin p :=
  if e = 0 then ofNat x 1
  else
    let half := power (x * x) (e / 2)
    if e % 2 = 1 then x * half else half
termination_by e

/-- The inverse modulo a prime; zero for zero. -/
def inverse (x : Fin p) : Fin p := power x (p - 2)

/-- A square root for a prime that is 3 modulo 4. -/
def sqrt? (x : Fin p) : Option (Fin p) :=
  let y := power x ((p + 1) / 4)
  if y * y = x then some y else none

/-- The residue of a number that is already below `p`. -/
def ofNat? (n : Nat) : Option (Fin p) := if h : n < p then some ⟨n, h⟩ else none

def isOdd (x : Fin p) : Bool := x.val % 2 == 1

/-- `x` or its negative, whichever is odd as asked. Zero stays zero. -/
def withParity (odd : Bool) (x : Fin p) : Fin p := if isOdd x = odd then x else -x

end Signet.Residue
