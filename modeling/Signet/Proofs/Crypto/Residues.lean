import Mathlib
import Signet.Crypto.Residue

/-! # Residues as elements of a field

Arithmetic on residues is arithmetic in `ZMod p`. So powers are powers, and for a prime modulus the
inverse is the inverse. For a modulus that is 3 modulo 4, a single power of a square is one of its
roots, hence the search for a root fails only where there is none. -/
namespace Signet.Residue

variable {p : Nat}

/-- The residue as an element of the ring of integers modulo `p`. -/
def toZMod (x : Fin p) : ZMod p := x.val

theorem toZMod_inj {x y : Fin p} : toZMod x = toZMod y ↔ x = y := by
  unfold toZMod
  rw [ZMod.natCast_eq_natCast_iff', Nat.mod_eq_of_lt x.isLt, Nat.mod_eq_of_lt y.isLt, Fin.val_inj]

@[simp]
theorem toZMod_mul (x y : Fin p) : toZMod (x * y) = toZMod x * toZMod y := by
  simp [toZMod, Fin.val_mul]

@[simp]
theorem toZMod_add (x y : Fin p) : toZMod (x + y) = toZMod x + toZMod y := by
  simp [toZMod, Fin.val_add]

@[simp]
theorem toZMod_sub (x y : Fin p) : toZMod (x - y) = toZMod x - toZMod y := by
  simp [toZMod, Fin.sub_def, Nat.cast_sub y.isLt.le, sub_eq_neg_add]

@[simp]
theorem toZMod_zero [NeZero p] : toZMod (0 : Fin p) = 0 := by simp [toZMod]

@[simp]
theorem toZMod_neg [NeZero p] (x : Fin p) : toZMod (-x) = -toZMod x := by
  rw [← zero_sub x, toZMod_sub, toZMod_zero, zero_sub]

@[simp]
theorem toZMod_ofNat (x : Fin p) (n : Nat) : toZMod (ofNat x n) = n := by
  simp [toZMod, ofNat]

@[simp]
theorem toZMod_one [NeZero p] : toZMod (1 : Fin p) = 1 := by
  simp [toZMod]

@[simp]
theorem toZMod_power (x : Fin p) (e : Nat) : toZMod (power x e) = toZMod x ^ e := by
  fun_induction power x e with
  | case1 x => simp
  | case2 x e h half hodd ih =>
    rw [toZMod_mul, ih, toZMod_mul, ← sq, ← pow_mul, ← pow_succ']
    congr 1
    omega
  | case3 x e h half heven ih =>
    rw [ih, toZMod_mul, ← sq, ← pow_mul]
    congr 1
    omega

section Prime

variable [Fact p.Prime]

theorem toZMod_inverse {x : Fin p} (h : toZMod x ≠ 0) : toZMod (inverse x) = (toZMod x)⁻¹ := by
  have hp := (Fact.out : p.Prime).two_le
  refine eq_inv_of_mul_eq_one_left ?_
  rw [inverse, toZMod_power, ← pow_succ, show p - 2 + 1 = p - 1 by omega,
    ZMod.pow_card_sub_one_eq_one h]

/-- For a modulus that is 5 modulo 8, a power of a square is a root of it or of its negative. -/
theorem pow_mul_self_of_square (hmod : p % 8 = 5) (a : ZMod p) :
    (a * a) ^ ((p + 3) / 8) * (a * a) ^ ((p + 3) / 8) = a * a ∨
      (a * a) ^ ((p + 3) / 8) * (a * a) ^ ((p + 3) / 8) = -(a * a) := by
  have hpow : (a * a) ^ ((p + 3) / 8) * (a * a) ^ ((p + 3) / 8) = a ^ (p / 2) * (a * a) := by
    calc (a * a) ^ ((p + 3) / 8) * (a * a) ^ ((p + 3) / 8)
        = a ^ (2 * (2 * ((p + 3) / 8))) := by ring
      _ = a ^ (p / 2 + 2) := by rw [show 2 * (2 * ((p + 3) / 8)) = p / 2 + 2 by omega]
      _ = a ^ (p / 2) * (a * a) := by ring
  rcases eq_or_ne a 0 with rfl | ha
  · exact .inl (by rw [hpow, mul_zero, mul_zero])
  · rcases ZMod.pow_div_two_eq_neg_one_or_one p ha with h | h
    · exact .inl (by rw [hpow, h, one_mul])
    · exact .inr (by rw [hpow, h, neg_one_mul])

/-- The power that is tried is a root of every square. -/
theorem isSome_sqrt?_iff (hmod : p % 4 = 3) (x : Fin p) :
    (sqrt? x).isSome = true ↔ ∃ y : Fin p, y * y = x := by
  constructor
  · intro h
    obtain ⟨y, hy⟩ := Option.isSome_iff_exists.mp h
    simp only [sqrt?, Option.ite_none_right_eq_some] at hy
    exact ⟨_, hy.1⟩
  · rintro ⟨y, rfl⟩
    have hroot : power (y * y) ((p + 1) / 4) * power (y * y) ((p + 1) / 4) = y * y := by
      rw [← toZMod_inj]
      simp only [toZMod_mul, toZMod_power]
      calc (toZMod y * toZMod y) ^ ((p + 1) / 4) * (toZMod y * toZMod y) ^ ((p + 1) / 4)
          = toZMod y ^ (2 * (2 * ((p + 1) / 4))) := by ring
        _ = toZMod y ^ (p + 1) := by rw [show 2 * (2 * ((p + 1) / 4)) = p + 1 by omega]
        _ = toZMod y * toZMod y := by rw [pow_succ, ZMod.pow_card]
    simp [sqrt?, hroot]

end Prime

end Signet.Residue
