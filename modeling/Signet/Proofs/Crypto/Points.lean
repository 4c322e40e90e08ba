import Mathlib
import Signet.Crypto.Edwards
import Signet.Crypto.Sec1
import Signet.Proofs.Crypto.Primality
import Signet.Proofs.Crypto.Residues

/-! # Which bytes are points

Reading a point takes a square root, and it succeeds exactly when there is a point to be read: one
with the abscissa given, or on the Edwards curve with the ordinate given. There the equation is
solved for the square of the abscissa; it can be, because the coefficient of the curve is no square. -/
namespace Signet

namespace Weierstrass

variable {p n : Nat} (curve : Weierstrass p n)

theorem isSome_lift?_iff [Fact p.Prime] (hmod : p % 4 = 3) (x : Fin p) (odd : Bool) :
    (curve.lift? x odd).isSome = true ↔ ∃ y, curve.contains x y = true := by
  simp only [lift?, Option.isSome_map, Residue.isSome_sqrt?_iff hmod, contains, beq_iff_eq]

end Weierstrass

namespace Sec1

variable {p n : Nat} (curve : Weierstrass p n)

/-- The bytes are those of the coordinate, 32 of them, the most significant one first. -/
def Writes (x : Fin p) (bytes : Bytes) : Prop := bytes.length = 32 ∧ Bytes.toNatBE bytes = x.val

/-- The bytes are those of the abscissa of some point. -/
def IsAbscissa (bytes : Bytes) : Prop :=
  ∃ x y, Writes x bytes ∧ curve.contains x y = true

/-- The encodings of points: a tag for one coordinate, or the tag for both. -/
inductive IsPoint : Bytes → Prop
  | abscissa {tag : UInt8} {bytes : Bytes} : tag = 2 ∨ tag = 3 ∨ tag = 5 →
      IsAbscissa curve bytes → IsPoint (tag :: bytes)
  | coordinates {x y : Fin p} {xs ys : Bytes} : Writes x xs → Writes y ys →
      curve.contains x y = true → IsPoint (4 :: (xs ++ ys))

theorem coordinate?_eq_some_iff {x : Fin p} {bytes : Bytes} :
    coordinate? bytes = some x ↔ Writes x bytes := by
  simp only [coordinate?, Residue.ofNat?, Writes, Option.ite_none_right_eq_some,
    Option.dite_none_right_eq_some, Option.some.injEq, Fin.ext_iff]
  constructor
  · rintro ⟨hlen, -, hval⟩
    exact ⟨hlen, hval⟩
  · rintro ⟨hlen, hval⟩
    exact ⟨hlen, hval ▸ x.isLt, hval⟩

variable {curve}

section Prime

variable [Fact p.Prime] (hmod : p % 4 = 3)
include hmod

theorem isSome_lift?_coordinate?_iff {bytes : Bytes} {odd : Bool} :
    ((coordinate? bytes).bind fun x => curve.lift? x odd).isSome = true ↔
      IsAbscissa curve bytes := by
  constructor
  · intro h
    obtain ⟨point, hpoint⟩ := Option.isSome_iff_exists.mp h
    obtain ⟨x, hx, hlift⟩ := Option.bind_eq_some_iff.mp hpoint
    obtain ⟨y, hy⟩ := (curve.isSome_lift?_iff hmod x odd).mp (Option.isSome_of_mem hlift)
    exact ⟨x, y, coordinate?_eq_some_iff.mp hx, hy⟩
  · rintro ⟨x, y, hx, hy⟩
    rw [coordinate?_eq_some_iff.mpr hx, Option.bind_some]
    exact (curve.isSome_lift?_iff hmod x odd).mpr ⟨y, hy⟩

theorem isSome_compressed?_iff {bytes : Bytes} :
    (compressed? curve bytes).isSome = true ↔
      (bytes.head? = some 2 ∨ bytes.head? = some 3) ∧ IsAbscissa curve bytes.tail := by
  unfold compressed?
  split
  · simpa using isSome_lift?_coordinate?_iff hmod
  · simpa using isSome_lift?_coordinate?_iff hmod
  · rename_i h2 h3
    simp only [Option.isSome_none, Bool.false_eq_true, false_iff, not_and]
    intro htag
    cases bytes with
    | nil => simp at htag
    | cons tag bytes =>
      rcases htag with h | h
      · exact absurd (by rw [Option.some.inj h]) (h2 bytes)
      · exact absurd (by rw [Option.some.inj h]) (h3 bytes)

theorem isSome_point?_iff {bytes : Bytes} :
    (point? curve bytes).isSome = true ↔ IsPoint curve bytes := by
  unfold point?
  split
  · rename_i xy
    constructor
    · intro h
      obtain ⟨point, hpoint⟩ := Option.isSome_iff_exists.mp h
      obtain ⟨x, hx, hrest⟩ := Option.bind_eq_some_iff.mp hpoint
      obtain ⟨y, hy, hon⟩ := Option.bind_eq_some_iff.mp hrest
      rw [Option.ite_none_right_eq_some] at hon
      have hwrites := IsPoint.coordinates (coordinate?_eq_some_iff.mp hx)
        (coordinate?_eq_some_iff.mp hy) hon.1
      rwa [List.take_append_drop] at hwrites
    · intro h
      cases h with
      | abscissa htag _ => rcases htag with h | h | h <;> cases h
      | coordinates hx hy hon =>
        rename_i x y xs ys
        rw [List.take_left' hx.1, List.drop_left' hx.1, coordinate?_eq_some_iff.mpr hx,
          coordinate?_eq_some_iff.mpr hy]
        simp [hon]
  · rename_i x
    have hlift : ((coordinate? x).bind fun x => curve.lift? x false).isSome = true ↔
        IsAbscissa curve x := isSome_lift?_coordinate?_iff hmod
    refine hlift.trans ⟨fun h => .abscissa (.inr (.inr rfl)) h, ?_⟩
    intro h
    cases h with
    | abscissa _ h => exact h
  · rename_i h4 h5
    rw [isSome_compressed?_iff hmod]
    constructor
    · rintro ⟨htag, h⟩
      cases bytes with
      | nil => simp at htag
      | cons tag bytes =>
        simp only [List.head?_cons, Option.some.injEq] at htag
        exact .abscissa (htag.imp_right .inl) h
    · intro h
      cases h with
      | abscissa htag h =>
        rcases htag with rfl | rfl | rfl
        · exact ⟨.inl rfl, h⟩
        · exact ⟨.inr rfl, h⟩
        · exact absurd rfl (h5 _)
      | coordinates _ _ _ => exact absurd rfl (h4 _)

end Prime

end Sec1

namespace Edwards

open Residue

/-- The point with these coordinates lies on the curve. -/
def Contains (x y : Scalar) : Prop :=
  toZMod y ^ 2 - toZMod x ^ 2 = 1 + toZMod d * toZMod x ^ 2 * toZMod y ^ 2

/-- The ordinate that the bytes stand for: the number without its top bit, least significant byte
first. -/
def ordinate (bytes : Bytes) : Scalar := Residue.ofNat d (Bytes.toNatLE bytes % 2 ^ 255)

instance : Fact fieldSize.Prime := ⟨fieldSize_prime⟩

theorem sqrtMinusOne_mul_self : sqrtMinusOne * sqrtMinusOne = -1 := by decide +kernel

theorem power_d : power d (fieldSize / 2) = -1 := by decide +kernel

theorem isSome_sqrt?_iff (x : Scalar) : (sqrt? x).isSome = true ↔ ∃ y, y * y = x := by
  constructor
  · intro h
    obtain ⟨y, hy⟩ := Option.isSome_iff_exists.mp h
    simp only [sqrt?] at hy
    split at hy
    · exact ⟨_, ‹_›⟩
    · split at hy
      · exact ⟨_, ‹_›⟩
      · cases hy
  · rintro ⟨y, rfl⟩
    have hcases := pow_mul_self_of_square (p := fieldSize) (by decide) (toZMod y)
    simp only [← toZMod_mul, ← toZMod_power] at hcases
    have hminus := congrArg toZMod sqrtMinusOne_mul_self
    simp only [toZMod_mul, toZMod_neg, toZMod_one] at hminus
    simp only [sqrt?]
    generalize power (y * y) ((fieldSize + 3) / 8) = root at hcases ⊢
    rcases hcases with h | h
    · rw [if_pos (toZMod_inj.mp h)]
      rfl
    · have hturned : root * sqrtMinusOne * (root * sqrtMinusOne) = y * y := by
        rw [← toZMod_inj]
        simp only [toZMod_mul] at h ⊢
        linear_combination (toZMod sqrtMinusOne * toZMod sqrtMinusOne) * h -
          toZMod y * toZMod y * hminus
      split
      · rfl
      · rfl

/-- The coefficient of the curve is no square, and minus one is one. -/
theorem toZMod_denominator_ne_zero (y : Scalar) : toZMod (d * y * y + 1) ≠ 0 := by
  have hminus := congrArg toZMod sqrtMinusOne_mul_self
  have hpower := congrArg toZMod power_d
  simp only [toZMod_mul, toZMod_add, toZMod_neg, toZMod_one, toZMod_power] at hminus hpower ⊢
  intro h
  have hy : toZMod y ≠ 0 := by
    intro hy
    simp [hy] at h
  have hd : toZMod d = toZMod sqrtMinusOne / toZMod y * (toZMod sqrtMinusOne / toZMod y) := by
    field_simp
    linear_combination h - hminus
  have hd0 : toZMod d ≠ 0 := by
    intro hd0
    simp [hd0] at h
  rw [(ZMod.euler_criterion fieldSize hd0).mp ⟨_, hd⟩] at hpower
  exact absurd (toZMod_inj.mp (by simpa using hpower)) (show (1 : Scalar) ≠ -1 by decide +kernel)

theorem isSome_lift?_iff (y : Scalar) (odd : Bool) :
    (lift? y odd).isSome = true ↔ ∃ x, Contains x y := by
  have hdenom := toZMod_denominator_ne_zero y
  simp only [lift?, Option.isSome_map, isSome_sqrt?_iff, Contains, ← toZMod_inj, toZMod_mul,
    toZMod_sub, toZMod_one, toZMod_inverse hdenom]
  simp only [toZMod_add, toZMod_mul, toZMod_one] at hdenom ⊢
  refine exists_congr fun x => ?_
  rw [← div_eq_mul_inv, eq_div_iff hdenom]
  constructor
  · intro h
    linear_combination -h
  · intro h
    linear_combination -h

theorem isSome_decode?_iff {bytes : Bytes} (h : bytes.length = 32) :
    (decode? bytes).isSome = true ↔ ∃ x, Contains x (ordinate bytes) := by
  unfold decode?
  rw [if_pos h, isSome_lift?_iff, Nat.one_shiftLeft]
  rfl

end Edwards
end Signet
