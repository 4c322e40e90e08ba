import Mathlib
import Signet.Crypto.Edwards
import Signet.Crypto.Weierstrass
import Signet.Proofs.Crypto.Residues

/-! # The fields have prime size

A number is prime if some residue has its predecessor as order, and that is seen from the prime
factors of the predecessor. Small factors are prime by trial division; the large ones are numbers
of the same kind. So a chain of such numbers, each resting on the ones behind it, shows the first of
them prime by a computation. -/
namespace Signet

namespace Primality

/-- A number that is one more than the product of the factors, and a residue that should have this
product as its order. -/
structure Link where
  base : Nat
  factors : List Nat

namespace Link

def number (l : Link) : Nat := l.factors.prod + 1

/-- The base has the order asked for: one power is one, and no proper part of it is. -/
def generates (l : Link) : Bool :=
  match Residue.ofNat? (p := l.number) l.base with
  | some x =>
    Residue.power x l.factors.prod == Residue.ofNat x 1 &&
      l.factors.all fun q => Residue.power x (l.factors.prod / q) != Residue.ofNat x 1
  | none => false

theorem prime_of_generates {l : Link} (h : l.generates = true)
    (hfactors : ∀ q ∈ l.factors, q.Prime) : l.number.Prime := by
  unfold generates at h
  split at h
  · rename_i x _
    simp only [Bool.and_eq_true, beq_iff_eq, List.all_eq_true, bne_iff_ne, ne_eq,
      ← Residue.toZMod_inj, Residue.toZMod_power, Residue.toZMod_ofNat, Nat.cast_one] at h
    refine lucas_primality l.number (Residue.toZMod x) h.1 ?_
    intro q hq hdvd
    obtain ⟨r, hr, hqr⟩ := (Prime.dvd_prod_iff hq.prime).mp hdvd
    obtain rfl := (Nat.prime_dvd_prime_iff_eq hq (hfactors r hr)).mp hqr
    exact h.2 q hr
  · cases h

end Link

/-- Trial division. -/
def isSmallPrime (n : Nat) : Bool :=
  2 ≤ n && (List.range (n.sqrt + 1)).all fun d => d < 2 || n % d != 0

theorem prime_of_isSmallPrime {n : Nat} (h : isSmallPrime n = true) : n.Prime := by
  simp only [isSmallPrime, Bool.and_eq_true, decide_eq_true_eq, List.all_eq_true, List.mem_range,
    Bool.or_eq_true, bne_iff_ne, ne_eq] at h
  refine Nat.prime_def_le_sqrt.mpr ⟨h.1, ?_⟩
  intro d hd hle hdvd
  rcases h.2 d (by omega) with hlt | hmod
  · omega
  · exact hmod (Nat.mod_eq_zero_of_dvd hdvd)

/-- Every factor of a link is a small prime or the number of a link behind it. -/
def holds : List Link → Bool
  | [] => true
  | l :: behind =>
    l.generates && (l.factors.all fun q => behind.any (·.number == q) || isSmallPrime q) &&
      holds behind

theorem prime_of_holds (chain : List Link) (h : holds chain = true) :
    ∀ l ∈ chain, l.number.Prime := by
  induction chain with
  | nil => simp
  | cons l behind ih =>
    simp only [holds, Bool.and_eq_true, List.all_eq_true, Bool.or_eq_true, List.any_eq_true,
      beq_iff_eq] at h
    obtain ⟨⟨hgenerates, hfactors⟩, hbehind⟩ := h
    have hprime : ∀ q ∈ l.factors, q.Prime := by
      intro q hq
      rcases hfactors q hq with ⟨m, hm, rfl⟩ | hsmall
      · exact ih hbehind m hm
      · exact prime_of_isSmallPrime hsmall
    intro m hm
    rcases List.mem_cons.mp hm with rfl | hm
    · exact Link.prime_of_generates hgenerates hprime
    · exact ih hbehind m hm

end Primality

open Primality

def Edwards.chain : List Link := [
  ⟨2, [2, 2, 3, 65147,
    74058212732561358302231226437062788676166966415465897661863160754340907]⟩,
  ⟨2, [2, 3, 353, 57467, 132049, 1923133, 31757755568855353,
    75445702479781427272750846543864801]⟩,
  ⟨7, [2, 2, 2, 2, 2, 3, 3, 5, 5, 75707, 72106336199, 1919519569386763]⟩,
  ⟨2, [2, 3, 7, 19, 47, 47, 127, 8574133]⟩,
  ⟨7, [2, 13, 2773320623]⟩,
  ⟨5, [2, 2437, 569003]⟩,
  ⟨10, [2, 2, 2, 3, 31, 107, 223, 4153, 430751]⟩]

theorem Edwards.fieldSize_prime : fieldSize.Prime :=
  prime_of_holds chain (by decide +kernel) _ List.mem_cons_self

def Secp256k1.chain : List Link := [
  ⟨3, [2, 3, 7, 13441,
    205115282021455665897114700593932402728804164701536103180137503955397371]⟩,
  ⟨10, [2, 3, 5, 29, 29, 31, 7723, 132896956044521568488119,
    255515944373312847190720520512484175977]⟩,
  ⟨3, [2, 2, 2, 7, 7, 11, 1627, 2657, 4423, 41201, 96557, 7240687, 107590001]⟩,
  ⟨3, [2, 2, 2, 2, 5, 5, 5, 5, 7, 29, 53]⟩,
  ⟨6, [2, 3, 22149492674086928081353]⟩,
  ⟨5, [2, 2, 2, 3, 5323, 173378833005251801]⟩,
  ⟨6, [2, 2, 2, 5, 5, 2621, 24809, 13331831]⟩]

theorem Secp256k1.fieldSize_prime : fieldSize.Prime :=
  prime_of_holds chain (by decide +kernel) _ List.mem_cons_self

def Secp256r1.chain : List Link := [
  ⟨6, [2, 3, 5, 5, 17, 257, 641, 1531, 65537, 490463, 6700417,
    835945042244614951780389953367877943453916927241]⟩,
  ⟨11, [2, 2, 2, 3, 3, 3, 5, 774023187263532362759620327192479577272145303]⟩,
  ⟨3, [2, 3, 3, 2411, 34282281433, 11290956913871, 46076956964474543]⟩,
  ⟨5, [2, 23, 18169, 78283, 704251]⟩,
  ⟨13, [2, 5, 17, 66417393611]⟩,
  ⟨6, [2, 5, 53, 173, 197, 3677]⟩,
  ⟨17, [2, 2, 2, 3, 7, 204061199]⟩,
  ⟨11, [2, 11, 23, 107, 3769]⟩]

theorem Secp256r1.fieldSize_prime : fieldSize.Prime :=
  prime_of_holds chain (by decide +kernel) _ List.mem_cons_self

end Signet
