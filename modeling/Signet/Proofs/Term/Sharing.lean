import Mathlib
import Signet.Term.Equality

/-! # Equality of terms that share arguments

In memory the arguments of a compound are a slice, and compounds may hold the same one. Equality then
has nothing to compare in it. As a slice is never changed, and holds only what was there before it,
a term is read off by following the slices, and the comparison, which follows them pair by pair,
accepts exactly the pairs that read alike. -/
namespace Signet

namespace Term

/-- Terms built alike, node by node. -/
inductive Identical : Term → Term → Prop
  | var (v : Nat) : Identical (.var v) (.var v)
  | atom (a : String) : Identical (.atom a) (.atom a)
  | int (i : Int64) : Identical (.int i) (.int i)
  | compound {f : String} {args args' : List Term} : args.length = args'.length →
      (∀ p ∈ args.zip args', Identical p.1 p.2) →
      Identical (.compound f args) (.compound f args')

theorem identical_self (t : Term) : Identical t t := by
  induction t using induct with
  | var v => exact .var v
  | atom a => exact .atom a
  | int i => exact .int i
  | compound f args ih =>
    refine .compound rfl fun p hp => ?_
    have hsame : p.1 = p.2 := (forall_zip_eq rfl).mpr rfl p hp
    rw [← hsame]
    exact ih p.1 (List.of_mem_zip hp).1

theorem identical_iff {a b : Term} : Identical a b ↔ a = b := by
  constructor
  · intro h
    induction h with
    | var v => rfl
    | atom a => rfl
    | int i => rfl
    | compound hlength _ ih => rw [(forall_zip_eq hlength).mp ih]
  · rintro rfl
    exact identical_self a

end Term

/-- A term in memory: the arguments of a compound are a slice. -/
inductive Ref where
  | var (id : Nat)
  | atom (name : String)
  | int (value : Int64)
  | compound (functor : String) (slice : Nat)

/-- The slices of arguments, numbered in the order in which they were stored. -/
structure Memory where
  slices : Nat → List Ref
  older : ∀ p f q, .compound f q ∈ slices p → q < p

namespace Memory
open Term (Identical sameHead leftSize)

/-- How many slices were stored when the term came to be. -/
def age : Ref → Nat
  | .compound _ p => p + 1
  | _ => 0

theorem age_lt_of_mem (m : Memory) {p : Nat} {r : Ref} (h : r ∈ m.slices p) : age r < p + 1 := by
  cases r with
  | compound f q => exact Nat.succ_lt_succ (m.older p f q h)
  | _ => exact Nat.succ_pos p

/-- The term that is stored. -/
def read (m : Memory) : Ref → Term
  | .var v => .var v
  | .atom a => .atom a
  | .int i => .int i
  | .compound f p => .compound f ((m.slices p).attach.map fun r => m.read r.1)
termination_by r => age r
decreasing_by exact m.age_lt_of_mem r.2

variable (m : Memory)

@[simp] theorem read_var (v : Nat) : m.read (.var v) = .var v := by rw [read]

@[simp] theorem read_atom (a : String) : m.read (.atom a) = .atom a := by rw [read]

@[simp] theorem read_int (i : Int64) : m.read (.int i) = .int i := by rw [read]

@[simp] theorem read_compound (f : String) (p : Nat) :
    m.read (.compound f p) = .compound f ((m.slices p).map m.read) := by
  rw [read, List.attach_map_val (f := m.read)]

/-- The pairs that two terms leave to be compared, the last arguments first, and none where both
hold one slice; `none` when their heads differ. -/
def pairs? : Ref → Ref → Option (List (Ref × Ref))
  | .var v, .var w => if v = w then some [] else none
  | .atom a, .atom b => if a = b then some [] else none
  | .int i, .int j => if i = j then some [] else none
  | .compound f p, .compound g q =>
    if f = g ∧ (m.slices p).length = (m.slices q).length then
      some (if p = q then [] else ((m.slices p).zip (m.slices q)).reverse)
    else none
  | _, _ => none

/-- The two terms that a pair stands for. -/
def readPair (p : Ref × Ref) : Term × Term := (m.read p.1, m.read p.2)

variable {m} {r s : Ref} {ps : List (Ref × Ref)}

theorem ne_of_pairs?_none (h : m.pairs? r s = none) : m.read r ≠ m.read s := by
  apply Term.ne_of_sameHead_none
  cases r <;> cases s <;> simp_all [pairs?, sameHead]

/-- What leaves pairs to be compared: terms that read alike leave none, and compounds with one
functor and one arity leave those of their arguments. -/
theorem pairs?_cases (h : m.pairs? r s = some ps) :
    (m.read r = m.read s ∧ ps = []) ∨
      ∃ f p q, r = .compound f p ∧ s = .compound f q ∧
        (m.slices p).length = (m.slices q).length ∧
        ps = ((m.slices p).zip (m.slices q)).reverse := by
  unfold pairs? at h
  split at h
  · split at h
    · rename_i hvw
      cases h
      exact .inl ⟨by rw [hvw], rfl⟩
    · cases h
  · split at h
    · rename_i hab
      cases h
      exact .inl ⟨by rw [hab], rfl⟩
    · cases h
  · split at h
    · rename_i hij
      cases h
      exact .inl ⟨by rw [hij], rfl⟩
    · cases h
  · split at h
    · rename_i f p g q hc
      cases h
      obtain ⟨rfl, hlength⟩ := hc
      -- a slice that both hold reads alike, so it may be left out
      by_cases hpq : p = q
      · exact .inl ⟨by rw [hpq], if_pos hpq⟩
      · exact .inr ⟨f, p, q, rfl, rfl, hlength, if_neg hpq⟩
    · cases h
  · cases h

theorem map_eq_iff_forall_zip {rs ss : List Ref} (h : rs.length = ss.length) :
    rs.map m.read = ss.map m.read ↔ ∀ p ∈ rs.zip ss, m.read p.1 = m.read p.2 := by
  have hlength : (rs.map m.read).length = (ss.map m.read).length := by simpa using h
  rw [← Term.forall_zip_eq hlength, List.zip_map]
  exact List.forall_mem_map

theorem read_eq_iff_of_pairs? (h : m.pairs? r s = some ps) :
    m.read r = m.read s ↔ ∀ p ∈ ps, m.read p.1 = m.read p.2 := by
  rcases pairs?_cases h with ⟨hsame, rfl⟩ | ⟨f, p, q, rfl, rfl, hlength, rfl⟩
  · simp [hsame]
  · simp only [read_compound, Term.compound.injEq, true_and, List.mem_reverse]
    exact map_eq_iff_forall_zip hlength

theorem leftSize_lt_of_pairs? (h : m.pairs? r s = some ps) :
    leftSize (ps.map m.readPair) < (m.read r).size := by
  rcases pairs?_cases h with ⟨-, rfl⟩ | ⟨f, p, q, rfl, rfl, -, rfl⟩
  · exact Term.size_pos _
  · have hle := Term.leftSize_zip_le ((m.slices p).map m.read) ((m.slices q).map m.read)
    rw [List.zip_map] at hle
    rw [List.map_reverse, leftSize, total_reverse, read_compound, Term.size]
    exact Nat.lt_of_le_of_lt hle (by omega)

/-- Compares the pairs on a stack, the top one first. -/
def sameAll (m : Memory) : List (Ref × Ref) → Bool
  | [] => true
  | (r, s) :: pending =>
    match _h : m.pairs? r s with
    | none => false
    | some ps => m.sameAll (ps ++ pending)
termination_by pairs => leftSize (pairs.map m.readPair)
decreasing_by
  have hlt := leftSize_lt_of_pairs? _h
  rw [List.map_append, Term.leftSize_append, List.map_cons]
  simp only [leftSize, total, readPair] at hlt ⊢
  omega

/-- Equality of terms. -/
def same (m : Memory) (r s : Ref) : Bool := m.sameAll [(r, s)]

/-- Equality of compounds: of the functors, of the arities, and of the arguments one by one. -/
def sameCompound (m : Memory) (f : String) (p : Nat) (g : String) (q : Nat) : Bool :=
  f == g && (m.slices p).length == (m.slices q).length &&
    ((m.slices p).zip (m.slices q)).all fun (r, s) => m.same r s

theorem sameAll_iff (m : Memory) (pairs : List (Ref × Ref)) :
    m.sameAll pairs = true ↔ ∀ p ∈ pairs, m.read p.1 = m.read p.2 := by
  fun_induction sameAll m pairs with
  | case1 => simp
  | case2 r s pending h => simp [ne_of_pairs?_none h]
  | case3 r s pending ps h ih =>
    rw [ih, List.forall_mem_append, List.forall_mem_cons, read_eq_iff_of_pairs? h]

theorem same_iff (m : Memory) (r s : Ref) : m.same r s = true ↔ m.read r = m.read s := by
  rw [same, sameAll_iff]
  simp

theorem sameCompound_iff (m : Memory) (f : String) (p : Nat) (g : String) (q : Nat) :
    m.sameCompound f p g q = true ↔ m.read (.compound f p) = m.read (.compound g q) := by
  simp only [sameCompound, Bool.and_eq_true, beq_iff_eq, List.all_eq_true, same_iff, read_compound,
    Term.compound.injEq, and_assoc]
  refine and_congr_right fun _ => ⟨?_, ?_⟩
  · rintro ⟨hlength, hargs⟩
    exact (map_eq_iff_forall_zip hlength).mpr hargs
  · intro hargs
    have hlength : (m.slices p).length = (m.slices q).length := by
      simpa using congrArg List.length hargs
    exact ⟨hlength, (map_eq_iff_forall_zip hlength).mp hargs⟩

/-- Equality compares structure, whatever is shared in memory, and compounds are compared like the
terms that they are. -/
theorem same_exact (m : Memory) (r s : Ref) :
    (m.same r s = true ↔ Identical (m.read r) (m.read s)) ∧
      (∀ a b : Term, Term.sameAll [(a, b)] = true ↔ Identical a b) ∧
      ∀ f p g q, m.sameCompound f p g q = m.same (.compound f p) (.compound g q) := by
  refine ⟨?_, ?_, ?_⟩
  · rw [same_iff, Term.identical_iff]
  · intro a b
    rw [Term.sameAll_iff, Term.identical_iff]
    simp
  · intro f p g q
    rw [Bool.eq_iff_iff, sameCompound_iff, same_iff]

end Memory

end Signet
