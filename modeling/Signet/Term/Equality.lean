import Signet.Term.Basic

/-! Equality of terms. The comparison keeps the pairs still to be compared on an explicit
stack, so terms of any depth are compared without a deep call chain. `sameAll_iff` says
that it accepts exactly the stacks whose two sides are identical, pair by pair; equality
of terms is decided through it. -/

namespace Signet.Term

/-- The pairs that two terms leave to be compared, or `none` when their heads differ. -/
def sameHead : Term → Term → Option (List (Term × Term))
  | .var v, .var w => if v = w then some [] else none
  | .atom a, .atom b => if a = b then some [] else none
  | .int i, .int j => if i = j then some [] else none
  | .compound f args, .compound g args' =>
    if f = g ∧ args.length = args'.length then some (args.zip args') else none
  | _, _ => none

/-- The size of all left sides. -/
def leftSize (pairs : List (Term × Term)) : Nat := total (fun p => p.1.size) pairs

theorem leftSize_append (ps qs : List (Term × Term)) :
    leftSize (ps ++ qs) = leftSize ps + leftSize qs := by
  exact total_append ..

theorem leftSize_zip_le (args args' : List Term) : leftSize (args.zip args') ≤ sizeArgs args := by
  induction args generalizing args' with
  | nil => simp [leftSize, total]
  | cons a as ih =>
    cases args' with
    | nil => simp [leftSize, total]
    | cons b bs =>
      have := ih bs
      simp only [leftSize, List.zip_cons_cons, total, sizeArgs] at this ⊢
      omega

theorem leftSize_lt_of_sameHead {a b : Term} {ps : List (Term × Term)}
    (h : sameHead a b = some ps) : leftSize ps < a.size := by
  unfold sameHead at h
  split at h
  · simp_all [leftSize, total, size]
  · simp_all [leftSize, total, size]
  · simp_all [leftSize, total, size]
  · rename_i f args g args'
    split at h
    · cases h
      have := leftSize_zip_le args args'
      rw [size]
      omega
    · cases h
  · cases h

/-- Compares the pairs on a stack, the top one first. -/
def sameAll : List (Term × Term) → Bool
  | [] => true
  | (a, b) :: pending =>
    match _h : sameHead a b with
    | none => false
    | some ps => sameAll (ps ++ pending)
termination_by pairs => leftSize pairs
decreasing_by
  have := leftSize_lt_of_sameHead _h
  simp only [leftSize_append]
  simp only [leftSize, total] at this ⊢
  omega

theorem forall_zip_eq {args args' : List Term} (h : args.length = args'.length) :
    (∀ p ∈ args.zip args', p.1 = p.2) ↔ args = args' := by
  induction args generalizing args' with
  | nil => cases args' <;> simp_all
  | cons a as ih =>
    cases args' with
    | nil => simp at h
    | cons b bs => simpa using fun _ => by simpa using ih (Nat.succ.inj h)

theorem eq_of_sameHead {a b : Term} {ps : List (Term × Term)} (h : sameHead a b = some ps) :
    a = b ↔ ∀ p ∈ ps, p.1 = p.2 := by
  unfold sameHead at h
  split at h
  · simp_all
  · simp_all
  · simp_all
  · split at h
    · rename_i hc
      cases h
      rw [forall_zip_eq hc.2, hc.1]
      simp
    · cases h
  · cases h

theorem ne_of_sameHead_none {a b : Term} (h : sameHead a b = none) : a ≠ b := by
  rintro rfl
  cases a <;> simp [sameHead] at h

theorem sameAll_iff (pairs : List (Term × Term)) :
    sameAll pairs = true ↔ ∀ p ∈ pairs, p.1 = p.2 := by
  fun_induction sameAll pairs with
  | case1 => simp
  | case2 a b pending h => simp [ne_of_sameHead_none h]
  | case3 a b pending ps h ih =>
    rw [ih]
    simp only [List.mem_append, List.mem_cons]
    constructor
    · rintro hp q (rfl | hq)
      · exact (eq_of_sameHead h).mpr fun r hr => hp r (.inl hr)
      · exact hp q (.inr hq)
    · rintro hp q (hq | hq)
      · exact (eq_of_sameHead h).mp (hp (a, b) (.inl rfl)) q hq
      · exact hp q (.inr hq)

instance : DecidableEq Term := fun a b =>
  decidable_of_iff (sameAll [(a, b)] = true) (by simp [sameAll_iff])

end Signet.Term
