import Mathlib

/-! # Runs of characters

Words and numbers are read by taking characters as long as they pass a test. This takes a whole run
when the text behind it does not go on with such a character. A number in decimal is a run of digits,
and its first digit is zero only if it is the only one. -/
namespace Signet.Text

theorem takeWhile_append_stop {p : Char → Bool} {cs rest : List Char} (h : ∀ c ∈ cs, p c = true)
    (hstop : ∀ c ∈ rest.head?, p c = false) : (cs ++ rest).takeWhile p = cs := by
  have hrest : rest.takeWhile p = [] := by
    cases rest with
    | nil => rfl
    | cons c rest => exact List.takeWhile_cons_of_neg (by simp [hstop c rfl])
  rw [List.takeWhile_append_of_pos h, hrest, List.append_nil]

theorem exists_digits (n : Nat) :
    ∃ c cs, (toString n).toList = c :: cs ∧ ∀ d ∈ c :: cs, d.isDigit = true := by
  rw [Nat.toString_eq_ofList_toDigits, String.toList_ofList]
  obtain ⟨c, cs, hcs⟩ := List.exists_cons_of_ne_nil (Nat.toDigits_ne_nil (b := 10) (n := n))
  refine ⟨c, cs, hcs, fun d hd => ?_⟩
  exact Nat.isDigit_of_mem_toDigits (by decide) (by decide) (hcs ▸ hd)

theorem isDigit_of_mem_toString {n : Nat} {c : Char} (h : c ∈ (toString n).toList) :
    c.isDigit = true := by
  obtain ⟨d, ds, hds, hdigits⟩ := exists_digits n
  exact hdigits c (hds ▸ h)

theorem toDigits_head_ne_zero {n : Nat} (h : 0 < n) : (Nat.toDigits 10 n).head? ≠ some '0' := by
  induction n using Nat.strong_induction_on with
  | _ n ih =>
    by_cases hn : n < 10
    · rw [Nat.toDigits_of_lt_base hn]
      interval_cases n <;> decide
    · have hsplit := Nat.toDigits_append_toDigits (b := 10) (n := n / 10) (d := n % 10) (by omega)
        (by omega) (by omega)
      rw [Nat.div_add_mod] at hsplit
      rw [← hsplit, List.head?_append_of_ne_nil _ Nat.toDigits_ne_nil]
      exact ih (n / 10) (by omega) (by omega)

end Signet.Text
