import Mathlib
import Signet.Toml.Quoted

/-! # Escapes and strings on one line

A character of a basic string is written as it is or as an escape, and the reader takes either back.
So it takes back a string on one line, character by character, and stops right behind it. -/
namespace Signet.Toml.Quoted

/-! ## Characters and escapes -/

theorem numbered?_hexDigit {n : Nat} (h : n < 128) :
    numbered? 4 ['0', '0', hexDigit (n / 16), hexDigit (n % 16)] = some (Char.ofNat n) := by
  revert n
  decide

theorem lt_of_not_isPlain {c : Char} (h : isPlain c = false) : c.toNat < 128 := by
  simp only [isPlain, Bool.or_eq_false_iff, Bool.and_eq_false_iff, decide_eq_false_iff_not] at h
  omega

theorem isPlain_hexDigit {n : Nat} (h : n < 16) : isPlain (hexDigit n) = true := by
  revert n
  decide

theorem ne_newline_of_isPlain {c : Char} (h : isPlain c = true) : c ≠ '\n' := by
  rintro rfl
  exact absurd h (by decide)

/-- A character is written as it is, or as an escape that the reader takes back. A backslash that
begins an escape does not look like one at the end of a line. -/
inductive Escaped (c : Char) : List Char → Prop
  | plain : isPlain c = true → c ≠ '"' → c ≠ '\\' → Escaped c [c]
  | escape {d : Char} {more : List Char} : d ≠ ' ' → d ≠ '\t' →
      (∀ e ∈ d :: more, isPlain e = true) →
      (∀ rest, unescape? (d :: (more ++ rest)) = some (c, rest)) → Escaped c ('\\' :: d :: more)

theorem escaped_escape (c : Char) : Escaped c (escape c) := by
  have hletter : ∀ d ∈ ['b', 't', 'n', 'f', 'r', '"', '\\'], lettered? d = some c →
      Escaped c ['\\', d] := by
    intro d hd
    have hother : d ≠ ' ' ∧ d ≠ '\t' ∧ isPlain d = true ∧ d ≠ 'u' ∧ d ≠ 'U' := by
      simp only [List.mem_cons, List.not_mem_nil, or_false] at hd
      rcases hd with rfl | rfl | rfl | rfl | rfl | rfl | rfl <;> decide
    obtain ⟨hspace, htab, hplain, hu, hU⟩ := hother
    intro hc
    refine .escape hspace htab (by simpa using hplain) fun rest => ?_
    simp [unescape?, hu, hU, hc]
  unfold escape
  split
  · rename_i h
    exact hletter 'b' (by decide) (by rw [h]; decide)
  split
  · rename_i h
    exact hletter 't' (by decide) (by rw [h]; decide)
  split
  · rename_i h
    exact hletter 'n' (by decide) (by rw [h]; decide)
  split
  · rename_i h
    exact hletter 'f' (by decide) (by rw [h]; decide)
  split
  · rename_i h
    exact hletter 'r' (by decide) (by rw [h]; decide)
  split
  · rename_i h
    rcases h with rfl | rfl
    · exact hletter '"' (by decide) (by decide)
    · exact hletter '\\' (by decide) (by decide)
  split
  · rename_i hquote hplain
    rw [not_or] at hquote
    exact .plain hplain hquote.1 hquote.2
  · rename_i hplain
    have hlt := lt_of_not_isPlain (Bool.eq_false_iff.mpr hplain)
    have hhigh := isPlain_hexDigit (n := c.toNat / 16) (by omega)
    have hlow := isPlain_hexDigit (n := c.toNat % 16) (by omega)
    have hdigits : ∀ e ∈ ['u', '0', '0', hexDigit (c.toNat / 16), hexDigit (c.toNat % 16)],
        isPlain e = true := by
      simp only [List.forall_mem_cons, hhigh, hlow, List.not_mem_nil, false_imp_iff, implies_true,
        and_true]
      decide
    refine .escape (by decide) (by decide) hdigits fun rest => ?_
    simp [unescape?, numbered?_hexDigit hlt]

theorem isPlain_of_mem_escape {c d : Char} (h : d ∈ escape c) : isPlain d = true := by
  have hall : ∀ {xs : List Char}, Escaped c xs → ∀ e ∈ xs, isPlain e = true := by
    intro xs hxs
    cases hxs with
    | plain hplain _ _ => simpa using hplain
    | escape _ _ hmore _ => exact List.forall_mem_cons.mpr ⟨by decide, hmore⟩
  exact hall (escaped_escape c) d h

theorem push_some (c : Char) (text rest : List Char) :
    push c (some (text, rest)) = some (c :: text, rest) := rfl

/-! ## Strings on one line -/

theorem basic_quote (rest : List Char) : basic ('"' :: rest) = some ([], rest) := by
  rw [basic]
  rfl

theorem Escaped.basic_append {c : Char} {xs : List Char} (h : Escaped c xs) (tail : List Char) :
    basic (xs ++ tail) = push c (basic tail) := by
  cases h with
  | plain hplain hquote hslash =>
    rw [List.singleton_append, basic, if_neg hquote, if_neg hslash, if_pos hplain]
  | escape _ _ _ hread =>
    rw [List.cons_append, List.cons_append, basic, if_neg (by decide), if_pos rfl]
    split
    · rename_i e behind he
      rw [hread] at he
      cases he
      rfl
    · rename_i he
      rw [hread] at he
      cases he

theorem basic_written (cs rest : List Char) :
    basic (cs.flatMap escape ++ '"' :: rest) = some (cs, rest) := by
  induction cs with
  | nil => exact basic_quote rest
  | cons c cs ih =>
    rw [List.flatMap_cons, List.append_assoc, (escaped_escape c).basic_append, ih, push_some]

theorem literal_written {cs : List Char} (h : ∀ c ∈ cs, isPlain c = true ∧ c ≠ '\'')
    (rest : List Char) : literal (cs ++ '\'' :: rest) = some (cs, rest) := by
  induction cs with
  | nil => rfl
  | cons c cs ih =>
    obtain ⟨hc, hcs⟩ := List.forall_mem_cons.mp h
    rw [List.cons_append, literal, if_neg hc.2, if_pos hc.1, ih hcs, push_some]

end Signet.Toml.Quoted
