import Mathlib
import Signet.Proofs.Text.Runs
import Signet.Term.Text

/-! # Words and what stands behind them

A number or an unquoted atom runs on until a character that no word holds; a quoted atom runs until
the first quote that no backslash goes before. So each of them is told from the text behind it, as
long as that text does not go on with a word: two texts that begin with an atom, or with a number,
and are equal, begin with the same one and go on alike. -/
namespace Signet

/-- The characters of unquoted atoms and of numbers. -/
def isWordChar (c : Char) : Bool := c.isAlphanum || c == '_' || c == '-'

/-- The text does not go on with a word. -/
def Breaks (rest : List Char) : Prop := ∀ c ∈ rest.head?, isWordChar c = false

theorem word_append_inj {xs ys r s : List Char} (hx : ∀ c ∈ xs, isWordChar c = true)
    (hy : ∀ c ∈ ys, isWordChar c = true) (hr : Breaks r) (hs : Breaks s)
    (h : xs ++ r = ys ++ s) : xs = ys ∧ r = s := by
  have hrun := congrArg (List.takeWhile isWordChar) h
  rw [Text.takeWhile_append_stop hx hr, Text.takeWhile_append_stop hy hs] at hrun
  exact ⟨hrun, List.append_cancel_left (hrun ▸ h)⟩

theorem isWordChar_of_mem_toString {n : Nat} {c : Char} (h : c ∈ (toString n).toList) :
    isWordChar c = true := by
  simp [isWordChar, Char.isAlphanum, Text.isDigit_of_mem_toString h]

theorem nat_append_inj {m n : Nat} {r s : List Char} (hr : Breaks r) (hs : Breaks s)
    (h : (toString m).toList ++ r = (toString n).toList ++ s) : m = n ∧ r = s := by
  obtain ⟨hmn, hrs⟩ := word_append_inj (fun _ hc => isWordChar_of_mem_toString hc)
    (fun _ hc => isWordChar_of_mem_toString hc) hr hs h
  exact ⟨Nat.repr_inj.mp (String.toList_inj.mp hmn), hrs⟩

/-- A number begins with a digit or the sign and goes on in digits. -/
theorem int_eq_cons (i : Int) :
    ∃ c cs, (toString i).toList = c :: cs ∧ (c.isDigit = true ∨ c = '-') ∧
      ∀ d ∈ c :: cs, isWordChar d = true := by
  cases i with
  | ofNat n =>
    obtain ⟨c, cs, hcs, hdigits⟩ := Text.exists_digits n
    refine ⟨c, cs, hcs, .inl (hdigits c List.mem_cons_self), ?_⟩
    intro d hd
    exact isWordChar_of_mem_toString (n := n) (hcs ▸ hd)
  | negSucc n =>
    have hminus : (toString (Int.negSucc n)).toList = '-' :: (toString (n + 1)).toList :=
      String.toList_append ..
    refine ⟨'-', _, hminus, .inr rfl, ?_⟩
    intro d hd
    cases hd with
    | head => decide
    | tail _ hd => exact isWordChar_of_mem_toString hd

theorem int_append_inj {i j : Int} {r s : List Char} (hr : Breaks r) (hs : Breaks s)
    (h : (toString i).toList ++ r = (toString j).toList ++ s) : i = j ∧ r = s := by
  obtain ⟨c, cs, hi, -, hci⟩ := int_eq_cons i
  obtain ⟨d, ds, hj, -, hdj⟩ := int_eq_cons j
  rw [← hi] at hci
  rw [← hj] at hdj
  obtain ⟨hij, hrs⟩ := word_append_inj hci hdj hr hs h
  exact ⟨Int.repr_inj.mp (String.toList_inj.mp hij), hrs⟩

namespace Atom

theorem escape_append_inj {x y : Char} {xs ys : List Char}
    (h : escape x ++ xs = escape y ++ ys) : x = y ∧ xs = ys := by
  unfold escape at h
  split at h
  · split at h
    · simpa using h
    · rename_i hy
      simp only [List.cons_append, List.cons.injEq] at h
      exact absurd (.inr h.1.symm) hy
  · rename_i hx
    split at h
    · simp only [List.cons_append, List.cons.injEq] at h
      exact absurd (.inr h.1) hx
    · simpa using h

theorem escape_append_ne (c : Char) (xs ys : List Char) : escape c ++ xs ≠ '\'' :: ys := by
  intro h
  unfold escape at h
  split at h
  · simp at h
  · rename_i hc
    exact hc (.inl (List.cons.inj h).1)

/-- Quoted text runs to the first quote that is not escaped. -/
theorem escaped_append_inj {xs ys r s : List Char}
    (h : xs.flatMap escape ++ '\'' :: r = ys.flatMap escape ++ '\'' :: s) : xs = ys ∧ r = s := by
  induction xs generalizing ys with
  | nil =>
    cases ys with
    | nil => simpa using h
    | cons y ys =>
      rw [List.flatMap_cons, List.append_assoc] at h
      exact absurd h.symm (escape_append_ne y _ _)
  | cons x xs ih =>
    rw [List.flatMap_cons, List.append_assoc] at h
    cases ys with
    | nil => exact absurd h (escape_append_ne x _ _)
    | cons y ys =>
      rw [List.flatMap_cons, List.append_assoc] at h
      obtain ⟨hxy, hrest⟩ := escape_append_inj h
      obtain ⟨hxys, hrs⟩ := ih hrest
      exact ⟨by rw [hxy, hxys], hrs⟩

/-- The three ways to write an atom. -/
inductive Written (name : String) : List Char → Prop
  | brackets : name = "[]" → Written name ['[', ']']
  | word {c : Char} {cs : List Char} : name.toList = c :: cs → c.isLower = true →
      (∀ d ∈ c :: cs, isWordChar d = true) → Written name (c :: cs)
  | quoted : Written name ('\'' :: (name.toList.flatMap escape ++ ['\'']))

theorem written_text (name : String) : Written name (text name).toList := by
  unfold text
  split
  · rename_i hplain
    unfold isPlain at hplain
    rcases Bool.or_eq_true_iff.mp hplain with hnil | hword
    · rw [eq_of_beq hnil]
      exact .brackets rfl
    · split at hword
      · rename_i c cs hcs
        rw [Bool.and_eq_true, List.all_eq_true] at hword
        obtain ⟨hc, hrest⟩ := hword
        rw [hcs]
        refine .word hcs hc ?_
        intro d hd
        cases hd with
        | head => simp [isWordChar, Char.isAlphanum, Char.isAlpha, hc]
        | tail _ hd => simp [isWordChar, hrest d hd]
      · cases hword
  · rw [String.toList_ofList, List.cons_append]
    exact .quoted

theorem Written.exists_head {name : String} {xs : List Char} (h : Written name xs) :
    ∃ c cs, xs = c :: cs ∧ (c = '[' ∨ c = '\'' ∨ c.isLower = true) := by
  cases h with
  | brackets _ => exact ⟨_, _, rfl, .inl rfl⟩
  | word _ hc _ => exact ⟨_, _, rfl, .inr (.inr hc)⟩
  | quoted => exact ⟨_, _, rfl, .inr (.inl rfl)⟩

/-- A bracket that opens an atom is closed at once. -/
theorem Written.bracket {name : String} {xs r s : List Char} (h : Written name xs)
    (hxs : xs ++ r = '[' :: s) : s = ']' :: r := by
  cases h with
  | brackets _ => exact (List.cons.inj hxs).2.symm
  | word _ hc _ => exact absurd ((List.cons.inj hxs).1 ▸ hc) (by decide)
  | quoted => exact absurd (List.cons.inj hxs).1 (by decide)

theorem Written.append_inj {a b : String} {xs ys r s : List Char} (ha : Written a xs)
    (hb : Written b ys) (hr : Breaks r) (hs : Breaks s) (h : xs ++ r = ys ++ s) :
    a = b ∧ r = s := by
  -- atoms written in different ways begin with different characters
  cases ha with
  | brackets hna =>
    cases hb with
    | brackets hnb => exact ⟨hna.trans hnb.symm, by simpa using h⟩
    | word _ hc _ => exact absurd ((List.cons.inj h).1 ▸ hc) (by decide)
    | quoted => exact absurd (List.cons.inj h).1 (by decide)
  | word hna hc hword =>
    cases hb with
    | brackets _ => exact absurd ((List.cons.inj h).1 ▸ hc) (by decide)
    | word hnb _ hword' =>
      obtain ⟨hnames, hrs⟩ := word_append_inj hword hword' hr hs h
      exact ⟨String.toList_inj.mp (by rw [hna, hnb, hnames]), hrs⟩
    | quoted => exact absurd ((List.cons.inj h).1 ▸ hc) (by decide)
  | quoted =>
    cases hb with
    | brackets _ => exact absurd (List.cons.inj h).1 (by decide)
    | word _ hc _ => exact absurd ((List.cons.inj h).1 ▸ hc) (by decide)
    | quoted =>
      rw [List.cons_append, List.cons_append, List.append_assoc, List.append_assoc] at h
      obtain ⟨hnames, hrs⟩ := escaped_append_inj (List.cons.inj h).2
      exact ⟨String.toList_inj.mp hnames, hrs⟩

end Atom

end Signet
