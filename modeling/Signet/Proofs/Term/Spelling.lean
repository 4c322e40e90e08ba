import Mathlib
import Signet.Term.Text

/-! # The spelling of a term

Printing carries along what has been printed. Here are the characters of one term alone, by its
structure: `write` puts exactly these behind what is there. Proofs about printing use the equations
of `spell`, one for each kind of term. -/
namespace Signet.Term

def enclose (inTail : Bool) (cs : List Char) : List Char :=
  if inTail then '|' :: (cs ++ [']']) else cs

mutual

/-- The characters of a term. With `inTail` the term is the tail of the cells written since the
last open bracket. -/
def spell (inTail : Bool) : Term → List Char
  | .var v => enclose inTail ('_' :: 'G' :: (toString v).toList)
  | .atom a => if inTail && a == "[]" then [']'] else enclose inTail (Atom.text a).toList
  | .int i => enclose inTail (toString i.toInt).toList
  | .compound "." [head, tail] =>
    (if inTail then ',' else '[') :: (head.spell false ++ tail.spell true)
  | .compound f args => enclose inTail ((Atom.text f).toList ++ '(' :: spellArgs true args)

/-- The characters of the arguments of a compound and of the parenthesis behind them. -/
def spellArgs (first : Bool) : List Term → List Char
  | [] => [')']
  | t :: ts => (if first then [] else [',']) ++ (t.spell false ++ spellArgs false ts)

end

theorem not_cell {f : String} {args : List Term} (h : (compound f args).isCons = false)
    (head tail : Term) (hf : f = ".") (hargs : args = [head, tail]) : False := by
  subst hf hargs
  cases h

theorem spell_cons (inTail : Bool) (head tail : Term) :
    (cons head tail).spell inTail =
      (if inTail then ',' else '[') :: (head.spell false ++ tail.spell true) := by
  rw [cons, spell]

theorem spell_compound {f : String} {args : List Term} (h : (compound f args).isCons = false)
    (inTail : Bool) :
    (compound f args).spell inTail =
      enclose inTail ((Atom.text f).toList ++ '(' :: spellArgs true args) := by
  rw [spell]
  exact not_cell h

theorem toList_around (inTail : Bool) (text : String) :
    (around inTail text).toList = enclose inTail text.toList := by
  cases inTail <;> simp [around, enclose]

theorem toList_writeArgs {args : List Term}
    (h : ∀ a ∈ args, ∀ inTail acc, (write inTail acc a).toList = acc.toList ++ a.spell inTail)
    (first : Bool) (acc : String) :
    (writeArgs first acc args).toList ++ [')'] = acc.toList ++ spellArgs first args := by
  induction args generalizing first acc with
  | nil => simp [writeArgs, spellArgs]
  | cons t ts ih =>
    rw [writeArgs, ih fun a ha => h a (List.mem_cons_of_mem t ha), h t List.mem_cons_self, spellArgs]
    cases first <;> simp

theorem toList_write (inTail : Bool) (acc : String) (t : Term) :
    (write inTail acc t).toList = acc.toList ++ t.spell inTail := by
  induction t using induct generalizing inTail acc with
  | var v => simp [write, spell, toList_around]
  | atom a =>
    rw [write, spell, String.toList_append]
    split <;> simp [toList_around]
  | int i => simp [write, spell, toList_around]
  | compound f args ih =>
    cases hc : (compound f args).isCons with
    | true =>
      obtain ⟨head, tail, hcell⟩ := isCons_iff.mp hc
      obtain ⟨rfl, rfl⟩ := compound.inj hcell
      rw [hcell, spell_cons, cons, write, ih tail (by simp), ih head (by simp)]
      cases inTail <;> simp
    | false =>
      have hargs := toList_writeArgs ih true
      rw [write, spell_compound hc, String.toList_append]
      · cases inTail with
        | true =>
          have hclose : (")]" : String).toList = [')'] ++ [']'] := rfl
          rw [if_pos rfl, if_pos rfl, hclose, ← List.append_assoc, hargs]
          simp [enclose]
        | false =>
          have hclose : (")" : String).toList = [')'] := rfl
          rw [if_neg (by decide), if_neg (by decide), hclose, hargs]
          simp [enclose]
      · exact not_cell hc

theorem toList_text (t : Term) : t.text.toList = t.spell false := by
  rw [text, toList_write]
  rfl

/-- The tail of an open bracket is `[]`, a cell, or a term behind a bar. -/
theorem spell_tail (t : Term) :
    (t = nil ∧ t.spell true = [']']) ∨
      (∃ head tail, t = cons head tail ∧
        t.spell true = ',' :: (head.spell false ++ tail.spell true)) ∨
      t.spell true = '|' :: (t.spell false ++ [']']) := by
  cases t with
  | var v => exact .inr (.inr rfl)
  | atom a =>
    cases hnil : a == "[]" with
    | true => exact .inl ⟨by rw [eq_of_beq hnil]; rfl, by simp [spell, hnil]⟩
    | false => exact .inr (.inr (by simp [spell, hnil, enclose]))
  | int i => exact .inr (.inr rfl)
  | compound f args =>
    cases hc : (compound f args).isCons with
    | true =>
      obtain ⟨head, tail, hcell⟩ := isCons_iff.mp hc
      refine .inr (.inl ⟨head, tail, hcell, ?_⟩)
      rw [hcell, spell_cons, if_pos rfl]
    | false =>
      rw [spell_compound hc, spell_compound hc]
      exact .inr (.inr rfl)

end Signet.Term
