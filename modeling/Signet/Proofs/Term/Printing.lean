import Signet.Proofs.Term.Spelling
import Signet.Proofs.Term.Words

/-! # Printing is unambiguous

The text of a term is followed, in the text of a larger one, by a comma, a bar or a closing bracket
or parenthesis, and by nothing else. So the statement behind the main one speaks of two texts that
begin with a term and go on in this way: they begin with the same term, and go on alike. The first
character tells variables, numbers and the rest apart; a bracket that is closed at once is an atom,
any other bracket is a list; an opening parenthesis tells a compound from its functor. -/
namespace Signet.Term

/-- What stands behind a part of a term in the text of the whole. -/
def closers : List Char := [',', '|', ']', ')']

/-- The text goes on as that of a larger term does behind a part of it, or not at all. -/
def Closes (rest : List Char) : Prop := ∀ c ∈ rest.head?, c ∈ closers

theorem Closes.breaks {rest : List Char} (h : Closes rest) : Breaks rest := by
  intro c hc
  have hmem := h c hc
  simp only [closers, List.mem_cons, List.not_mem_nil, or_false] at hmem
  rcases hmem with rfl | rfl | rfl | rfl <;> rfl

theorem breaks_paren (rest : List Char) : Breaks ('(' :: rest) := by
  intro c hc
  cases hc
  rfl

theorem closes_spell_tail (t : Term) (rest : List Char) : Closes (t.spell true ++ rest) := by
  intro c hc
  rcases spell_tail t with ⟨-, h⟩ | ⟨head, tail, -, h⟩ | h <;> rw [h] at hc <;> cases hc <;> decide

theorem closes_spellArgs (args : List Term) (rest : List Char) :
    Closes (spellArgs false args ++ rest) := by
  intro c hc
  cases args <;> cases hc <;> decide

/-- What the first character of a term tells about it. -/
inductive Lead where
  | variable
  | number
  | name

def lead : Term → Lead
  | .var _ => .variable
  | .int _ => .number
  | _ => .name

namespace Lead

/-- No term begins with a closer. -/
def ofChar? (c : Char) : Option Lead :=
  if c ∈ closers then none
  else if c = '_' then some .variable
  else if c.isDigit || c == '-' then some .number
  else some .name

theorem ne_of_class {p : Char → Bool} {c d : Char} (hc : p c = true) (hd : p d = false) :
    c ≠ d := by
  intro he
  rw [he, hd] at hc
  cases hc

theorem ofChar?_of_isDigit {c : Char} (h : c.isDigit = true) : ofChar? c = some .number := by
  rw [ofChar?, if_neg, if_neg (ne_of_class h rfl), if_pos (by simp [h])]
  simp [closers, ne_of_class h]

theorem ofChar?_of_isLower {c : Char} (h : c.isLower = true) : ofChar? c = some .name := by
  have hdigit : c.isDigit = false := by
    simp only [Char.isLower, Bool.and_eq_true, decide_eq_true_eq] at h
    simp only [Char.isDigit, Bool.and_eq_false_iff, decide_eq_false_iff_not]
    exact .inr fun hle => absurd (Nat.le_trans h.1 hle) (by decide)
  rw [ofChar?, if_neg, if_neg (ne_of_class h rfl), if_neg]
  · simp [hdigit, ne_of_class h]
  · simp [closers, ne_of_class h]

end Lead

theorem text_append_eq_cons (name : String) (behind : List Char) :
    ∃ c cs, (Atom.text name).toList ++ behind = c :: cs ∧ Lead.ofChar? c = some .name := by
  obtain ⟨c, cs, hcs, hc⟩ := (Atom.written_text name).exists_head
  refine ⟨c, cs ++ behind, by rw [hcs]; rfl, ?_⟩
  rcases hc with rfl | rfl | hlower
  · rfl
  · rfl
  · exact Lead.ofChar?_of_isLower hlower

theorem spell_eq_cons (t : Term) :
    ∃ c cs, t.spell false = c :: cs ∧ Lead.ofChar? c = some t.lead := by
  cases t with
  | var v => exact ⟨_, _, rfl, rfl⟩
  | atom a =>
    obtain ⟨c, cs, hcs, hc⟩ := text_append_eq_cons a []
    exact ⟨c, cs, by simpa [spell, enclose] using hcs, hc⟩
  | int i =>
    obtain ⟨c, cs, hcs, hc, -⟩ := int_eq_cons i.toInt
    refine ⟨c, cs, hcs, ?_⟩
    rcases hc with hdigit | rfl
    · exact Lead.ofChar?_of_isDigit hdigit
    · rfl
  | compound f args =>
    cases hc : (compound f args).isCons with
    | true =>
      obtain ⟨head, tail, hcell⟩ := isCons_iff.mp hc
      rw [hcell, spell_cons]
      exact ⟨_, _, rfl, rfl⟩
    | false =>
      rw [spell_compound hc]
      exact text_append_eq_cons f _

theorem spell_append_ne {c : Char} (hc : c ∈ closers) (t : Term) (r s : List Char) :
    t.spell false ++ r ≠ c :: s := by
  intro h
  obtain ⟨d, ds, ht, hd⟩ := spell_eq_cons t
  rw [ht] at h
  rw [(List.cons.inj h).1, Lead.ofChar?, if_pos hc] at hd
  cases hd

/-- Whatever closes behind it, the text of `t` is the beginning of no other term. -/
def Unmistakable (inTail : Bool) (t : Term) : Prop :=
  ∀ u r s, Closes r → Closes s → t.spell inTail ++ r = u.spell inTail ++ s → t = u ∧ r = s

theorem lead_eq {t u : Term} {r s : List Char} (h : t.spell false ++ r = u.spell false ++ s) :
    t.lead = u.lead := by
  obtain ⟨c, cs, ht, hc⟩ := spell_eq_cons t
  obtain ⟨d, ds, hu, hd⟩ := spell_eq_cons u
  rw [ht, hu] at h
  rw [(List.cons.inj h).1, hd] at hc
  exact (Option.some.inj hc).symm

theorem unmistakable_var (v : Nat) : Unmistakable false (.var v) := by
  intro u r s hr hs h
  have hlead := lead_eq h
  cases u with
  | var w =>
    obtain ⟨hvw, hrs⟩ := nat_append_inj hr.breaks hs.breaks (List.cons.inj (List.cons.inj h).2).2
    exact ⟨congrArg Term.var hvw, hrs⟩
  | _ => cases hlead

theorem unmistakable_int (i : Int64) : Unmistakable false (.int i) := by
  intro u r s hr hs h
  have hlead := lead_eq h
  cases u with
  | int j =>
    obtain ⟨hij, hrs⟩ := int_append_inj hr.breaks hs.breaks h
    exact ⟨congrArg Term.int (Int64.toInt_inj.mp hij), hrs⟩
  | _ => cases hlead

/-- A term that begins with an atom `f`: the atom itself, or a compound with this functor that is
no cell, whose arguments stand behind. -/
inductive Begins (f : String) : Term → List Char → Prop
  | atom : Begins f (.atom f) []
  | compound {args : List Term} : (Term.compound f args).isCons = false →
      Begins f (.compound f args) ('(' :: spellArgs true args)

theorem Begins.spell_eq {f : String} {t : Term} {behind : List Char} (h : Begins f t behind) :
    t.spell false = (Atom.text f).toList ++ behind := by
  cases h with
  | atom => simp [spell, enclose]
  | compound hc => exact spell_compound hc false

theorem Begins.breaks {f : String} {t : Term} {behind r : List Char} (h : Begins f t behind)
    (hr : Closes r) : Breaks (behind ++ r) := by
  cases h with
  | atom => exact hr.breaks
  | compound hc => exact breaks_paren _

theorem cell_or_begins {t : Term} (h : t.lead = .name) :
    (∃ head tail, t = cons head tail) ∨ ∃ f behind, Begins f t behind := by
  cases t with
  | var v => cases h
  | atom a => exact .inr ⟨a, [], .atom⟩
  | int i => cases h
  | compound f args =>
    cases hc : (compound f args).isCons with
    | true => exact .inl (isCons_iff.mp hc)
    | false => exact .inr ⟨f, _, .compound hc⟩

/-- Behind the bracket that opens a list stands a term, so the bracket is not closed at once. -/
theorem Begins.ne_cell {f : String} {t head tail : Term} {behind r s : List Char}
    (h : Begins f t behind) : t.spell false ++ r ≠ (cons head tail).spell false ++ s := by
  intro he
  rw [h.spell_eq, spell_cons, List.append_assoc, if_neg (by decide), List.cons_append,
    List.append_assoc] at he
  exact spell_append_ne (by decide) head _ _ ((Atom.written_text f).bracket he)

theorem spellArgs_cons_ne (first : Bool) (t : Term) (ts : List Term) (r s : List Char) :
    spellArgs first (t :: ts) ++ r ≠ ')' :: s := by
  intro h
  cases first with
  | true =>
    rw [spellArgs, if_pos rfl, List.nil_append, List.append_assoc] at h
    exact spell_append_ne (by decide) t _ _ h
  | false => exact absurd (List.cons.inj h).1 (by decide)

theorem spellArgs_append_inj {args args' : List Term} (h : ∀ a ∈ args, Unmistakable false a)
    {first : Bool} {r s : List Char}
    (he : spellArgs first args ++ r = spellArgs first args' ++ s) : args = args' ∧ r = s := by
  induction args generalizing args' first with
  | nil =>
    cases args' with
    | nil => exact ⟨rfl, (List.cons.inj he).2⟩
    | cons u us => exact absurd he.symm (spellArgs_cons_ne first u us s r)
  | cons t ts ih =>
    cases args' with
    | nil => exact absurd he (spellArgs_cons_ne first t ts r s)
    | cons u us =>
      simp only [spellArgs, List.append_assoc] at he
      obtain ⟨htu, hrest⟩ := h t List.mem_cons_self u _ _ (closes_spellArgs ts r)
        (closes_spellArgs us s) (List.append_cancel_left he)
      obtain ⟨htus, hrs⟩ := ih (fun a ha => h a (List.mem_cons_of_mem t ha)) hrest
      exact ⟨by rw [htu, htus], hrs⟩

/-- The same atom, and behind it a parenthesis or none: the same arguments or none. -/
theorem Begins.append_inj {f g : String} {t u : Term} {behind behind' r s : List Char}
    (ht : Begins f t behind) (hu : Begins g u behind')
    (hargs : ∀ args, t = .compound f args → ∀ a ∈ args, Unmistakable false a)
    (hr : Closes r) (hs : Closes s) (h : t.spell false ++ r = u.spell false ++ s) :
    t = u ∧ r = s := by
  have hparen : ∀ {rest : List Char} {cs : List Char}, Closes rest → rest ≠ '(' :: cs := by
    intro rest cs hrest he
    have hmem := hrest '(' (by rw [he]; rfl)
    exact absurd hmem (by decide)
  rw [ht.spell_eq, hu.spell_eq, List.append_assoc, List.append_assoc] at h
  obtain ⟨rfl, hbehind⟩ := (Atom.written_text f).append_inj (Atom.written_text g) (ht.breaks hr)
    (hu.breaks hs) h
  cases ht with
  | atom =>
    cases hu with
    | atom => exact ⟨rfl, hbehind⟩
    | compound _ => exact absurd hbehind (hparen hr)
  | compound _ =>
    cases hu with
    | atom => exact absurd hbehind.symm (hparen hs)
    | compound _ =>
      obtain ⟨rfl, hrs⟩ := spellArgs_append_inj (hargs _ rfl) (List.cons.inj hbehind).2
      exact ⟨rfl, hrs⟩

theorem cells_append_inj {head tail head' tail' : Term} {r s : List Char}
    (hhead : Unmistakable false head) (htail : Unmistakable true tail) (hr : Closes r)
    (hs : Closes s)
    (h : (head.spell false ++ tail.spell true) ++ r = (head'.spell false ++ tail'.spell true) ++ s) :
    cons head tail = cons head' tail' ∧ r = s := by
  rw [List.append_assoc, List.append_assoc] at h
  obtain ⟨rfl, hrest⟩ := hhead head' _ _ (closes_spell_tail tail r) (closes_spell_tail tail' s) h
  obtain ⟨rfl, hrs⟩ := htail tail' r s hr hs hrest
  exact ⟨rfl, hrs⟩

theorem unmistakable_of_name {t : Term} (hlead : t.lead = .name)
    (hargs : ∀ f args, t = .compound f args → ∀ a ∈ args, ∀ inTail, Unmistakable inTail a) :
    Unmistakable false t := by
  intro u r s hr hs h
  rcases cell_or_begins hlead with ⟨head, tail, rfl⟩ | ⟨f, behind, ht⟩
  · rcases cell_or_begins (lead_eq h ▸ hlead) with ⟨head', tail', rfl⟩ | ⟨g, behind', hu⟩
    · have hparts := hargs "." [head, tail] rfl
      rw [spell_cons, spell_cons] at h
      exact cells_append_inj (hparts head (by simp) false) (hparts tail (by simp) true) hr hs
        (List.cons.inj h).2
    · exact absurd h.symm hu.ne_cell
  · rcases cell_or_begins (lead_eq h ▸ hlead) with ⟨head', tail', rfl⟩ | ⟨g, behind', hu⟩
    · exact absurd h ht.ne_cell
    · exact ht.append_inj hu (fun args he a ha => hargs f args he a ha false) hr hs h

/-- In the tail of a list the first character tells `[]`, a cell and other terms apart. -/
theorem Unmistakable.tail {t : Term} (h : Unmistakable false t)
    (hcell : ∀ head tail, t = cons head tail → Unmistakable false head ∧ Unmistakable true tail) :
    Unmistakable true t := by
  intro u r s hr hs he
  -- three forms on either side; only equal forms begin with the same character
  rcases spell_tail t with ⟨hnil, ht⟩ | ⟨head, tail, rfl, ht⟩ | ht <;>
    rcases spell_tail u with ⟨hnil', hu⟩ | ⟨head', tail', rfl, hu⟩ | hu <;> rw [ht, hu] at he
  case inl.inl => exact ⟨hnil.trans hnil'.symm, (List.cons.inj he).2⟩
  case inr.inl.inr.inl =>
    obtain ⟨hhead, htail⟩ := hcell head tail rfl
    exact cells_append_inj hhead htail hr hs (List.cons.inj he).2
  case inr.inr.inr.inr =>
    have hclose : ∀ rest, Closes (']' :: rest) := by
      intro rest c hc
      cases hc
      decide
    rw [List.cons_append, List.cons_append, List.append_assoc, List.append_assoc] at he
    obtain ⟨rfl, hrest⟩ := h u _ _ (hclose r) (hclose s) (List.cons.inj he).2
    exact ⟨rfl, (List.cons.inj hrest).2⟩
  all_goals exact absurd (List.cons.inj he).1 (by decide)

theorem Unmistakable.anywhere {t : Term} (h : Unmistakable false t)
    (hcell : ∀ head tail, t = cons head tail → Unmistakable false head ∧ Unmistakable true tail)
    (inTail : Bool) : Unmistakable inTail t := by
  cases inTail with
  | false => exact h
  | true => exact h.tail hcell

theorem unmistakable (t : Term) : ∀ inTail, Unmistakable inTail t := by
  -- both places of a term go into the induction: the tail of a cell is read behind its head
  induction t using induct with
  | var v => exact (unmistakable_var v).anywhere fun head tail he => by cases he
  | atom a =>
    have h : Unmistakable false (.atom a) := unmistakable_of_name rfl fun f args he => by cases he
    exact h.anywhere fun head tail he => by cases he
  | int i => exact (unmistakable_int i).anywhere fun head tail he => by cases he
  | compound f args ih =>
    have h : Unmistakable false (.compound f args) := by
      refine unmistakable_of_name rfl ?_
      intro g args' he a ha
      obtain ⟨rfl, rfl⟩ := compound.inj he
      exact ih a ha
    refine h.anywhere ?_
    intro head tail he
    obtain ⟨rfl, rfl⟩ := compound.inj he
    exact ⟨ih head (by simp) false, ih tail (by simp) true⟩

/-- Terms that print alike are the same term. -/
theorem text_inj {t u : Term} : t.text = u.text ↔ t = u := by
  constructor
  · intro h
    have hspell : t.spell false ++ [] = u.spell false ++ [] := by
      rw [← toList_text, ← toList_text, h]
    have hend : Closes [] := by
      intro c hc
      cases hc
    exact (unmistakable t false u [] [] hend hend hspell).1
  · intro h
    rw [h]

end Signet.Term
