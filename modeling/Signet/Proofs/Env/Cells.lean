import Signet.Proofs.Env.Lists

/-! # The cells of a list

Behind any bindings a term is a chain of cells that ends in something else, and there is one such
chain. A walk gives the heads of the chain as far as its limit goes; whether it ends in an error
depends on the number of cells and on the last tail. What comes of the walk is mostly settled by the
first head that is amiss, so a list is taken apart there. -/
namespace Signet

theorem exists_first_not {α : Type} (p : α → Prop) (xs : List α) (limit : Nat) :
    (∀ x ∈ xs.take limit, p x) ∨
      ∃ before x behind, xs = before ++ x :: behind ∧ before.length < limit ∧
        (∀ y ∈ before, p y) ∧ ¬ p x := by
  induction xs generalizing limit with
  | nil => exact .inl (by simp)
  | cons x xs ih =>
    cases limit with
    | zero => exact .inl (by simp)
    | succ limit =>
      by_cases hx : p x
      · rcases ih limit with hall | ⟨before, y, behind, rfl, hlen, hbefore, hy⟩
        · exact .inl (List.forall_mem_cons.mpr ⟨hx, hall⟩)
        · exact .inr ⟨x :: before, y, behind, rfl, Nat.succ_lt_succ hlen,
            List.forall_mem_cons.mpr ⟨hx, hbefore⟩, hy⟩
      · exact .inr ⟨[], x, xs, rfl, Nat.succ_pos limit, by simp, hx⟩

/-- What is wrong with the last tail of a list; nothing with `[]`. -/
def Term.tailError? (last : Term) : Option TermError :=
  if last.isNil then none
  else if last.isVar then some (.instantiation last) else some (.type .list last)

theorem Term.tailError?_nil : tailError? nil = none := rfl

theorem Term.tailError?_var (v : Nat) : tailError? (.var v) = some (.instantiation (.var v)) := rfl

theorem Term.tailError?_improper {last : Term} (hnil : last ≠ nil) (hvar : ∀ v, last ≠ .var v) :
    last.tailError? = some (.type .list last) := by
  have hnil' : last.isNil = false := by
    cases last with
    | atom a => simpa [nil, isNil] using hnil
    | _ => rfl
  rw [tailError?, hnil', isVar_eq_false_iff.mpr hvar]
  rfl

namespace Env

/-- The term is a chain of cells: their heads and its last tail, each of them as it resolves. -/
inductive Cells (E : Env) : Term → List Term → Term → Prop
  | last {t : Term} : (E.resolve t).isCons = false → Cells E t [] (E.resolve t)
  | cell {t head tail last : Term} {heads : List Term} : E.resolve t = .cons head tail →
      Cells E tail heads last → Cells E t (E.resolve head :: heads) last

variable {E : Env} {t last : Term} {heads : List Term} {limit left : Nat}

theorem weight_tail_lt {head tail : Term} (h : E.resolve t = .cons head tail) :
    E.weight tail < E.weight t :=
  weight_lt_of_resolve h (by simp)

theorem exists_cells (E : Env) (t : Term) : ∃ heads last, E.Cells t heads last := by
  cases hc : (E.resolve t).isCons with
  | false => exact ⟨[], _, .last hc⟩
  | true =>
    obtain ⟨head, tail, hr⟩ := Term.isCons_iff.mp hc
    have hlt := weight_tail_lt hr
    obtain ⟨heads, last, hcells⟩ := exists_cells E tail
    exact ⟨_, last, .cell hr hcells⟩
termination_by E.weight t

theorem Cells.unique {heads' : List Term} {last' : Term} (h : E.Cells t heads last)
    (h' : E.Cells t heads' last') : heads = heads' ∧ last = last' := by
  induction h generalizing heads' last' with
  | last hc =>
    cases h' with
    | last _ => exact ⟨rfl, rfl⟩
    | cell hr _ => rw [hr] at hc; cases hc
  | cell hr _ ih =>
    cases h' with
    | last hc => rw [hr] at hc; cases hc
    | cell hr' htail =>
      rw [hr] at hr'
      cases hr'
      obtain ⟨rfl, rfl⟩ := ih htail
      exact ⟨rfl, rfl⟩

theorem walk_of_not_cons (h : (E.resolve t).isCons = false) :
    E.walk limit left t = ([], (E.resolve t).tailError?) := by
  rcases (E.resolve t).list_cases with hr | ⟨head, tail, hr⟩ | ⟨v, hr⟩ | ⟨hv, hl⟩
  · rw [walk_nil hr, hr, Term.tailError?_nil]
  · rw [hr] at h
    cases h
  · rw [walk_var hr, hr, Term.tailError?_var]
  · have hnil : E.resolve t ≠ .nil := by
      intro he
      rw [he] at hl
      cases hl
    rw [walk_improper hv hl, Term.tailError?_improper hnil hv]

/-- Where the limit is not exceeded, a walk gives all heads and comes to the last tail. -/
theorem Cells.walk_of_le (h : E.Cells t heads last) (hle : heads.length ≤ left) :
    E.walk limit left t = (heads, last.tailError?) := by
  induction h generalizing left with
  | last hc => exact walk_of_not_cons hc
  | cell hr _ ih =>
    cases left with
    | zero => simp at hle
    | succ left => rw [walk_cons hr, ih (Nat.le_of_succ_le_succ hle)]

theorem Cells.walk_of_lt (h : E.Cells t heads last) (hlt : left < heads.length) :
    E.walk limit left t = (heads.take left, some (.tooLong limit)) := by
  induction h generalizing left with
  | last _ => cases hlt
  | cell hr _ ih =>
    cases left with
    | zero => exact walk_full hr
    | succ left =>
      rw [walk_cons hr, ih (Nat.lt_of_succ_lt_succ hlt), List.take_succ_cons]

/-- A walk gives every head within the limit, whatever stands behind it. -/
theorem Cells.exists_walk_behind {before behind : List Term} {head : Term}
    (h : E.Cells t (before ++ head :: behind) last) (hlt : before.length < left) :
    ∃ items stop, E.walk limit left t = (before ++ head :: items, stop) := by
  by_cases hle : (before ++ head :: behind).length ≤ left
  · exact ⟨behind, _, h.walk_of_le hle⟩
  · obtain ⟨n, hn⟩ := Nat.exists_eq_add_of_lt hlt
    have htake : (before ++ head :: behind).take left = before ++ head :: behind.take n := by
      rw [hn, Nat.add_assoc, List.take_length_add_append, List.take_succ_cons]
    exact ⟨behind.take n, _, by rw [h.walk_of_lt (Nat.lt_of_not_le hle), htake]⟩

end Env

end Signet
