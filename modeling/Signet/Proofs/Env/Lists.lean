import Signet.Env.Items

/-! # Walking a list, cell by cell

What a term resolves to is the head of what it stands for, and the first step of a walk depends
on nothing else. So a walk is known from one equation per kind of head. -/
namespace Signet

theorem Term.isListLike_iff {t : Term} :
    t.isListLike = true ↔ t = .nil ∨ ∃ head tail, t = .cons head tail := by
  unfold isListLike
  cases t with
  | compound f args =>
    match args with
    | [_, _] => simp [isNil, isCons, nil, cons]
    | [] | [_] | _ :: _ :: _ :: _ => simp [isNil, isCons, nil, cons]
  | _ => simp [isNil, isCons, nil, cons]

theorem Term.isVar_iff {t : Term} : t.isVar = true ↔ ∃ v, t = .var v := by
  cases t <;> simp [isVar]

theorem Term.isVar_eq_false_iff {t : Term} : t.isVar = false ↔ ∀ v, t ≠ .var v := by
  rw [← Bool.not_eq_true, isVar_iff, not_exists]

theorem Term.ne_var_of_isListLike {t : Term} (h : t.isListLike = true) (v : Nat) : t ≠ .var v := by
  rintro rfl
  cases h

theorem Term.list_cases (t : Term) :
    t = .nil ∨ (∃ head tail, t = .cons head tail) ∨ (∃ v, t = .var v) ∨
      (∀ v, t ≠ .var v) ∧ t.isListLike = false := by
  cases hl : t.isListLike with
  | true =>
    rcases isListLike_iff.mp hl with h | h
    · exact .inl h
    · exact .inr (.inl h)
  | false =>
    by_cases hv : ∃ v, t = .var v
    · exact .inr (.inr (.inl hv))
    · exact .inr (.inr (.inr ⟨not_exists.mp hv, rfl⟩))

theorem Cursor.drain_append (E : Env) (c : Cursor) (taken before : List Term) :
    c.drain E (taken ++ before) =
      (before.reverse ++ (c.drain E taken).1, (c.drain E taken).2) := by
  fun_induction drain E c taken with
  | case1 c taken h => simp [drain_of_none h]
  | case2 c taken e c' h => simp [drain_of_error h]
  | case3 c taken t c' h ih =>
    rw [drain_of_ok h]
    exact ih

namespace Env
variable {E : Env} {t : Term}

theorem apply_eq (E : Env) (t : Term) :
    E.apply t = match E.resolve t with
      | .compound f args => .compound f (args.map E.apply)
      | r => r := by
  rw [← apply_resolve]
  cases h : E.resolve t with
  | var v => exact apply_of_unbound (lookup_of_resolve h)
  | atom a => exact apply_atom E a
  | int i => exact apply_int E i
  | compound f args => exact apply_compound E f args

theorem resolve_eq_var_iff {v : Nat} : E.resolve t = .var v ↔ E.apply t = .var v := by
  rw [apply_eq]
  cases E.resolve t <;> simp

theorem resolve_eq_atom_iff {a : String} : E.resolve t = .atom a ↔ E.apply t = .atom a := by
  rw [apply_eq]
  cases E.resolve t <;> simp

theorem resolve_eq_int_iff {i : Int64} : E.resolve t = .int i ↔ E.apply t = .int i := by
  rw [apply_eq]
  cases E.resolve t <;> simp

theorem resolve_cons (E : Env) (head tail : Term) :
    E.resolve (.cons head tail) = .cons head tail :=
  E.resolve_compound ..

theorem apply_of_resolve_cons {head tail : Term} (h : E.resolve t = .cons head tail) :
    E.apply t = .cons (E.apply head) (E.apply tail) := by
  rw [apply_eq, h]
  rfl

theorem resolve_of_apply_cons {x y : Term} (h : E.apply t = .cons x y) :
    ∃ head tail, E.resolve t = .cons head tail := by
  rw [apply_eq] at h
  cases hr : E.resolve t with
  | compound f args =>
    simp only [hr, Term.cons, Term.compound.injEq, List.map_eq_cons_iff, List.map_eq_nil_iff] at h
    obtain ⟨rfl, head, _, rfl, -, tail, _, rfl, -, rfl⟩ := h
    exact ⟨head, tail, rfl⟩
  | _ => simp [hr, Term.cons] at h

/-- The items and the end of a list of which `left` more cells may be taken. -/
def walk (E : Env) (limit left : Nat) (t : Term) : List Term × Option TermError :=
  Cursor.drain E ⟨some t, limit, left⟩ []

theorem items_eq_walk (E : Env) (limit : Nat) (t : Term) : E.items limit t = E.walk limit limit t :=
  rfl

variable {limit left : Nat}

theorem walk_nil (h : E.resolve t = .nil) : E.walk limit left t = ([], none) :=
  Cursor.drain_of_none (by simp [Cursor.next?, h, Term.nil])

theorem walk_full {head tail : Term} (h : E.resolve t = .cons head tail) :
    E.walk limit 0 t = ([], some (.tooLong limit)) :=
  Cursor.drain_of_error (by simp only [Cursor.next?, h, Term.cons]; rfl)

theorem walk_cons {head tail : Term} (h : E.resolve t = .cons head tail) :
    E.walk limit (left + 1) t =
      (E.resolve head :: (E.walk limit left tail).1, (E.walk limit left tail).2) := by
  have hnext : Cursor.next? E ⟨some t, limit, left + 1⟩ =
      some (.ok (E.resolve head), ⟨some tail, limit, left⟩) := by
    simp [Cursor.next?, h, Term.cons]
  rw [walk, Cursor.drain_of_ok hnext]
  exact Cursor.drain_append E _ [] [E.resolve head]

theorem walk_var {v : Nat} (h : E.resolve t = .var v) :
    E.walk limit left t = ([], some (.instantiation (.var v))) :=
  Cursor.drain_of_error (by simp only [Cursor.next?, h]; rfl)

theorem walk_improper (hv : ∀ v, E.resolve t ≠ .var v) (hl : (E.resolve t).isListLike = false) :
    E.walk limit left t = ([], some (.type .list (E.resolve t))) := by
  have hnext : Cursor.next? E ⟨some t, limit, left⟩ =
      some (.error (.type .list (E.resolve t)), ⟨none, limit, left⟩) := by
    unfold Cursor.next?
    dsimp only
    split
    · rename_i h
      simp [h, Term.isListLike, Term.isNil] at hl
    · rename_i h
      simp [h, Term.isListLike, Term.isCons] at hl
    · rename_i v h
      exact absurd h (hv v)
    · rfl
  exact Cursor.drain_of_error hnext

end Env

end Signet
