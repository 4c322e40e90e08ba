import Signet.Proofs.Env.Extension

/-! # Equations that hold already

An equation holds in an environment when its sides stand for one term. Solving it comes to no
variable that could be bound: a variable that is left open stands for itself, and what it is
compared with would have to be the same variable. So nothing is added exactly when nothing is
missing, and a solved equation stays solved in every later environment. -/
namespace Signet.Env
open Term

/-- Where a variable is to be bound, the sides stand for different terms. -/
theorem apply_ne_of_assign {E : Env} {x y s : Term} {v : Nat}
    (h : step (E.resolve x) (E.resolve y) = .assign v s) : E.apply x ≠ E.apply y := by
  intro he
  have hv : E.apply (.var v) = .var v := apply_of_unbound (unbound_of_step h)
  have hne := step_assign_ne h
  rw [← apply_resolve E x, ← apply_resolve E y] at he
  rcases step_assign h with ⟨hx, rfl⟩ | ⟨hy, rfl⟩
  · rw [hx, hv] at he
    exact apply_resolve_ne_var hne he.symm
  · rw [hy, hv] at he
    exact apply_resolve_ne_var hne he

theorem unifyAll_of_solves {E : Env} {pending : List (Term × Term)}
    (h : Solves (fun v => E.apply (.var v)) pending) : E.unifyAll pending = some E := by
  fun_induction unifyAll E pending with
  | case1 E => rfl
  | case2 E x y pending hstep =>
    obtain ⟨hxy, -⟩ := solves_cons.mp h
    rw [← E.compatible_apply.bind_resolve x, ← E.compatible_apply.bind_resolve y] at hxy
    exact absurd hxy (step_clash hstep _)
  | case3 E x y pending pairs hstep ih =>
    obtain ⟨hxy, hpending⟩ := solves_cons.mp h
    rw [← E.compatible_apply.bind_resolve x, ← E.compatible_apply.bind_resolve y] at hxy
    exact ih (solves_append.mpr ⟨(step_decompose_iff hstep _).mp hxy, hpending⟩)
  | case4 E x y pending v s hstep ho =>
    obtain ⟨hxy, -⟩ := solves_cons.mp h
    rw [← apply_eq_bind, ← apply_eq_bind] at hxy
    exact absurd hxy (apply_ne_of_assign hstep)
  | case5 E x y pending v s hstep ho ih =>
    obtain ⟨hxy, -⟩ := solves_cons.mp h
    rw [← apply_eq_bind, ← apply_eq_bind] at hxy
    exact absurd hxy (apply_ne_of_assign hstep)

theorem unify_of_apply_eq {E : Env} {a b : Term} (h : E.apply a = E.apply b) :
    E.unify a b = some E := by
  refine unifyAll_of_solves (solves_cons.mpr ⟨?_, solves_nil _⟩)
  rwa [← apply_eq_bind, ← apply_eq_bind]

theorem apply_eq_of_unify {E F : Env} {a b : Term} (h : E.unify a b = some F) :
    F.apply a = F.apply b := by
  rw [← simplify_eq, ← simplify_eq]
  exact (unify_sound h).1

theorem eq_of_unifyAll_of_lookup {E E' : Env} {pending : List (Term × Term)}
    (h : E.unifyAll pending = some E') (hsame : E'.lookup = E.lookup) : E' = E := by
  fun_induction unifyAll E pending with
  | case1 E => exact (Option.some.inj h).symm
  | case2 E x y pending hstep => cases h
  | case3 E x y pending pairs hstep ih => exact ih h hsame
  | case4 E x y pending v s hstep ho => cases h
  | case5 E x y pending v s hstep ho ih =>
    have hbound : E'.lookup v = some s := extends_unifyAll h v s (by rw [lookup_bind, if_pos rfl])
    rw [hsame, unbound_of_step hstep] at hbound
    cases hbound

/-- Unification adds no binding exactly when both sides stand for one term already. So a solved
equation is solved for good: in every later environment it adds nothing, from either side. -/
theorem unify_settled (E : Env) (a b : Term) :
    (E.unify a b = some E ↔ E.simplify a = E.simplify b) ∧
      (∀ E', E.unify a b = some E' → E'.lookup = E.lookup → E' = E) ∧
      ∀ E' F, E.unify a b = some E' → E'.Later F → F.unify a b = some F ∧ F.unify b a = some F := by
  refine ⟨?_, fun E' h hsame => eq_of_unifyAll_of_lookup h hsame, ?_⟩
  · rw [simplify_eq, simplify_eq]
    exact ⟨apply_eq_of_unify, unify_of_apply_eq⟩
  · intro E' F h hlater
    have hext := hlater.extends
    have heq : F.apply a = F.apply b := by
      rw [← hext.apply_apply, apply_eq_of_unify h, hext.apply_apply]
    exact ⟨unify_of_apply_eq heq, unify_of_apply_eq heq.symm⟩

/-- `X = f(Y)` and then `Y = Z`: the first equation adds nothing any more, whichever of its sides
comes first. -/
theorem unify_settled_later :
    let x : Term := .var 0
    let fy : Term := .compound "f" [.var 1]
    ∃ E' F, empty.unify x fy = some E' ∧ E'.unify (.var 1) (.var 2) = some F ∧
      F.bindings = [(1, .var 2), (0, fy)] ∧ F.unify x fy = some F ∧ F.unify fy x = some F := by
  intro x fy
  obtain ⟨E', hE, hl⟩ := exists_of_unify? (E := empty) (a := x) (b := fy) (l := [(0, fy)]) (by cbv)
  obtain ⟨F, hF, hk⟩ := exists_of_unify? (E := E') (a := .var 1) (b := .var 2)
    (l := [(1, .var 2), (0, fy)]) (by rw [hl]; cbv)
  have hlater : E'.Later F := Later.refl.unify hF
  obtain ⟨-, -, hagain⟩ := unify_settled empty x fy
  exact ⟨E', F, hE, hF, hk, hagain E' F hE hlater⟩

end Signet.Env
