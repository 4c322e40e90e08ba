import Signet.Proofs.Env.Settled

/-! # Environments as substitutions

Simplifying replaces variables, and one pass is enough: what it leaves in is unbound. Later
environments absorb the replacements of earlier ones, so a term may be simplified or resolved at
any moment before it is read for good. Resolving is the first layer of simplifying. -/
namespace Signet

/-- The term with its arguments, where it has any, put through `f`. -/
def Term.mapArgs (f : Term → Term) : Term → Term
  | .compound functor args => .compound functor (args.map f)
  | t => t

namespace Env
variable {E F : Env}

theorem lookup_of_mem_vars_simplify {t : Term} {v : Nat} (h : v ∈ (E.simplify t).vars) :
    E.lookup v = none := by
  rw [simplify_eq] at h
  exact lookup_of_mem_vars_apply h

/-- The terms without bound variables are those that simplifying leaves as they are. -/
theorem simplify_eq_self_iff {t : Term} : E.simplify t = t ↔ ∀ v ∈ t.vars, E.lookup v = none := by
  constructor
  · intro h v hv
    rw [← h] at hv
    exact lookup_of_mem_vars_simplify hv
  · intro h
    have hvar : ∀ v ∈ t.vars, E.apply (.var v) = .var v := fun v hv => apply_of_unbound (h v hv)
    rw [simplify_eq, apply_eq_bind, Term.bind_congr hvar, Term.bind_var]

theorem Extends.simplify_simplify (h : E.Extends F) (t : Term) :
    F.simplify (E.simplify t) = F.simplify t := by
  rw [simplify_eq, simplify_eq, simplify_eq, h.apply_apply]

theorem Extends.simplify_resolve (h : E.Extends F) (t : Term) :
    F.simplify (E.resolve t) = F.simplify t := by
  rw [simplify_eq, simplify_eq, ← F.apply_resolve, h.resolve_resolve, F.apply_resolve]

theorem simplify_eq_mapArgs (E : Env) (t : Term) :
    E.simplify t = (E.resolve t).mapArgs E.simplify := by
  have hfun : E.simplify = E.apply := funext E.simplify_eq
  rw [hfun, apply_eq]
  cases E.resolve t <;> rfl

/-- Simplifying leaves no bound variable, and neither simplifying nor resolving a term at an
earlier moment, or at the same one, changes what it simplifies to. What it simplifies to has the
constructor of what it resolves to, with simplified arguments. -/
theorem simplify_laws (h : E.Later F) (t : Term) :
    (∀ v, E.lookup v ≠ none → v ∉ (E.simplify t).vars) ∧
      F.simplify (E.simplify t) = F.simplify t ∧
      E.simplify (E.simplify t) = E.simplify t ∧
      F.simplify (E.resolve t) = F.simplify t ∧
      E.simplify t = (E.resolve t).mapArgs E.simplify := by
  refine ⟨?_, h.extends.simplify_simplify t, ?_, h.extends.simplify_resolve t,
    E.simplify_eq_mapArgs t⟩
  · intro v hbound hmem
    exact hbound (lookup_of_mem_vars_simplify hmem)
  · refine simplify_eq_self_iff.mpr fun v hv => ?_
    exact lookup_of_mem_vars_simplify hv

/-- `X = Y` at first, then `Y = f(Z)` and `Z = 7`: in between, `X` may be simplified to `Y` or to
`f(Z)`, and it still comes to `f(7)`. -/
theorem simplify_laws_chain :
    let fz : Term := .compound "f" [.var 2]
    ∃ E F G, empty.unify (.var 0) (.var 1) = some E ∧ E.unify (.var 1) fz = some F ∧
      F.unify (.var 2) (.int 7) = some G ∧ E.simplify (.var 0) = .var 1 ∧
      F.simplify (.var 0) = fz ∧ G.simplify (.var 0) = .compound "f" [.int 7] ∧
      G.simplify (E.simplify (.var 0)) = G.simplify (.var 0) ∧
      G.simplify (F.simplify (.var 0)) = G.simplify (.var 0) := by
  intro fz
  obtain ⟨E, hE, hl⟩ := exists_of_unify? (E := empty) (a := .var 0) (b := .var 1)
    (l := [(0, .var 1)]) (by cbv)
  obtain ⟨F, hF, hk⟩ := exists_of_unify? (E := E) (a := .var 1) (b := fz)
    (l := [(1, fz), (0, .var 1)]) (by rw [hl]; cbv)
  obtain ⟨G, hG, hm⟩ := exists_of_unify? (E := F) (a := .var 2) (b := .int 7)
    (l := [(2, .int 7), (1, fz), (0, .var 1)]) (by rw [hk]; cbv)
  have hfirst : E.simplify (.var 0) = .var 1 := simplify_of_simplify? (by rw [hl]; cbv)
  have hsecond : F.simplify (.var 0) = fz := simplify_of_simplify? (by rw [hk]; cbv)
  have hthird : G.simplify (.var 0) = .compound "f" [.int 7] :=
    simplify_of_simplify? (by rw [hm]; cbv)
  have hEG : E.Later G := (Later.refl.unify hF).unify hG
  have hFG : F.Later G := Later.refl.unify hG
  exact ⟨E, F, G, hE, hF, hG, hfirst, hsecond, hthird, (simplify_laws hEG (.var 0)).2.1,
    (simplify_laws hFG (.var 0)).2.1⟩

end Env

end Signet
