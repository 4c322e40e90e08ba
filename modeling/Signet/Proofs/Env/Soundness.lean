import Signet.Proofs.Env.Solutions

/-! # What unification makes of an environment

Reading the variables of an environment is itself an assignment that respects its bindings.
So what was proved about all assignments holds of it, and the two sides of a solved equation
stand for one term. New bindings are put in front of the old ones, for variables of the
equations still open. -/
namespace Signet.Env
open Term

theorem apply_eq_bind (E : Env) (t : Term) : E.apply t = t.bind fun v => E.apply (.var v) := by
  induction t using Term.induct with
  | var v => rfl
  | atom a => exact apply_atom E a
  | int i => exact apply_int E i
  | compound f args ih =>
    rw [apply_compound, bind_compound]
    congr 1
    exact List.map_congr_left ih

theorem compatible_apply (E : Env) : E.Compatible fun v => E.apply (.var v) := by
  intro v s h
  rw [← apply_eq_bind]
  exact apply_of_lookup h

/-- Every binding of `E` is one of `E'`. -/
def Extends (E E' : Env) : Prop := ∀ v s, E.lookup v = some s → E'.lookup v = some s

theorem Extends.refl (E : Env) : E.Extends E := fun _ _ h => h

theorem Extends.trans {E F G : Env} (h : E.Extends F) (h' : F.Extends G) : E.Extends G :=
  fun v s hs => h' v s (h v s hs)

theorem lookup_bind {E : Env} {v : Nat} {s : Term} {hv : E.lookup v = none}
    {hs : E.occurs v s = false} (w : Nat) :
    (E.bind v s hv hs).lookup w = if v = w then some s else E.lookup w :=
  rfl

theorem extends_bind {E : Env} {v : Nat} {s : Term} {hv : E.lookup v = none}
    {hs : E.occurs v s = false} : E.Extends (E.bind v s hv hs) := by
  intro w r hw
  have hne : v ≠ w := by
    rintro rfl
    rw [hv] at hw
    cases hw
  rw [lookup_bind, if_neg hne, hw]

theorem extends_unifyAll {E E' : Env} {pending : List (Term × Term)}
    (h : E.unifyAll pending = some E') : E.Extends E' := by
  fun_induction unifyAll E pending with
  | case1 E => cases h; exact .refl _
  | case2 E x y pending hstep => cases h
  | case3 E x y pending pairs hstep ih => exact ih h
  | case4 E x y pending v s hstep ho => cases h
  | case5 E x y pending v s hstep ho ih => exact extends_bind.trans (ih h)

/-- A variable that solving binds occurs in the open equations, as they read before. -/
theorem mem_openVars_of_unifyAll {E E' : Env} {pending : List (Term × Term)} {u : Nat}
    (h : E.unifyAll pending = some E') (hu : E.lookup u = none) (hu' : E'.lookup u ≠ none) :
    u ∈ E.openVars pending := by
  fun_induction unifyAll E pending with
  | case1 E => cases h; exact absurd hu hu'
  | case2 E x y pending hstep => cases h
  | case3 E x y pending pairs hstep ih => exact mem_openVars_decompose hstep (ih h hu)
  | case4 E x y pending v s hstep ho => cases h
  | case5 E x y pending v s hstep ho ih =>
    by_cases e : v = u
    · exact e ▸ (mem_openVars_of_step pending hstep).1
    · have hmem := ih h (by rw [lookup_bind, if_neg e, hu])
      exact (mem_openVars_bind hstep (by simpa using ho) hmem).1

/-- Unification makes both sides read alike, keeps every binding, and binds only variables
that the two sides left unbound. -/
theorem unify_sound {E E' : Env} {a b : Term} (h : E.unify a b = some E') :
    E'.simplify a = E'.simplify b ∧ E.Extends E' ∧
      ∀ v s, E'.lookup v = some s → E.lookup v = none →
        v ∈ (E.simplify a).vars ∨ v ∈ (E.simplify b).vars := by
  refine ⟨?_, extends_unifyAll h, ?_⟩
  · have hσ := (solves_unify E a b _).mpr ⟨E', h, compatible_apply E'⟩
    rw [simplify_eq, simplify_eq, apply_eq_bind, apply_eq_bind E' b]
    exact hσ.2
  · intro v s hs hv
    have hmem := mem_openVars_of_unifyAll h hv (by simp [hs])
    rw [simplify_eq, simplify_eq]
    simpa [openVars] using hmem

/-- With `X = Y` the equation `f(X, Z) = f(g(Z), Y)` binds `Z` and, through `X`, `Y`. -/
theorem unify_sound_through_chain :
    let E : Env := ⟨[(0, .var 1)], trivial, rfl, by decide⟩
    let a : Term := .compound "f" [.var 0, .var 2]
    let b : Term := .compound "f" [.compound "g" [.var 3], .var 1]
    ∃ E', E.unify a b = some E' ∧
      E'.bindings = [(1, .compound "g" [.var 3]), (2, .var 1), (0, .var 1)] ∧
      E'.simplify a = E'.simplify b ∧ E.Extends E' := by
  intro E a b
  obtain ⟨E', h, hl⟩ := exists_of_unify? (E := E) (a := a) (b := b) (by cbv)
  exact ⟨E', h, hl, (unify_sound h).1, (unify_sound h).2.1⟩

end Signet.Env
