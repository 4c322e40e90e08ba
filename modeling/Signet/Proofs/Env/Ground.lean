import Signet.Proofs.Codec.Octets
import Signet.Proofs.Env.Extension
import Signet.Proofs.Env.Readings

/-! # Unification with a ground term

A ground term reads the same under every assignment, so unifying with it asks one question: can
the other side be that term? It succeeds exactly when some assignment that respects the bindings
says so, and then the other side stands for the ground term. -/
namespace Signet.Env
variable {E E' : Env} {t g : Term}

/-- Some assignment of terms to variables respects the bindings and makes `t` the term `g`. -/
def CanBe (E : Env) (t g : Term) : Prop := ∃ σ, E.Compatible σ ∧ t.bind σ = g

theorem canBe_iff_unify (hg : g.vars = []) : E.CanBe t g ↔ ∃ E', E.unify t g = some E' := by
  constructor
  · rintro ⟨σ, hσ, ht⟩
    rw [← Term.bind_of_ground hg σ] at ht
    obtain ⟨E', h, -⟩ := (solves_unify E t g σ).mp ⟨hσ, ht⟩
    exact ⟨E', h⟩
  · rintro ⟨E', h⟩
    obtain ⟨hσ, ht⟩ := (solves_unify E t g _).mpr ⟨E', h, E'.compatible_apply⟩
    rw [Term.bind_of_ground hg] at ht
    exact ⟨_, hσ, ht⟩

theorem apply_of_unify_ground (hg : g.vars = []) (h : E.unify t g = some E') : E'.apply t = g := by
  obtain ⟨-, ht⟩ := (solves_unify E t g _).mpr ⟨E', h, E'.compatible_apply⟩
  rw [Term.bind_of_ground hg] at ht
  rw [apply_eq_bind, ht]

/-- What a term stands for may be read further in any way. -/
theorem compatible_apply_bind (E : Env) (τ : Nat → Term) :
    E.Compatible fun v => (E.apply (.var v)).bind τ := by
  intro v s h
  rw [← Term.bind_bind, ← apply_eq_bind]
  exact congrArg (Term.bind τ) (apply_of_lookup h)

theorem canBe_of_unbound {v : Nat} (h : E.resolve t = .var v) (g : Term) : E.CanBe t g := by
  refine ⟨_, E.compatible_apply_bind (Term.single v g), ?_⟩
  rw [← Term.bind_bind, ← apply_eq_bind, resolve_eq_var_iff.mp h, Term.bind, Term.single_self]

theorem CanBe.isVar_or_isListLike (h : E.CanBe t g) (hg : g.isListLike = true) :
    ((E.resolve t).isVar || (E.resolve t).isListLike) = true := by
  cases hv : (E.resolve t).isVar with
  | true => rfl
  | false =>
    obtain ⟨σ, hσ, hbind⟩ := h
    have hstays : (E.resolve t).StaysVar σ :=
      fun v hr => absurd hr (Term.isVar_eq_false_iff.mp hv v)
    rw [Bool.false_or, ← hstays.isListLike, hσ.bind_resolve, hbind, hg]

end Signet.Env
