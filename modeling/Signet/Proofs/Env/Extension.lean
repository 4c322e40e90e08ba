import Signet.Proofs.Env.Acyclic
import Signet.Proofs.Env.Lists
import Signet.Proofs.Env.Soundness

/-! # Later environments

Bindings are only ever added, so what a term has been resolved to stays: a head that is known
remains, and only an unbound variable can become something else. What a term stands for later is
what it stood for before, read once more. -/
namespace Signet

theorem Bindings.Triangular.lookup_of_mem_vars_apply {l : Bindings} (hl : l.Triangular) {t : Term}
    {w : Nat} (h : w ∈ (l.apply t).vars) : l.lookup w = none := by
  induction l generalizing t with
  | nil => rfl
  | cons b l ih =>
    obtain ⟨v, s⟩ := b
    obtain ⟨htl, -, hs⟩ := hl
    obtain ⟨u, hu, hw⟩ := Term.mem_vars_bind.mp h
    by_cases huv : u = v
    · rw [huv, Term.single_self] at hw
      have hne : v ≠ w := fun he => hs (he ▸ hw)
      rw [lookup, if_neg hne, ih htl hw]
    · rw [Term.single_of_ne _ huv, Term.vars, List.mem_singleton] at hw
      have hne : v ≠ w := fun he => huv (hw.symm.trans he.symm)
      rw [lookup, if_neg hne, ih htl (hw ▸ hu)]

namespace Env
variable {E F : Env}

theorem Later.extends (h : E.Later F) : E.Extends F := by
  induction h with
  | refl => exact .refl _
  | unify _ hu ih => exact ih.trans (extends_unifyAll hu)

theorem Extends.resolve_resolve (h : E.Extends F) (t : Term) :
    F.resolve (E.resolve t) = F.resolve t := by
  fun_induction resolve E t with
  | case1 v s hs ih => rw [ih, resolve_of_lookup (h v s hs)]
  | case2 v hv => rfl
  | case3 t ht => rfl

theorem Extends.resolve_eq (h : E.Extends F) {t : Term} (ht : ∀ v, E.resolve t ≠ .var v) :
    F.resolve t = E.resolve t := by
  rw [← h.resolve_resolve]
  cases hr : E.resolve t with
  | var v => exact absurd hr (ht v)
  | atom a => exact F.resolve_atom a
  | int i => exact F.resolve_int i
  | compound f args => exact F.resolve_compound f args

theorem Extends.compatible {σ : Nat → Term} (h : E.Extends F) (hσ : F.Compatible σ) :
    E.Compatible σ :=
  fun v s hs => hσ v s (h v s hs)

theorem Extends.apply_apply (h : E.Extends F) (t : Term) : F.apply (E.apply t) = F.apply t := by
  rw [apply_eq_bind F, apply_eq_bind F t]
  exact (h.compatible F.compatible_apply).bind_apply t

theorem apply_idem (E : Env) (t : Term) : E.apply (E.apply t) = E.apply t :=
  (Extends.refl E).apply_apply t

/-- No bound variable is left in what a term stands for. -/
theorem lookup_of_mem_vars_apply {t : Term} {v : Nat} (h : v ∈ (E.apply t).vars) :
    E.lookup v = none :=
  E.triangular.lookup_of_mem_vars_apply h

theorem empty_resolve (t : Term) : empty.resolve t = t := by
  cases t with
  | var v => exact resolve_of_unbound rfl
  | atom a => exact empty.resolve_atom a
  | int i => exact empty.resolve_int i
  | compound f args => exact empty.resolve_compound f args

end Env

end Signet
