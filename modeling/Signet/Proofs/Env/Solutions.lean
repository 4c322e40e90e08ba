import Signet.Proofs.Env.Loops
import Signet.Term.Equality

/-! # The solutions of an equation

An assignment gives every variable a finite term. Each step of `unifyAll` keeps the set of
assignments that respect the bindings and solve the equations still open, so the set never
has to be compared with that of an earlier environment: at the end nothing is open, and at a
failure nothing is left in it. -/
namespace Signet

namespace Term

theorem size_bind_lt {σ : Nat → Term} {f : String} {args : List Term} {a : Term} (h : a ∈ args) :
    (a.bind σ).size < ((compound f args).bind σ).size := by
  have hle := le_total (f := size) (List.mem_map_of_mem (f := bind σ) h)
  rw [bind_compound, size_compound]
  omega

theorem size_le_bind {σ : Nat → Term} {v : Nat} {t : Term} (h : v ∈ t.vars) :
    (σ v).size ≤ (t.bind σ).size := by
  induction t using induct with
  | var w =>
    obtain rfl : v = w := by simpa [vars] using h
    exact Nat.le_refl _
  | atom a => simp [vars] at h
  | int i => simp [vars] at h
  | compound f args ih =>
    rw [vars_compound] at h
    obtain ⟨a, ha, hv⟩ := List.mem_flatMap.mp h
    exact Nat.le_trans (ih a ha hv) (Nat.le_of_lt (size_bind_lt ha))

/-- A variable cannot stand for a larger term in which it occurs: the solution would be
infinite. -/
theorem ne_bind_of_mem {σ : Nat → Term} {v : Nat} {t : Term} (h : v ∈ t.vars)
    (ht : t ≠ .var v) : σ v ≠ t.bind σ := by
  intro he
  cases t with
  | var w =>
    obtain rfl : v = w := by simpa [vars] using h
    exact ht rfl
  | atom a => simp [vars] at h
  | int i => simp [vars] at h
  | compound f args =>
    rw [vars_compound] at h
    obtain ⟨a, ha, hv⟩ := List.mem_flatMap.mp h
    have hlt : (σ v).size < ((compound f args).bind σ).size :=
      Nat.lt_of_le_of_lt (size_le_bind hv) (size_bind_lt ha)
    rw [he] at hlt
    exact Nat.lt_irrefl _ hlt

end Term

/-- Both sides of each equation stand for one term under the assignment. -/
def Solves (σ : Nat → Term) (pairs : List (Term × Term)) : Prop :=
  ∀ p ∈ pairs, p.1.bind σ = p.2.bind σ

@[simp] theorem solves_nil (σ : Nat → Term) : Solves σ [] := by simp [Solves]

@[simp] theorem solves_cons {σ : Nat → Term} {x y : Term} {pairs : List (Term × Term)} :
    Solves σ ((x, y) :: pairs) ↔ x.bind σ = y.bind σ ∧ Solves σ pairs := by simp [Solves]

theorem solves_append {σ : Nat → Term} {ps qs : List (Term × Term)} :
    Solves σ (ps ++ qs) ↔ Solves σ ps ∧ Solves σ qs := by
  simp only [Solves, List.mem_append, or_imp, forall_and]

theorem solves_zip {σ : Nat → Term} {args args' : List Term} (h : args.length = args'.length) :
    Solves σ (args.zip args').reverse ↔ args.map (Term.bind σ) = args'.map (Term.bind σ) := by
  rw [← Term.forall_zip_eq (by simpa using h), List.zip_map]
  simp only [Solves, List.mem_reverse, List.forall_mem_map, Prod.map]

/-- Every binding holds under the assignment. -/
def Bindings.Compatible (l : Bindings) (σ : Nat → Term) : Prop :=
  ∀ v s, l.lookup v = some s → σ v = s.bind σ

theorem Bindings.Compatible.bind_apply {l : Bindings} (hl : l.Triangular) {σ : Nat → Term}
    (h : l.Compatible σ) (t : Term) : (l.apply t).bind σ = t.bind σ := by
  induction l generalizing t with
  | nil => rfl
  | cons b l ih =>
    obtain ⟨v, s⟩ := b
    obtain ⟨htl, hv, -⟩ := hl
    have htail : Compatible l σ := by
      intro w r hw
      refine h w r ?_
      rw [lookup, if_neg, hw]
      rintro rfl
      rw [hv] at hw
      cases hw
    have hself : σ v = s.bind σ := h v s (by simp [lookup])
    have hsingle : ∀ w, (Term.single v (apply l s) w).bind σ = σ w := by
      intro w
      by_cases e : w = v
      · rw [e, Term.single_self, ih htl htail s, hself]
      · rw [Term.single_of_ne _ e]
        rfl
    rw [apply, Term.bind_bind, Term.bind_congr (fun w _ => hsingle w), ih htl htail t]

namespace Env
open Term

def Compatible (E : Env) (σ : Nat → Term) : Prop := E.bindings.Compatible σ

theorem Compatible.bind_apply {E : Env} {σ : Nat → Term} (h : E.Compatible σ) (t : Term) :
    (E.apply t).bind σ = t.bind σ :=
  Bindings.Compatible.bind_apply E.triangular h t

theorem Compatible.bind_resolve {E : Env} {σ : Nat → Term} (h : E.Compatible σ) (t : Term) :
    (E.resolve t).bind σ = t.bind σ := by
  rw [← h.bind_apply (E.resolve t), apply_resolve, h.bind_apply]

theorem compatible_bind {E : Env} {v : Nat} {s : Term} {hv : E.lookup v = none}
    {hs : E.occurs v s = false} {σ : Nat → Term} :
    (E.bind v s hv hs).Compatible σ ↔ E.Compatible σ ∧ σ v = s.bind σ := by
  constructor
  · intro h
    refine ⟨fun w r hw => h w r ?_, h v s (by simp [Bindings.lookup])⟩
    have hne : v ≠ w := by
      rintro rfl
      rw [show E.bindings.lookup v = none from hv] at hw
      cases hw
    rw [bindings_bind, Bindings.lookup, if_neg hne, hw]
  · rintro ⟨h, hself⟩ w r hw
    rw [bindings_bind, Bindings.lookup] at hw
    split at hw
    · rename_i e
      cases hw
      rw [← e, hself]
    · exact h w r hw

theorem step_clash {x y : Term} (h : step x y = .clash) (σ : Nat → Term) :
    x.bind σ ≠ y.bind σ := by
  intro he
  cases x with
  | var v =>
    cases y with
    | var w =>
      rw [step] at h
      split at h <;> cases h
    | _ => simp [step] at h
  | atom a => cases y <;> simp_all [step, Term.bind]
  | int i => cases y <;> simp_all [step, Term.bind]
  | compound f args =>
    cases y with
    | compound g args' =>
      rw [bind_compound, bind_compound] at he
      obtain ⟨rfl, hargs⟩ := Term.compound.inj he
      have hlen : args.length = args'.length := by simpa using congrArg List.length hargs
      simp [step, hlen] at h
    | _ => simp_all [step, Term.bind]

theorem step_decompose_iff {x y : Term} {pairs : List (Term × Term)}
    (h : step x y = .decompose pairs) (σ : Nat → Term) :
    x.bind σ = y.bind σ ↔ Solves σ pairs := by
  rcases step_decompose h with ⟨rfl, rfl⟩ | ⟨f, args, args', rfl, rfl, hlen, rfl⟩
  · simp
  · rw [solves_zip hlen, bind_compound, bind_compound, Term.compound.injEq]
    simp

theorem step_assign_iff {x y s : Term} {v : Nat} (h : step x y = .assign v s) (σ : Nat → Term) :
    x.bind σ = y.bind σ ↔ σ v = s.bind σ := by
  rcases step_assign h with ⟨rfl, rfl⟩ | ⟨rfl, rfl⟩
  · exact Iff.rfl
  · exact eq_comm

theorem step_assign_ne {x y s : Term} {v : Nat} (h : step x y = .assign v s) : s ≠ .var v := by
  rintro rfl
  rcases step_assign h with ⟨rfl, rfl⟩ | ⟨rfl, rfl⟩ <;> simp [step] at h

/-- What stands for a resolved term is a variable only if the term is that variable. -/
theorem apply_resolve_ne_var {E : Env} {t : Term} {v : Nat} (h : E.resolve t ≠ .var v) :
    E.apply (E.resolve t) ≠ .var v := by
  cases hr : E.resolve t with
  | var w =>
    rw [apply_of_unbound (lookup_of_resolve hr)]
    exact hr ▸ h
  | _ => simp

/-- A failed occurs check leaves no assignment that gives both sides one finite term. -/
theorem occurs_unsolvable {E : Env} {x y s : Term} {v : Nat} {σ : Nat → Term}
    (h : step (E.resolve x) (E.resolve y) = .assign v s) (ho : E.occurs v s = true)
    (hσ : E.Compatible σ) : σ v ≠ s.bind σ := by
  have hs : E.apply s ≠ .var v := by
    have hne := step_assign_ne h
    rcases step_assign h with ⟨-, rfl⟩ | ⟨-, rfl⟩ <;> exact apply_resolve_ne_var hne
  rw [← hσ.bind_apply s]
  exact ne_bind_of_mem ((occurs_iff v s).mp ho) hs

/-- The assignments that solve open equations in an environment are those that respect the
bindings of the environment they are solved to; there are none if solving fails. -/
theorem solves_unifyAll (E : Env) (pending : List (Term × Term)) (σ : Nat → Term) :
    E.Compatible σ ∧ Solves σ pending ↔
      ∃ E', E.unifyAll pending = some E' ∧ E'.Compatible σ := by
  -- each step keeps the set of solutions, so a case only has to treat its own equation
  fun_induction unifyAll E pending with
  | case1 E => simp
  | case2 E x y pending h =>
    simp only [solves_cons, reduceCtorEq, false_and, exists_false, iff_false]
    rintro ⟨hσ, hxy, -⟩
    rw [← hσ.bind_resolve x, ← hσ.bind_resolve y] at hxy
    exact step_clash h σ hxy
  | case3 E x y pending pairs h ih =>
    rw [← ih, solves_cons, solves_append]
    refine and_congr_right fun hσ => and_congr_left fun _ => ?_
    rw [← hσ.bind_resolve x, ← hσ.bind_resolve y]
    exact step_decompose_iff h σ
  | case4 E x y pending v s h ho =>
    simp only [solves_cons, reduceCtorEq, false_and, exists_false, iff_false]
    rintro ⟨hσ, hxy, -⟩
    rw [← hσ.bind_resolve x, ← hσ.bind_resolve y, step_assign_iff h σ] at hxy
    exact occurs_unsolvable h ho hσ hxy
  | case5 E x y pending v s h ho ih =>
    rw [← ih, compatible_bind, solves_cons, and_assoc]
    refine and_congr_right fun hσ => and_congr_left fun _ => ?_
    rw [← hσ.bind_resolve x, ← hσ.bind_resolve y]
    exact step_assign_iff h σ

theorem solves_unify (E : Env) (a b : Term) (σ : Nat → Term) :
    E.Compatible σ ∧ a.bind σ = b.bind σ ↔ ∃ E', E.unify a b = some E' ∧ E'.Compatible σ := by
  have h := solves_unifyAll E [(a, b)] σ
  rwa [solves_cons, and_iff_left (solves_nil σ)] at h

/-- Unification fails only if the equation has no solution, and otherwise loses none: the
assignments that respect the new bindings are exactly the solutions. -/
theorem unify_mostGeneral (E : Env) (a b : Term) :
    (E.unify a b = none → ¬ ∃ σ, E.Compatible σ ∧ a.bind σ = b.bind σ) ∧
      ∀ E', E.unify a b = some E' →
        ∀ σ, E'.Compatible σ ↔ E.Compatible σ ∧ a.bind σ = b.bind σ := by
  constructor
  · rintro h ⟨σ, hσ⟩
    obtain ⟨E', hE', -⟩ := (solves_unify E a b σ).mp hσ
    rw [h] at hE'
    cases hE'
  · intro E' h σ
    rw [solves_unify, h]
    simp

/-- The occurs check looks through bindings: with `X = Y` no finite term solves `X = g(Y)`. -/
theorem occurs_behind_binding :
    let E : Env := ⟨[(0, .var 1)], trivial, rfl, by decide⟩
    E.unify (.var 0) (.compound "g" [.var 1]) = none ∧
      ¬ ∃ σ, E.Compatible σ ∧ σ 0 = .compound "g" [σ 1] := by
  intro E
  have h : E.unify (.var 0) (.compound "g" [.var 1]) = none :=
    unify_eq_none_of_unify? (by cbv)
  exact ⟨h, (unify_mostGeneral E _ _).1 h⟩

end Env

end Signet
