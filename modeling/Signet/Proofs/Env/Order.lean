import Signet.Proofs.Env.Variants

/-! # The order of equations

Equations are solved one after the other, each in the environment that the ones before it left.
The environments on the way depend on the order and on the sides of the equations; the assignments
that respect the last one do not, for they are the solutions of all equations together. So two
orders fail alike, or end in environments that differ in the names of variables only. -/
namespace Signet

/-- The same equations in any order, each with its sides exchanged or not. -/
def Rearranged (pairs pairs' : List (Term × Term)) : Prop :=
  ∃ turned, List.Forall₂ (fun p q => q = p ∨ q = p.swap) pairs turned ∧ turned.Perm pairs'

theorem solves_iff_of_turned {σ : Nat → Term} {pairs turned : List (Term × Term)}
    (h : List.Forall₂ (fun p q => q = p ∨ q = p.swap) pairs turned) :
    Solves σ pairs ↔ Solves σ turned := by
  induction h with
  | nil => rfl
  | @cons p q pairs turned hpq _ ih =>
    obtain ⟨x, y⟩ := p
    rcases hpq with rfl | rfl
    · rw [solves_cons, solves_cons, ih]
    · rw [solves_cons, Prod.swap, solves_cons, ih, eq_comm]

theorem Rearranged.solves_iff {pairs pairs' : List (Term × Term)} (h : Rearranged pairs pairs')
    (σ : Nat → Term) : Solves σ pairs ↔ Solves σ pairs' := by
  obtain ⟨turned, hturned, hperm⟩ := h
  rw [solves_iff_of_turned hturned]
  constructor
  · intro hs p hp
    exact hs p (hperm.mem_iff.mpr hp)
  · intro hs p hp
    exact hs p (hperm.mem_iff.mp hp)

namespace Env

/-- Unifies the two sides of each pair, one pair after the other. -/
def unifyEach (E : Env) (pairs : List (Term × Term)) : Option Env :=
  pairs.foldlM (fun F p => F.unify p.1 p.2) E

/-- However many equations are solved one after the other, the last environment has the solutions
of all of them, and there is none if a step fails. -/
theorem solves_unifyEach (E : Env) (pairs : List (Term × Term)) (σ : Nat → Term) :
    E.Compatible σ ∧ Solves σ pairs ↔ ∃ E', E.unifyEach pairs = some E' ∧ E'.Compatible σ := by
  induction pairs generalizing E with
  | nil => simp [unifyEach]
  | cons p pairs ih =>
    obtain ⟨x, y⟩ := p
    have hstep : E.unifyEach ((x, y) :: pairs) = (E.unify x y).bind (·.unifyEach pairs) := rfl
    rw [hstep, solves_cons, ← and_assoc, solves_unify]
    cases E.unify x y with
    | none => simp
    | some F => simpa using ih F

variable {E F G : Env} {pairs pairs' : List (Term × Term)}

theorem compatible_unifyEach_iff (h : E.unifyEach pairs = some F) (σ : Nat → Term) :
    F.Compatible σ ↔ E.Compatible σ ∧ Solves σ pairs := by
  rw [solves_unifyEach, h]
  simp

theorem equivalent_of_rearranged (h : Rearranged pairs pairs') (hF : E.unifyEach pairs = some F)
    (hG : E.unifyEach pairs' = some G) : F.Equivalent G := by
  intro σ
  rw [compatible_unifyEach_iff hF, compatible_unifyEach_iff hG, h.solves_iff]

/-- An environment respects its own bindings, so a success is a solution, and any other order has
to succeed as well. -/
theorem isSome_unifyEach_iff (h : Rearranged pairs pairs') :
    (E.unifyEach pairs).isSome ↔ (E.unifyEach pairs').isSome := by
  have hsolvable : ∀ ps, (E.unifyEach ps).isSome ↔ ∃ σ, E.Compatible σ ∧ Solves σ ps := by
    intro ps
    constructor
    · intro hsome
      obtain ⟨F, hF⟩ := Option.isSome_iff_exists.mp hsome
      exact ⟨_, (compatible_unifyEach_iff hF _).mp F.compatible_apply⟩
    · intro hex
      obtain ⟨σ, hσ⟩ := hex
      obtain ⟨F, hF, -⟩ := (E.solves_unifyEach ps σ).mp hσ
      rw [hF, Option.isSome_some]
  simp only [hsolvable, h.solves_iff]

/-- The order of equations and the order of their sides do not matter: both runs fail, or both
succeed with equally many bindings, and one permutation of the variables turns whatever a term
stands for after the one into what it stands for after the other. Variables that neither run binds
keep their names. -/
theorem unifyEach_rearranged (E : Env) {pairs pairs' : List (Term × Term)}
    (h : Rearranged pairs pairs') :
    (E.unifyEach pairs = none ∧ E.unifyEach pairs' = none) ∨
      ∃ F G, E.unifyEach pairs = some F ∧ E.unifyEach pairs' = some G ∧ F.size = G.size ∧
        ∃ ρ : Equiv.Perm Nat, (∀ t, (F.simplify t).rename ρ = G.simplify t) ∧
          ∀ v, F.lookup v = none → G.lookup v = none → ρ v = v := by
  have hsame := isSome_unifyEach_iff (E := E) h
  cases hF : E.unifyEach pairs with
  | none =>
    cases hG : E.unifyEach pairs' with
    | none => exact .inl ⟨rfl, rfl⟩
    | some G => simp [hF, hG] at hsame
  | some F =>
    cases hG : E.unifyEach pairs' with
    | none => simp [hF, hG] at hsame
    | some G =>
      have hequiv := equivalent_of_rearranged h hF hG
      exact .inr ⟨F, G, rfl, rfl, hequiv.size_eq, hequiv.exists_renaming⟩

/-- Solved in one order `Z` stands for `f(Y)`, in the other for `f(X)`. -/
theorem unifyEach_rearranged_chain :
    let x : Term := .var 0
    let y : Term := .var 1
    let z : Term := .var 2
    let fx : Term := .compound "f" [x]
    Rearranged [(x, y), (z, fx)] [(fx, z), (y, x)] ∧
      ∃ F G, empty.unifyEach [(x, y), (z, fx)] = some F ∧
        empty.unifyEach [(fx, z), (y, x)] = some G ∧
        F.bindings = [(2, fx), (0, y)] ∧ G.bindings = [(1, x), (2, fx)] ∧ F.size = G.size ∧
        ∃ ρ : Equiv.Perm Nat, ∀ t, (F.simplify t).rename ρ = G.simplify t := by
  intro x y z fx
  have hrearranged : Rearranged [(x, y), (z, fx)] [(fx, z), (y, x)] :=
    ⟨[(y, x), (fx, z)], .cons (.inr rfl) (.cons (.inr rfl) .nil), .swap ..⟩
  obtain ⟨F₁, hF₁, hl₁⟩ := exists_of_unify? (E := empty) (a := x) (b := y) (l := [(0, y)]) (by cbv)
  obtain ⟨F, hF, hl⟩ := exists_of_unify? (E := F₁) (a := z) (b := fx) (l := [(2, fx), (0, y)])
    (by rw [hl₁]; cbv)
  obtain ⟨G₁, hG₁, hk₁⟩ := exists_of_unify? (E := empty) (a := fx) (b := z) (l := [(2, fx)]) (by cbv)
  obtain ⟨G, hG, hk⟩ := exists_of_unify? (E := G₁) (a := y) (b := x) (l := [(1, x), (2, fx)])
    (by rw [hk₁]; cbv)
  have hpairs : empty.unifyEach [(x, y), (z, fx)] = some F := by
    simp [unifyEach, hF₁, hF]
  have hpairs' : empty.unifyEach [(fx, z), (y, x)] = some G := by
    simp [unifyEach, hG₁, hG]
  rcases empty.unifyEach_rearranged hrearranged with hnone | ⟨F', G', hF', hG', hsize, ρ, hρ, -⟩
  · rw [hpairs] at hnone
    cases hnone.1
  · rw [hpairs] at hF'
    rw [hpairs'] at hG'
    cases hF'
    cases hG'
    exact ⟨hrearranged, F, G, hpairs, hpairs', hl, hk, hsize, ρ, hρ⟩

end Env

end Signet
