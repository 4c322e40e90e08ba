import Signet.Proofs.Env.Substitution

/-! # Occurrence behind bindings

A variable occurs in what a term stands for when some way leads to it, from a compound to one of its
arguments and from a bound variable to its term. The search keeps the terms it has yet to look at on a
stack; one of them leads to the variable as long as the term it was started with does. -/
namespace Signet

namespace Bindings

/-- The search before an iteration, or after the last one. -/
inductive Search where
  | searching (stack : List Term)
  | ended (found : Bool)

/-- One iteration. There is none after the last one, or when resolving does not end. -/
def Search.step? (l : Bindings) (v : Nat) : Search → Option Search
  | .searching [] => some (.ended false)
  | .searching (t :: stack) => do
    match ← l.resolve? t with
    | .var w => return if w = v then .ended true else .searching stack
    | .compound _ args => return .searching (args.reverse ++ stack)
    | _ => return .searching stack
  | .ended _ => none

end Bindings

namespace Env
open Bindings (Search)
open Relation (ReflTransGen)
open StateTransition (Reaches)
variable {E : Env} {t : Term} {v : Nat}

/-- One step into a term. -/
inductive LeadsTo (E : Env) : Term → Term → Prop
  | binding {v : Nat} {s : Term} : E.lookup v = some s → LeadsTo E (.var v) s
  | argument {f : String} {args : List Term} {a : Term} :
      a ∈ args → LeadsTo E (.compound f args) a

theorem LeadsTo.weight_lt {s : Term} (h : E.LeadsTo t s) : E.weight s < E.weight t := by
  cases h with
  | binding h =>
    rw [weight_of_lookup h]
    omega
  | argument h => exact weight_lt_of_mem h

theorem LeadsTo.mem_vars {s : Term} (h : E.LeadsTo t s) (hv : v ∈ (E.apply s).vars) :
    v ∈ (E.apply t).vars := by
  cases h with
  | binding h => rwa [apply_of_lookup h]
  | argument ha =>
    rw [apply_compound, Term.vars_compound, List.flatMap_map]
    exact List.mem_flatMap.mpr ⟨s, ha, hv⟩

/-- A variable in what a term stands for is the term, or is in what one step leads to. -/
theorem eq_or_exists_leadsTo (h : v ∈ (E.apply t).vars) :
    t = .var v ∨ ∃ s, E.LeadsTo t s ∧ v ∈ (E.apply s).vars := by
  cases t with
  | var w =>
    cases hw : E.lookup w with
    | none =>
      rw [apply_of_unbound hw, Term.vars, List.mem_singleton] at h
      exact .inl (by rw [h])
    | some s =>
      rw [apply_of_lookup hw] at h
      exact .inr ⟨s, .binding hw, h⟩
  | atom a => simp [Term.vars] at h
  | int i => simp [Term.vars] at h
  | compound f args =>
    rw [apply_compound, Term.vars_compound, List.flatMap_map] at h
    obtain ⟨a, ha, hv⟩ := List.mem_flatMap.mp h
    exact .inr ⟨a, .argument ha, hv⟩

theorem leadsTo_of_mem_vars (t : Term) (h : v ∈ (E.apply t).vars) :
    ReflTransGen E.LeadsTo t (.var v) := by
  -- by recursion on the weight: a step into a term takes some off
  rcases eq_or_exists_leadsTo h with rfl | ⟨s, hstep, hs⟩
  · exact .refl
  · exact .head hstep (leadsTo_of_mem_vars s hs)
termination_by E.weight t
decreasing_by exact hstep.weight_lt

theorem mem_vars_apply_iff (E : Env) (t : Term) (v : Nat) :
    v ∈ (E.apply t).vars ↔ E.lookup v = none ∧ ReflTransGen E.LeadsTo t (.var v) := by
  constructor
  · intro h
    exact ⟨lookup_of_mem_vars_apply h, leadsTo_of_mem_vars t h⟩
  · rintro ⟨hv, h⟩
    induction h using ReflTransGen.head_induction_on with
    | refl => simp [apply_of_unbound hv, Term.vars]
    | head hstep _ ih => exact hstep.mem_vars ih

/-- The search comes to its answer, iteration by iteration. -/
theorem reaches_ended (E : Env) (v : Nat) (stack : List Term) :
    Reaches (Search.step? E.bindings v) (.searching stack) (.ended (E.occursIn v stack)) := by
  fun_induction occursIn E v stack with
  | case1 => exact .single rfl
  | case2 t stack w h ih =>
    by_cases hw : w = v
    · refine .single ?_
      simp [Search.step?, Bindings.resolve?_eq, h, hw]
    · have hne : (w == v) = false := by simpa using hw
      rw [hne, Bool.false_or]
      refine .head ?_ ih
      simp [Search.step?, Bindings.resolve?_eq, h, hw]
  | case3 t stack f args h ih =>
    refine .head ?_ ih
    simp [Search.step?, Bindings.resolve?_eq, h]
  | case4 t stack hv hc ih =>
    refine .head ?_ ih
    simp [Search.step?, Bindings.resolve?_eq]

/-- The occurs check finds a variable exactly when it is in what the term stands for: unbound, and
behind arguments and bindings in any number. Its loop ends with that answer. -/
theorem occurs_exact (E : Env) (v : Nat) (t : Term) :
    (E.occurs v t = true ↔ v ∈ (E.simplify t).vars) ∧
      (E.occurs v t = true ↔ E.lookup v = none ∧ ReflTransGen E.LeadsTo t (.var v)) ∧
      .ended (E.occurs v t) ∈
        StateTransition.eval (Search.step? E.bindings v) (.searching [t]) := by
  refine ⟨?_, ?_, ?_⟩
  · rw [simplify_eq, occurs_iff]
  · rw [occurs_iff, mem_vars_apply_iff]
  · rw [StateTransition.mem_eval]
    exact ⟨E.reaches_ended v [t], rfl⟩

end Env

end Signet
