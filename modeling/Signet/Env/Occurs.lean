import Signet.Env.Basic

/-! The occurs check, with an explicit stack, the last argument of a compound on top: does an
unbound variable occur in what a term stands for? `occursIn_iff` says that it does exactly
when the answer is `true`. -/

namespace Signet.Env

open Term

def stackWeight (E : Env) (stack : List Term) : Nat := total E.weight stack

def occursIn (E : Env) (v : Nat) : List Term → Bool
  | [] => false
  | t :: stack =>
    match _h : E.resolve t with
    | .var w => w == v || occursIn E v stack
    | .compound _ args => occursIn E v (args.reverse ++ stack)
    | _ => occursIn E v stack
termination_by stack => stackWeight E stack
decreasing_by
  · have := weight_pos E t
    simp only [stackWeight, total]
    omega
  · have := weight_resolve_le E t
    rw [_h, weight_compound] at this
    simp only [stackWeight, total_append, total_reverse, total]
    omega
  · have := weight_pos E t
    simp only [stackWeight, total]
    omega

/-- Whether the unbound variable `v` occurs in `t`, at any depth and behind any bindings. -/
def occurs (E : Env) (v : Nat) (t : Term) : Bool := occursIn E v [t]

theorem occursIn_iff {E : Env} (v : Nat) (stack : List Term) :
    E.occursIn v stack = true ↔ ∃ t ∈ stack, v ∈ (E.apply t).vars := by
  fun_induction occursIn E v stack with
  | case1 => simp
  | case2 t stack w h ih =>
    have hr := apply_resolve E t
    rw [h, apply_of_unbound (lookup_of_resolve h)] at hr
    simp [ih, ← hr, vars, @eq_comm Nat w v]
  | case3 t stack f args h ih =>
    have hr := apply_resolve E t
    rw [h, apply_compound] at hr
    simp [ih, ← hr, vars_compound, List.flatMap_map, or_and_right, exists_or]
  | case4 t stack hv hc ih =>
    have hr := apply_resolve E t
    generalize E.resolve t = r at *
    cases r with
    | var w => exact absurd rfl (hv w)
    | atom a => simp [ih, ← hr, vars]
    | int i => simp [ih, ← hr, vars]
    | compound f args => exact absurd rfl (hc f args)

theorem occurs_iff {E : Env} (v : Nat) (t : Term) :
    E.occurs v t = true ↔ v ∈ (E.apply t).vars := by
  simp [occurs, occursIn_iff]

end Signet.Env
