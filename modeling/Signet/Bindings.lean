import Signet.Term.Basic

/-! Bindings of variables to terms, the latest first. A binding is made for a variable that
is still unbound and does not occur in what the term stands for at that moment
(`Triangular`). `apply` says what a term stands for: it replaces the variables one binding
at a time, the oldest first. `weight` counts the nodes that reading a term visits, bindings
included; following a binding costs one node (`weight_of_lookup`), which is the measure behind
every loop over bound terms. -/

namespace Signet

abbrev Bindings := List (Nat × Term)

namespace Bindings

open Term

def lookup : Bindings → Nat → Option Term
  | [], _ => none
  | (w, s) :: l, v => if w = v then some s else lookup l v

def apply : Bindings → Term → Term
  | [], t => t
  | (v, s) :: l, t => (apply l t).bind (single v (apply l s))

def Triangular : Bindings → Prop
  | [] => True
  | (v, s) :: l => Triangular l ∧ lookup l v = none ∧ v ∉ (apply l s).vars

def weight : Bindings → Term → Nat
  | [], t => t.size
  | (v, s) :: l, t => weight l t + (apply l t).vars.count v * weight l s

@[simp] theorem apply_atom (l : Bindings) (a : String) : apply l (.atom a) = .atom a := by
  induction l with
  | nil => rfl
  | cons b l ih => simp [apply, ih, Term.bind]

@[simp] theorem apply_int (l : Bindings) (i : Int64) : apply l (.int i) = .int i := by
  induction l with
  | nil => rfl
  | cons b l ih => simp [apply, ih, Term.bind]

@[simp] theorem apply_compound (l : Bindings) (f : String) (args : List Term) :
    apply l (.compound f args) = .compound f (args.map (apply l)) := by
  induction l with
  | nil => exact congrArg (Term.compound f) (List.map_id' args).symm
  | cons b l ih => simp [apply, ih, bind_compound]

theorem apply_var_of_unbound {l : Bindings} {v : Nat} (h : lookup l v = none) :
    apply l (.var v) = .var v := by
  induction l with
  | nil => rfl
  | cons b l ih =>
    obtain ⟨w, s⟩ := b
    simp only [lookup] at h
    split at h
    · cases h
    · rename_i hne
      simp [apply, ih h, Term.bind, single, Ne.symm hne]

theorem apply_of_lookup {l : Bindings} (hl : Triangular l) {v : Nat} {s : Term}
    (h : lookup l v = some s) : apply l (.var v) = apply l s := by
  induction l with
  | nil => cases h
  | cons b l ih =>
    obtain ⟨w, r⟩ := b
    obtain ⟨htl, hw, hr⟩ := hl
    simp only [lookup] at h
    split at h
    · rename_i e
      cases h
      subst e
      simp [apply, apply_var_of_unbound hw, Term.bind, bind_single_of_not_mem hr]
    · simp [apply, ih htl h]

theorem weight_atom (l : Bindings) (a : String) : weight l (.atom a) = 1 := by
  induction l with
  | nil => rfl
  | cons b l ih => simp [weight, ih, vars]

theorem weight_int (l : Bindings) (i : Int64) : weight l (.int i) = 1 := by
  induction l with
  | nil => rfl
  | cons b l ih => simp [weight, ih, vars]

theorem weight_of_unbound {l : Bindings} {v : Nat} (h : lookup l v = none) :
    weight l (.var v) = 1 := by
  induction l with
  | nil => rfl
  | cons b l ih =>
    obtain ⟨w, s⟩ := b
    simp only [lookup] at h
    split at h
    · cases h
    · rename_i hne
      simp [weight, ih h, apply_var_of_unbound h, vars, Ne.symm hne]

theorem weight_of_lookup {l : Bindings} (hl : Triangular l) {v : Nat} {s : Term}
    (h : lookup l v = some s) : weight l (.var v) = 1 + weight l s := by
  induction l with
  | nil => cases h
  | cons b l ih =>
    obtain ⟨w, r⟩ := b
    obtain ⟨htl, hw, hr⟩ := hl
    simp only [lookup] at h
    split at h
    · rename_i e
      cases h
      subst e
      simp [weight, apply_var_of_unbound hw, weight_of_unbound hw, vars,
        List.count_eq_zero.mpr hr]
    · simp [weight, ih htl h, apply_of_lookup htl h]
      omega

theorem weight_compound (l : Bindings) (f : String) (args : List Term) :
    weight l (.compound f args) = 1 + total (weight l) args := by
  induction l with
  | nil => exact size_compound f args
  | cons b l ih =>
    obtain ⟨w, s⟩ := b
    have key : total (weight ((w, s) :: l)) args =
        total (weight l) args +
          (args.flatMap fun a => (apply l a).vars).count w * weight l s := by
      clear ih
      induction args with
      | nil => simp [total]
      | cons a as ih =>
        rw [total, ih]
        simp only [total, List.flatMap_cons, List.count_append, weight, Nat.add_mul]
        omega
    rw [key, weight, ih, apply_compound, vars_compound, List.flatMap_map]
    omega

theorem weight_pos {l : Bindings} (t : Term) : 0 < weight l t := by
  induction l with
  | nil => exact size_pos t
  | cons b l ih => exact Nat.lt_of_lt_of_le ih (Nat.le_add_right ..)

end Bindings

end Signet
