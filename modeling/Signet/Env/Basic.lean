import Signet.Bindings

/-! The environment of a computation: a snapshot of variable bindings. It carries the proof
that each binding was made for an unbound variable that does not occur in the bound term,
so following bindings ends (`resolve`) and no operation below needs a bound on its steps. -/

namespace Signet

structure Env where
  bindings : Bindings
  triangular : bindings.Triangular

namespace Env

open Term

def empty : Env := ⟨[], trivial⟩

instance : Inhabited Env := ⟨empty⟩

/-- Number of bound variables. -/
def size (E : Env) : Nat := E.bindings.length

def isEmpty (E : Env) : Bool := E.bindings.isEmpty

/-- The term that `v` is directly bound to. -/
def lookup (E : Env) (v : Nat) : Option Term := E.bindings.lookup v

/-- What a term stands for: every bound variable is replaced, at any depth. -/
def apply (E : Env) (t : Term) : Term := E.bindings.apply t

/-- The nodes that a full reading of a term visits. -/
def weight (E : Env) (t : Term) : Nat := E.bindings.weight t

theorem weight_of_lookup {E : Env} {v : Nat} {s : Term} (h : E.lookup v = some s) :
    E.weight (.var v) = 1 + E.weight s :=
  Bindings.weight_of_lookup E.triangular h

theorem weight_compound (E : Env) (f : String) (args : List Term) :
    E.weight (.compound f args) = 1 + total E.weight args :=
  Bindings.weight_compound E.bindings f args

theorem weight_lt_of_mem {E : Env} {f : String} {args : List Term} {a : Term} (h : a ∈ args) :
    E.weight a < E.weight (.compound f args) := by
  have := le_total (f := E.weight) h
  rw [weight_compound]
  omega

theorem weight_pos (E : Env) (t : Term) : 0 < E.weight t := Bindings.weight_pos t

@[simp] theorem apply_atom (E : Env) (a : String) : E.apply (.atom a) = .atom a :=
  Bindings.apply_atom _ _

@[simp] theorem apply_int (E : Env) (i : Int64) : E.apply (.int i) = .int i :=
  Bindings.apply_int _ _

@[simp] theorem apply_compound (E : Env) (f : String) (args : List Term) :
    E.apply (.compound f args) = .compound f (args.map E.apply) :=
  Bindings.apply_compound _ _ _

theorem apply_of_lookup {E : Env} {v : Nat} {s : Term} (h : E.lookup v = some s) :
    E.apply (.var v) = E.apply s :=
  Bindings.apply_of_lookup E.triangular h

theorem apply_of_unbound {E : Env} {v : Nat} (h : E.lookup v = none) :
    E.apply (.var v) = .var v :=
  Bindings.apply_var_of_unbound h

/-- Follows bindings to an unbound variable or a term that is no variable. The arguments of
a compound are left as they are. -/
def resolve (E : Env) : Term → Term
  | .var v =>
    match _h : E.lookup v with
    | some s => E.resolve s
    | none => .var v
  | t => t
termination_by t => E.weight t
decreasing_by
  have := weight_of_lookup _h
  omega

theorem resolve_of_lookup {E : Env} {v : Nat} {s : Term} (h : E.lookup v = some s) :
    E.resolve (.var v) = E.resolve s := by
  rw [resolve]
  split
  · rename_i s' h'
    rw [h] at h'
    cases h'
    rfl
  · rename_i h'
    rw [h] at h'
    cases h'

theorem resolve_of_unbound {E : Env} {v : Nat} (h : E.lookup v = none) :
    E.resolve (.var v) = .var v := by
  rw [resolve]
  split
  · rename_i s' h'
    rw [h] at h'
    cases h'
  · rfl

@[simp] theorem resolve_atom (E : Env) (a : String) : E.resolve (.atom a) = .atom a := by
  rw [resolve]; simp

@[simp] theorem resolve_int (E : Env) (i : Int64) : E.resolve (.int i) = .int i := by
  rw [resolve]; simp

@[simp] theorem resolve_compound (E : Env) (f : String) (args : List Term) :
    E.resolve (.compound f args) = .compound f args := by
  rw [resolve]; simp

theorem apply_resolve (E : Env) (t : Term) : E.apply (E.resolve t) = E.apply t := by
  fun_induction resolve E t with
  | case1 v s h ih => rw [ih, apply_of_lookup h]
  | case2 v h => rfl
  | case3 t _ => rfl

theorem weight_resolve_le (E : Env) (t : Term) : E.weight (E.resolve t) ≤ E.weight t := by
  fun_induction resolve E t with
  | case1 v s h ih =>
    have := weight_of_lookup h
    omega
  | case2 v h => exact Nat.le_refl _
  | case3 t _ => exact Nat.le_refl _

theorem weight_lt_of_resolve {E : Env} {t a : Term} {f : String} {args : List Term}
    (h : E.resolve t = .compound f args) (ha : a ∈ args) : E.weight a < E.weight t := by
  have hle := weight_resolve_le E t
  rw [h] at hle
  exact Nat.lt_of_lt_of_le (weight_lt_of_mem ha) hle

theorem lookup_of_resolve {E : Env} {t : Term} {v : Nat} (h : E.resolve t = .var v) :
    E.lookup v = none := by
  fun_induction resolve E t with
  | case1 w s _ ih => exact ih h
  | case2 w hw => cases h; exact hw
  | case3 t ht => exact absurd h (ht v)

end Env

end Signet
