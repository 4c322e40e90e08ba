import Mathlib
import Signet.Env.Simplify
import Signet.Env.Unify

/-! # The loops on bare bindings

The operations of an environment lean on the proof that its bindings are triangular. Here are
the same loops on any bindings at all: a binding is put in front without a proof, and a loop
that does not end has no value. On the bindings of an environment each loop ends, with the
value of the operation. -/
namespace Signet

namespace Bindings
open Env (Frame takeArgs step)

/-- Follows bindings to an unbound variable or a term that is no variable. -/
def resolve? (l : Bindings) (t : Term) : Option Term :=
  match t with
  | .var v =>
    match l.lookup v with
    | some s => l |>.resolve? s
    | none => some (.var v)
  | t => some t
partial_fixpoint

/-- Whether `v` turns up on the stack or behind it. -/
def occursIn? (l : Bindings) (v : Nat) (stack : List Term) : Option Bool :=
  match stack with
  | [] => some false
  | t :: stack => do
    match ← l.resolve? t with
    | .var w => if w = v then return true else l |>.occursIn? v stack
    | .compound _ args => l |>.occursIn? v (args.reverse ++ stack)
    | _ => l |>.occursIn? v stack
partial_fixpoint

def occurs? (l : Bindings) (v : Nat) (t : Term) : Option Bool := l.occursIn? v [t]

/-- Runs the machine behind `simplify?`. The inner value is `none` when a frame misses an
argument. -/
def run? (l : Bindings) (work : List Frame) (done : List Term) : Option (Option (List Term)) :=
  match work with
  | [] => some (some done)
  | .visit t :: work => do
    match ← l.resolve? t with
    | .compound f args => l |>.run? (args.map .visit ++ .build f args.length :: work) done
    | t' => l |>.run? work (t' :: done)
  | .build f n :: work =>
    match takeArgs n [] done with
    | some (args, rest) => l |>.run? work (.compound f args :: rest)
    | none => some none
partial_fixpoint

def simplify? (l : Bindings) (t : Term) : Option Term := do
  match ← l.run? [.visit t] [] with
  | some (t' :: _) => return t'
  | _ => return t

/-- Puts a binding in front, whatever it does to the others. -/
def put (l : Bindings) (v : Nat) (s : Term) : Bindings := (v, s) :: l

/-- Solves the open equations. The inner value is `none` when they have no solution. -/
def unifyAll? (l : Bindings) (pending : List (Term × Term)) : Option (Option Bindings) :=
  match pending with
  | [] => some (some l)
  | (x, y) :: pending => do
    match step (← l.resolve? x) (← l.resolve? y) with
    | .clash => return none
    | .decompose pairs => l |>.unifyAll? (pairs ++ pending)
    | .assign v s =>
      if ← l.occurs? v s then return none else l.put v s |>.unifyAll? pending
partial_fixpoint

def unify? (l : Bindings) (a b : Term) : Option (Option Bindings) := l.unifyAll? [(a, b)]

/-- Bindings with a cycle show that a loop on bare bindings need not end. -/
theorem resolve?_of_loop {l : Bindings} {v : Nat} (h : l.lookup v = some (.var v)) :
    l.resolve? (.var v) = none := by
  have never : ∀ t r, l.resolve? t = some r → t ≠ .var v := by
    apply resolve?.partial_correctness
    rintro follow ih t r hr rfl
    simp only [h] at hr
    exact ih _ _ hr rfl
  cases hr : l.resolve? (.var v) with
  | none => rfl
  | some r => exact absurd rfl (never _ _ hr)

variable (E : Env)

theorem resolve?_eq (t : Term) : E.bindings.resolve? t = some (E.resolve t) := by
  fun_induction Env.resolve E t with
  | case1 v s h ih =>
    have h' : E.bindings.lookup v = some s := h
    rw [resolve?, h']
    exact ih
  | case2 v h =>
    have h' : E.bindings.lookup v = none := h
    rw [resolve?, h']
  | case3 t ht =>
    rw [resolve?]
    exact ht

theorem occursIn?_eq (v : Nat) (stack : List Term) :
    E.bindings.occursIn? v stack = some (E.occursIn v stack) := by
  fun_induction Env.occursIn E v stack with
  | case1 => rw [occursIn?]
  | case2 t stack w h ih =>
    rw [occursIn?, resolve?_eq, h]
    by_cases hw : w = v
    · simp [hw]
    · simp [hw, ih]
  | case3 t stack f args h ih =>
    rw [occursIn?, resolve?_eq, h]
    exact ih
  | case4 t stack hv hc ih =>
    rw [occursIn?, resolve?_eq]
    cases h : E.resolve t with
    | var w => exact absurd h (hv w)
    | compound f args => exact absurd h (hc f args)
    | _ => exact ih

theorem occurs?_eq (v : Nat) (t : Term) : E.bindings.occurs? v t = some (E.occurs v t) :=
  occursIn?_eq E v [t]

theorem run?_eq (work : List Frame) (done : List Term) :
    E.bindings.run? work done = some (E.run work done) := by
  fun_induction Env.run E work done with
  | case1 done => rw [run?]
  | case2 t work done f args h ih =>
    rw [run?, resolve?_eq, h]
    exact ih
  | case3 t work done hc ih =>
    rw [run?, resolve?_eq]
    cases h : E.resolve t with
    | compound f args => exact absurd h (hc f args)
    | _ => rw [h] at ih; exact ih
  | case4 f n work done args rest h ih =>
    rw [run?, h]
    exact ih
  | case5 f n work done h => rw [run?, h]

theorem simplify?_eq (t : Term) : E.bindings.simplify? t = some (E.simplify t) := by
  rw [simplify?, run?_eq, Env.simplify, Env.run_visit_single]
  rfl

theorem unifyAll?_eq (pending : List (Term × Term)) :
    E.bindings.unifyAll? pending = some ((E.unifyAll pending).map Env.bindings) := by
  fun_induction Env.unifyAll E pending with
  | case1 E => rw [unifyAll?]; rfl
  | case2 E x y pending h =>
    rw [unifyAll?, resolve?_eq, resolve?_eq]
    simp [h]
  | case3 E x y pending pairs h ih =>
    rw [unifyAll?, resolve?_eq, resolve?_eq]
    simpa [h] using ih
  | case4 E x y pending v s h ho =>
    rw [unifyAll?, resolve?_eq, resolve?_eq]
    simp [h, occurs?_eq, ho]
  | case5 E x y pending v s h ho ih =>
    rw [unifyAll?, resolve?_eq, resolve?_eq]
    simpa [h, occurs?_eq, ho, put] using ih

theorem unify?_eq (a b : Term) :
    E.bindings.unify? a b = some ((E.unify a b).map Env.bindings) :=
  unifyAll?_eq E [(a, b)]

end Bindings

namespace Env

/-- The bare loop can be run on closed terms, where `unify` itself does not reduce. -/
theorem exists_of_unify? {E : Env} {a b : Term} {l : Bindings}
    (h : E.bindings.unify? a b = some (some l)) : ∃ E', E.unify a b = some E' ∧ E'.bindings = l := by
  rw [Bindings.unify?_eq] at h
  exact Option.map_eq_some_iff.mp (Option.some.inj h)

theorem simplify_of_simplify? {E : Env} {t s : Term} (h : E.bindings.simplify? t = some s) :
    E.simplify t = s := by
  rw [Bindings.simplify?_eq] at h
  exact Option.some.inj h

theorem unify_eq_none_of_unify? {E : Env} {a b : Term}
    (h : E.bindings.unify? a b = some none) : E.unify a b = none := by
  rw [Bindings.unify?_eq] at h
  exact Option.map_eq_none_iff.mp (Option.some.inj h)

end Env

end Signet
