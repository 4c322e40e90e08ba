import Signet.Proofs.Env.Loops

/-! # The loop of unification, iteration by iteration

A loop holds bindings and equations that are still open. Its size by itself tells nothing: taking
compounds apart makes more equations, and a binding makes the terms in them larger. But an iteration
that goes on lowers a pair (`Env.GoesOn.measure_lt`): it binds a variable, and that variable is in no
equation any more, or it binds none and takes weight off the equations. Each binding uses up a
variable that the equations leave open, so there are never more bindings than there were such
variables. -/
namespace Signet

namespace Bindings
open Env (step)

/-- The loop before an iteration, or after the last one. -/
inductive Loop where
  | running (l : Bindings) (pending : List (Term × Term))
  | ended (answer : Option Bindings)

/-- One iteration. It has no value if it does not come to its own end. -/
def Loop.iterate? : Loop → Option Loop
  | .running l [] => some (.ended (some l))
  | .running l ((x, y) :: pending) => do
    match step (← l.resolve? x) (← l.resolve? y) with
    | .clash => return .ended none
    | .decompose pairs => return .running l (pairs ++ pending)
    | .assign v s =>
      if ← l.occurs? v s then return .ended none else return .running (l.put v s) pending
  | .ended answer => some (.ended answer)

/-- The loop after `n` iterations; one that has ended stays as it is. -/
def Loop.after? (loop : Loop) : Nat → Option Loop
  | 0 => some loop
  | n + 1 => loop.iterate?.bind fun next => next.after? n

/-- The bindings that a loop holds or has given; none after a failure. -/
def Loop.bindings? : Loop → Option Bindings
  | .running l _ => some l
  | .ended answer => answer

theorem Loop.after?_succ {loop next : Loop} (h : loop.iterate? = some next) (n : Nat) :
    loop.after? (n + 1) = next.after? n := by
  rw [after?, h]
  rfl

theorem Loop.after?_ended (answer : Option Bindings) (n : Nat) :
    (ended answer).after? n = some (.ended answer) := by
  induction n with
  | zero => rfl
  | succ n ih => rw [after?_succ rfl, ih]

end Bindings

namespace Env
open Bindings (Loop)
variable {E F : Env} {pending pending' : List (Term × Term)}

/-- An iteration after which the loop goes on. -/
inductive GoesOn : Env → List (Term × Term) → Env → List (Term × Term) → Prop
  | decompose {E : Env} {x y : Term} {pairs pending : List (Term × Term)} :
      step (E.resolve x) (E.resolve y) = .decompose pairs →
      GoesOn E ((x, y) :: pending) E (pairs ++ pending)
  | assign {E : Env} {x y s : Term} {v : Nat} {pending : List (Term × Term)}
      (h : step (E.resolve x) (E.resolve y) = .assign v s) (hs : E.occurs v s = false) :
      GoesOn E ((x, y) :: pending) (E.bind v s (unbound_of_step h) hs) pending

/-- The variables that open equations leave unbound, and the nodes that reading them visits. -/
def measure (E : Env) (pending : List (Term × Term)) : Nat × Nat :=
  (distinct (E.openVars pending), E.openWeight pending)

theorem GoesOn.measure_lt (h : GoesOn E pending F pending') :
    Prod.Lex (· < ·) (· < ·) (F.measure pending') (E.measure pending) := by
  cases h with
  | decompose h =>
    rcases Nat.lt_or_eq_of_le (openVars_of_step _ h) with hv | hv
    · exact .left _ _ hv
    · rw [measure, measure, hv]
      exact .right _ (openWeight_of_step _ h)
  | assign h hs => exact .left _ _ (distinct_openVars_bind h hs)

/-- A new binding is paid for by a variable of the equations. -/
theorem GoesOn.size_add_le (h : GoesOn E pending F pending') :
    F.size + distinct (F.openVars pending') ≤ E.size + distinct (E.openVars pending) := by
  cases h with
  | decompose h => exact Nat.add_le_add_left (openVars_of_step _ h) _
  | @assign x y s v _ h hs =>
    have hlt : distinct ((E.bind v s (unbound_of_step h) hs).openVars pending') < _ :=
      distinct_openVars_bind h hs
    simp only [size, bindings_bind, List.length_cons]
    omega

theorem GoesOn.iterate?_eq (h : GoesOn E pending F pending') :
    (Loop.running E.bindings pending).iterate? = some (.running F.bindings pending') := by
  cases h with
  | decompose h => simp [Loop.iterate?, Bindings.resolve?_eq, h]
  | assign h hs =>
    simp [Loop.iterate?, Bindings.resolve?_eq, Bindings.occurs?_eq, h, hs, Bindings.put]

theorem GoesOn.unifyAll_eq (h : GoesOn E pending F pending') :
    E.unifyAll pending = F.unifyAll pending' := by
  cases h with
  | decompose h => exact unifyAll_of_decompose h
  | assign h hs => exact unifyAll_of_assign h hs

/-- The next iteration is the last: it gives the answer, and binds nothing. -/
def Ends (E : Env) (pending : List (Term × Term)) : Prop :=
  (Loop.running E.bindings pending).iterate? =
      some (.ended ((E.unifyAll pending).map Env.bindings)) ∧
    ∀ F, E.unifyAll pending = some F → F = E

theorem ends_of_failure (h : E.unifyAll pending = none)
    (hi : (Loop.running E.bindings pending).iterate? = some (.ended none)) : E.Ends pending := by
  rw [Ends, h]
  refine ⟨hi, ?_⟩
  intro F hF
  cases hF

theorem goesOn_or_ends (E : Env) (pending : List (Term × Term)) :
    (∃ F pending', GoesOn E pending F pending') ∨ E.Ends pending := by
  cases pending with
  | nil =>
    rw [Ends, unifyAll]
    exact .inr ⟨rfl, fun F hF => (Option.some.inj hF).symm⟩
  | cons equation pending =>
    obtain ⟨x, y⟩ := equation
    cases h : step (E.resolve x) (E.resolve y) with
    | clash =>
      refine .inr (ends_of_failure (unifyAll_of_clash h) ?_)
      simp [Loop.iterate?, Bindings.resolve?_eq, h]
    | decompose pairs => exact .inl ⟨_, _, .decompose h⟩
    | assign v s =>
      cases hs : E.occurs v s with
      | false => exact .inl ⟨_, _, .assign h hs⟩
      | true =>
        refine .inr (ends_of_failure (unifyAll_of_occurs h hs) ?_)
        simp [Loop.iterate?, Bindings.resolve?_eq, Bindings.occurs?_eq, h, hs]

/-- The loop runs for some iterations, and then it has given the answer. -/
theorem exists_iterations (E : Env) (pending : List (Term × Term)) :
    ∃ n, (∀ m < n, ∃ l rest,
        (Loop.running E.bindings pending).after? m = some (.running l rest)) ∧
      (Loop.running E.bindings pending).after? n =
        some (.ended ((E.unifyAll pending).map Env.bindings)) := by
  -- by recursion on the measure, which falls with each iteration that is not the last
  rcases goesOn_or_ends E pending with ⟨F, pending', h⟩ | h
  · obtain ⟨n, hrunning, hended⟩ := exists_iterations F pending'
    refine ⟨n + 1, ?_, ?_⟩
    · intro m hm
      cases m with
      | zero => exact ⟨_, _, rfl⟩
      | succ m =>
        rw [Loop.after?_succ h.iterate?_eq]
        exact hrunning m (by omega)
    · rw [Loop.after?_succ h.iterate?_eq, hended, h.unifyAll_eq]
  · refine ⟨1, ?_, Loop.after?_succ h.1 0⟩
    intro m hm
    obtain rfl : m = 0 := by omega
    exact ⟨_, _, rfl⟩
termination_by E.measure pending
decreasing_by exact h.measure_lt

/-- Each iteration has a value, and at no time are there more bindings than at the start and, one for
each, variables that the equations leave open there. -/
theorem exists_after? (E : Env) (pending : List (Term × Term)) (n : Nat) :
    ∃ loop, (Loop.running E.bindings pending).after? n = some loop ∧
      ∀ l ∈ loop.bindings?, l.length ≤ E.size + distinct (E.openVars pending) := by
  induction n generalizing E pending with
  | zero =>
    refine ⟨_, rfl, ?_⟩
    intro l hl
    cases hl
    exact Nat.le_add_right ..
  | succ n ih =>
    rcases goesOn_or_ends E pending with ⟨F, pending', h⟩ | ⟨hend, hanswer⟩
    · obtain ⟨loop, hloop, hle⟩ := ih F pending'
      rw [Loop.after?_succ h.iterate?_eq]
      exact ⟨loop, hloop, fun l hl => Nat.le_trans (hle l hl) h.size_add_le⟩
    · rw [Loop.after?_succ hend, Loop.after?_ended]
      refine ⟨_, rfl, ?_⟩
      intro l hl
      obtain ⟨F, hF, rfl⟩ := Option.map_eq_some_iff.mp hl
      rw [hanswer F hF]
      exact Nat.le_add_right ..

theorem distinct_eq_card (vs : List Nat) : distinct vs = vs.toFinset.card := by
  induction vs with
  | nil => rfl
  | cons v vs ih =>
    rw [distinct, List.toFinset_cons]
    split
    · rename_i hv
      rw [ih, Finset.insert_eq_of_mem (List.mem_toFinset.mpr hv)]
    · rename_i hv
      rw [ih, Finset.card_insert_of_notMem (by simpa using hv), Nat.add_comm]

/-- The loop of unification ends after finitely many iterations, with the answer, and each of its
iterations ends. At no time has it added more bindings than there are different variables in what the
two terms stand for. -/
theorem unify_terminates (E : Env) (a b : Term) :
    let unbound : Finset Nat := ((E.simplify a).vars ++ (E.simplify b).vars).toFinset
    let start : Loop := .running E.bindings [(a, b)]
    (∃ n, (∀ m < n, ∃ l pending, start.after? m = some (.running l pending)) ∧
      start.after? n = some (.ended ((E.unify a b).map Env.bindings))) ∧
      (∀ n, ∃ loop, start.after? n = some loop ∧
        ∀ l ∈ loop.bindings?, l.length ≤ E.size + unbound.card) ∧
      ∀ F, E.unify a b = some F → F.size ≤ E.size + unbound.card := by
  intro unbound start
  have hcard : distinct (E.openVars [(a, b)]) = unbound.card := by
    simp only [unbound, simplify_eq, distinct_eq_card, openVars, List.flatMap_cons,
      List.flatMap_nil, List.append_nil]
  have hafter : ∀ n, ∃ loop, start.after? n = some loop ∧
      ∀ l ∈ loop.bindings?, l.length ≤ E.size + unbound.card := by
    rw [← hcard]
    exact exists_after? E [(a, b)]
  obtain ⟨n, hrunning, hended⟩ := exists_iterations E [(a, b)]
  refine ⟨⟨n, hrunning, hended⟩, hafter, ?_⟩
  intro F hF
  obtain ⟨loop, hloop, hle⟩ := hafter n
  have hloop' : loop = .ended (some F.bindings) := by
    have hsame := hloop.symm.trans hended
    rw [show E.unifyAll [(a, b)] = some F from hF] at hsame
    exact Option.some.inj hsame
  subst hloop'
  exact hle F.bindings rfl

/-- With `X = Y` the equation `f(X, Z) = f(g(Z), k)` leaves `Y` and `Z` open, and both are bound. -/
theorem unify_terminates_all_bound :
    let E : Env := ⟨[(0, .var 1)], trivial, rfl, by decide⟩
    let a : Term := .compound "f" [.var 0, .var 2]
    let b : Term := .compound "f" [.compound "g" [.var 2], .atom "k"]
    let l : Bindings := [(1, .compound "g" [.var 2]), (2, .atom "k"), (0, .var 1)]
    let start : Loop := .running E.bindings [(a, b)]
    start.after? 3 = some (.running l []) ∧ start.after? 4 = some (.ended (some l)) ∧
      ∃ F, E.unify a b = some F ∧ F.bindings = l ∧ F.size ≤ E.size + 2 := by
  intro E a b l start
  obtain ⟨F, hF, hl⟩ := exists_of_unify? (E := E) (a := a) (b := b) (l := l) (by cbv)
  have ha : E.simplify a = .compound "f" [.var 1, .var 2] := simplify_of_simplify? (by cbv)
  have hb : E.simplify b = b := simplify_of_simplify? (by cbv)
  have hsize := (unify_terminates E a b).2.2 F hF
  rw [ha, hb] at hsize
  exact ⟨by cbv, by cbv, F, hF, hl, hsize⟩

end Env

end Signet
