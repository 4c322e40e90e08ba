import Signet.Proofs.Env.Substitution

/-! # The machine behind simplifying

A state of the machine has the frames that are left and the finished terms. What a run makes of the
states on its way is one and the same, so none of them misses an argument: from such a state the run
has no answer at all. The answer is one term, which recursion builds as well: a variable is resolved,
and a compound is rebuilt around its arguments. -/
namespace Signet

namespace Env

/-- The term resolved, and rebuilt from its substituted arguments if it is a compound. -/
def substitute (E : Env) (t : Term) : Term :=
  match _h : E.resolve t with
  | .compound f args => .compound f (args.attach.map fun a => E.substitute a.1)
  | r => r
termination_by E.weight t
decreasing_by exact weight_lt_of_resolve _h a.2

theorem substitute_eq_mapArgs (E : Env) (t : Term) :
    E.substitute t = (E.resolve t).mapArgs E.substitute := by
  rw [substitute]
  split
  · rename_i f args h
    rw [h, Term.mapArgs, List.attach_map_val (f := E.substitute)]
  · rename_i hne
    cases h : E.resolve t with
    | compound f args => exact absurd h (hne f args)
    | _ => rfl

theorem substitute_eq_simplify (E : Env) (t : Term) : E.substitute t = E.simplify t := by
  -- both satisfy one recursive equation, which goes down to arguments of less weight
  rw [substitute_eq_mapArgs, simplify_eq_mapArgs]
  cases h : E.resolve t with
  | compound f args =>
    have hargs : ∀ a ∈ args, E.substitute a = E.simplify a :=
      fun a ha => substitute_eq_simplify E a
    rw [Term.mapArgs, Term.mapArgs, List.map_congr_left hargs]
  | _ => rfl
termination_by E.weight t
decreasing_by exact weight_lt_of_resolve h ha

theorem le_length_of_takeArgs {n : Nat} {args done args' rest : List Term}
    (h : takeArgs n args done = some (args', rest)) : n ≤ done.length := by
  induction n generalizing args done with
  | zero => exact Nat.zero_le _
  | succ n ih =>
    cases done with
    | nil => cases h
    | cons t done => exact Nat.succ_le_succ (ih h)

end Env

namespace Bindings
open Env (Frame takeArgs)

/-- The machine between two steps: the frames that are left and the finished terms, the next one
first. -/
structure Machine where
  work : List Frame
  done : List Term

namespace Machine

/-- One step. There is none when no frame is left, when a frame misses an argument, or when
resolving does not end. -/
def step? (l : Bindings) : Machine → Option Machine
  | ⟨[], _⟩ => none
  | ⟨.visit t :: work, done⟩ => do
    match ← l.resolve? t with
    | .compound f args => return ⟨args.map .visit ++ .build f args.length :: work, done⟩
    | r => return ⟨work, r :: done⟩
  | ⟨.build f n :: work, done⟩ => do
    let (args, rest) ← takeArgs n [] done
    return ⟨work, .compound f args :: rest⟩

/-- A compound that is built next finds its arguments among the finished terms. -/
def Supplied (m : Machine) : Prop :=
  ∀ f n work, m.work = .build f n :: work → n ≤ m.done.length

end Machine

end Bindings

namespace Env
open Bindings (Machine)
open StateTransition (Reaches)
variable {E : Env} {m m' : Machine} {t : Term} {work : List Frame} {done answer : List Term}

theorem run_of_compound {f : String} {args : List Term} (h : E.resolve t = .compound f args) :
    E.run (.visit t :: work) done =
      E.run (args.map .visit ++ .build f args.length :: work) done := by
  rw [run]
  split
  · rename_i hr
    rw [h] at hr
    cases hr
    rfl
  · rename_i hne
    exact absurd h (hne f args)

theorem run_of_leaf (h : ∀ f args, E.resolve t ≠ .compound f args) :
    E.run (.visit t :: work) done = E.run work (E.resolve t :: done) := by
  rw [run]
  split
  · rename_i f args hr
    exact absurd hr (h f args)
  · rfl

theorem step?_of_compound {f : String} {args : List Term} (h : E.resolve t = .compound f args) :
    Machine.step? E.bindings ⟨.visit t :: work, done⟩ =
      some ⟨args.map .visit ++ .build f args.length :: work, done⟩ := by
  simp [Machine.step?, Bindings.resolve?_eq, h]

theorem step?_of_leaf (h : ∀ f args, E.resolve t ≠ .compound f args) :
    Machine.step? E.bindings ⟨.visit t :: work, done⟩ = some ⟨work, E.resolve t :: done⟩ := by
  simp [Machine.step?, Bindings.resolve?_eq]

/-- A step does not change what the rest of the run gives. -/
theorem run_of_step? (h : m.step? E.bindings = some m') :
    E.run m'.work m'.done = E.run m.work m.done := by
  obtain ⟨work, done⟩ := m
  cases work with
  | nil => cases h
  | cons frame work =>
    cases frame with
    | visit t =>
      by_cases hc : ∃ f args, E.resolve t = .compound f args
      · obtain ⟨f, args, hr⟩ := hc
        rw [step?_of_compound hr] at h
        cases h
        rw [run_of_compound hr]
      · have hleaf : ∀ f args, E.resolve t ≠ .compound f args := by simpa using hc
        rw [step?_of_leaf hleaf] at h
        cases h
        rw [run_of_leaf hleaf]
    | build f n =>
      obtain ⟨⟨args, rest⟩, htake, hm⟩ := Option.bind_eq_some_iff.mp h
      cases hm
      rw [run, htake]

theorem run_of_reaches (h : Reaches (Machine.step? E.bindings) m m') :
    E.run m'.work m'.done = E.run m.work m.done := by
  induction h with
  | refl => rfl
  | tail _ h ih => rw [run_of_step? h, ih]

theorem supplied_of_run (h : E.run m.work m.done = some answer) : m.Supplied := by
  intro f n work hwork
  rw [hwork, run] at h
  split at h
  · rename_i htake
    exact le_length_of_takeArgs htake
  · cases h

/-- The machine comes to the answer of the run, step by step. -/
theorem reaches_of_run (h : E.run work done = some answer) :
    Reaches (Machine.step? E.bindings) ⟨work, done⟩ ⟨[], answer⟩ := by
  fun_induction run E work done with
  | case1 done => cases h; exact .refl
  | case2 t work done f args hr ih => exact .head (step?_of_compound hr) (ih h)
  | case3 t work done hleaf ih => exact .head (step?_of_leaf hleaf) (ih h)
  | case4 f n work done args rest htake ih =>
    refine .head ?_ (ih h)
    rw [Option.mem_def, Machine.step?, htake]
    rfl
  | case5 f n work done htake => cases h

/-- The machine ends with one finished term, the one that recursion gives as well. At no state on its
way does a compound that is built next miss an argument, so the run never breaks off. -/
theorem simplify_machine (E : Env) (t : Term) :
    let start : Machine := ⟨[.visit t], []⟩
    ⟨[], [E.substitute t]⟩ ∈ StateTransition.eval (Machine.step? E.bindings) start ∧
      (∀ m, Reaches (Machine.step? E.bindings) start m → m.Supplied) ∧
      E.run [.visit t] [] = some [E.substitute t] ∧ E.simplify t = E.substitute t ∧
      E.substitute t = (E.resolve t).mapArgs E.substitute := by
  intro start
  have hrun : E.run start.work start.done = some [E.substitute t] := by
    rw [substitute_eq_simplify, simplify_eq]
    exact run_visit_single E t
  refine ⟨?_, ?_, hrun, (E.substitute_eq_simplify t).symm, E.substitute_eq_mapArgs t⟩
  · rw [StateTransition.mem_eval]
    exact ⟨reaches_of_run hrun, rfl⟩
  · intro m hm
    exact supplied_of_run ((run_of_reaches hm).trans hrun)

/-- With `X = k(7)` the machine takes the two arguments of `g(X, h())` back in their order, and none
for `h`. -/
theorem simplify_machine_no_arguments :
    let h : Term := .compound "h" []
    let k : Term := .compound "k" [.int 7]
    let E : Env := ⟨[(0, k)], trivial, rfl, by decide⟩
    let t : Term := .compound "g" [.var 0, h]
    let start : Machine := ⟨[.visit t], []⟩
    let before : Machine := ⟨[.build "h" 0, .build "g" 2], [k]⟩
    let after : Machine := ⟨[.build "g" 2], [h, k]⟩
    Reaches (Machine.step? E.bindings) start before ∧ before.Supplied ∧
      Reaches (Machine.step? E.bindings) start after ∧ after.Supplied ∧
      E.simplify t = .compound "g" [k, h] := by
  intro h k E t start before after
  have hbefore : Reaches (Machine.step? E.bindings) start before := by
    refine .head (b := ⟨[.visit (.var 0), .visit h, .build "g" 2], []⟩) (by cbv) ?_
    refine .head (b := ⟨[.visit (.int 7), .build "k" 1, .visit h, .build "g" 2], []⟩) (by cbv) ?_
    refine .head (b := ⟨[.build "k" 1, .visit h, .build "g" 2], [.int 7]⟩) (by cbv) ?_
    refine .head (b := ⟨[.visit h, .build "g" 2], [k]⟩) (by cbv) ?_
    exact .single (by cbv)
  have hafter : Reaches (Machine.step? E.bindings) start after := hbefore.tail (by cbv)
  obtain ⟨-, hsupplied, -⟩ := simplify_machine E t
  exact ⟨hbefore, hsupplied before hbefore, hafter, hsupplied after hafter,
    simplify_of_simplify? (by cbv)⟩

end Env

end Signet
