import Signet.Env.Basic

/-! Full substitution with an explicit stack. The machine visits a term, leaves a `build`
frame for a compound, and puts finished terms on a second stack, from which the frame takes
its arguments back. `run_visit` says that a visited term `t` adds exactly `E.apply t` to the
finished ones; so a `build` frame always finds its arguments, and the answer of `simplify`
is the substitution. -/

namespace Signet.Env

open Term

inductive Frame where
  | visit (t : Term)
  | build (functor : String) (arity : Nat)

/-- Moves the top `n` finished terms in front of `args`; `none` if there are fewer. -/
def takeArgs : Nat → List Term → List Term → Option (List Term × List Term)
  | 0, args, done => some (args, done)
  | n + 1, args, t :: done => takeArgs n (t :: args) done
  | _ + 1, _, [] => none

theorem takeArgs_reverse_append (ts args done : List Term) :
    takeArgs ts.length args (ts.reverse ++ done) = some (ts ++ args, done) := by
  induction hn : ts.length generalizing ts args with
  | zero => simp [List.length_eq_zero_iff.mp hn, takeArgs]
  | succ n ih =>
    obtain ⟨us, u, rfl⟩ := List.eq_nil_or_concat ts |>.resolve_left (by rintro rfl; simp at hn)
    simpa [takeArgs] using ih us (u :: args) (by simpa using hn)

/-- The steps a frame may still cause. -/
def Frame.cost (E : Env) : Frame → Nat
  | .visit t => 2 * E.weight t
  | .build .. => 1

def workCost (E : Env) (work : List Frame) : Nat := total (Frame.cost E) work

theorem workCost_visits (E : Env) (args : List Term) (work : List Frame) :
    workCost E (args.map .visit ++ work) = 2 * total E.weight args + workCost E work := by
  induction args with
  | nil => simp [workCost, total]
  | cons a as ih =>
    simp only [workCost, List.map_cons, List.cons_append, total, Frame.cost] at ih ⊢
    omega

/-- Runs the machine to the end; `none` if a frame misses an argument. -/
def run (E : Env) : List Frame → List Term → Option (List Term)
  | [], done => some done
  | .visit t :: work, done =>
    match _h : E.resolve t with
    | .compound f args => run E (args.map .visit ++ .build f args.length :: work) done
    | t' => run E work (t' :: done)
  | .build f n :: work, done =>
    match takeArgs n [] done with
    | some (args, rest) => run E work (.compound f args :: rest)
    | none => none
termination_by work => workCost E work
decreasing_by
  · have := weight_resolve_le E t
    rw [_h, weight_compound] at this
    rw [workCost_visits]
    simp only [workCost, total, Frame.cost]
    omega
  · have := weight_pos E t
    simp only [workCost, total, Frame.cost]
    omega
  · simp only [workCost, total, Frame.cost]
    omega

/-- The term with every bound variable replaced, at any depth. -/
def simplify (E : Env) (t : Term) : Term :=
  match run E [.visit t] [] with
  | some (t' :: _) => t'
  | _ => t

theorem run_visits {E : Env} {args : List Term}
    (h : ∀ a ∈ args, ∀ work done, run E (.visit a :: work) done = run E work (E.apply a :: done))
    (work : List Frame) (done : List Term) :
    run E (args.map .visit ++ work) done = run E work ((args.map E.apply).reverse ++ done) := by
  induction args generalizing done with
  | nil => rfl
  | cons a as ih =>
    simp only [List.map_cons, List.cons_append]
    rw [h a (by simp), ih fun b hb => h b (by simp [hb])]
    simp

theorem run_visit (E : Env) (t : Term) (work : List Frame) (done : List Term) :
    run E (.visit t :: work) done = run E work (E.apply t :: done) := by
  induction hn : E.weight t using Nat.strongRecOn generalizing t work done with
  | ind n ih =>
    rw [run]
    have hr := apply_resolve E t
    split
    · rename_i f args h
      rw [h, apply_compound] at hr
      rw [run_visits]
      · have hargs := takeArgs_reverse_append (args.map E.apply) [] done
        rw [List.length_map] at hargs
        rw [run, hargs]
        simp [hr]
      · intro a ha work' done'
        have hlt : E.weight a < n := hn ▸ weight_lt_of_resolve h ha
        exact ih (E.weight a) hlt a work' done' rfl
    · rename_i hne
      rw [← hr]
      generalize h : E.resolve t = r at *
      cases r with
      | var v => rw [apply_of_unbound (lookup_of_resolve h)]
      | atom a => simp
      | int i => simp
      | compound f args => exact absurd rfl (hne f args)

theorem run_visit_single (E : Env) (t : Term) : run E [.visit t] [] = some [E.apply t] := by
  rw [run_visit, run]

theorem simplify_eq (E : Env) (t : Term) : E.simplify t = E.apply t := by
  rw [simplify, run_visit_single]

end Signet.Env
