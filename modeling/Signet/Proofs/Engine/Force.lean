import Signet.Engine.Solve

/-! # Forcing a suspended goal

Nothing of a suspended goal happens before its unit is started. Then the evaluation is written
down as a whole, and the result decides whether the continuation is called. -/
namespace Signet.Engine

/-- The run after a computation has done `acts`. -/
def Run.after (r : Run) (acts : List Act) : Run := acts.foldl (fun r a => r.write (.act a)) r

@[simp] theorem Run.context_after (r : Run) (acts : List Act) : (r.after acts).context = r.context := by
  unfold Run.after
  induction acts generalizing r with
  | nil => rfl
  | cons a acts ih => exact ih _

theorem Run.after_append (r : Run) (acts acts' : List Act) :
    r.after (acts ++ acts') = (r.after acts).after acts' :=
  List.foldl_append

theorem Run.toList_records_after (r : Run) (acts : List Act) :
    (r.after acts).records.toList = r.records.toList ++ acts.map .act := by
  unfold Run.after
  induction acts generalizing r with
  | nil => simp
  | cons a acts ih =>
    rw [List.foldl_cons, ih]
    simp [Run.write]

theorem Run.calls_after (r : Run) (x : Traced PredicateError (Option Env)) :
    (r.after x.acts).calls = r.calls ++ x.calls := by
  unfold Run.calls Traced.calls
  rw [toList_records_after, List.filterMap_append, List.filterMap_map]
  congr 2
  funext a
  cases a <;> rfl

theorem force_ofTraced {ε α : Type} (x : Traced ε α) (next : Except ε α → Work) (r : Run) :
    (Work.ofTraced x next).force r = (next x.result).force (r.after x.acts) := by
  unfold Work.ofTraced
  induction x.acts generalizing r with
  | nil => rfl
  | cons a acts ih =>
    rw [List.foldr_cons, Work.force, ih]
    rfl

theorem force_suspend (evaluate : Env → Traced PredicateError (Option Env)) (cont : Cont) (E : Env)
    (r : Run) :
    (suspend evaluate cont E).force r =
      match r.context.interruption with
      | some i => (.error (.interrupted i), r)
      | none =>
        match (evaluate E).result with
        | .ok (some E') => (cont E').force (r.after (evaluate E).acts)
        | .ok none => (.ok false, r.after (evaluate E).acts)
        | .error e => (.error (.predicate e), r.after (evaluate E).acts) := by
  rw [suspend, Work.force, Promise.force]
  cases r.context.interruption with
  | some i => rfl
  | none =>
    dsimp only
    rw [force_ofTraced]
    cases (evaluate E).result with
    | error e => simp only [Work.force, Promise.force]
    | ok found => cases found <;> simp only [Work.force, Promise.force]

end Signet.Engine
