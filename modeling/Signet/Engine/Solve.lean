import Signet.Engine.Work
import Signet.Env.Unify

/-! Running a goal to its first solution. A goal is given a continuation, which it may call
with the bindings of a solution; the continuation of the whole run records them. The
recorded bindings are the answer only when the goal's promise is forced to `true`. -/

namespace Signet.Engine

abbrev Cont := Env → Work

/-- Unifies and goes on, or fails without calling the continuation. -/
def unify (a b : Term) (cont : Cont) (E : Env) : Work :=
  match E.unify a b with
  | some E' => cont E'
  | none => .done (.answer false)

/-- A goal that is evaluated when its unit is started, not before. -/
def suspend (evaluate : Env → Traced PredicateError (Option Env)) (cont : Cont) (E : Env) : Work :=
  .done (.delayed fun _ => .ofTraced (evaluate E) fun
    | .ok (some E') => cont E'
    | .ok none => .done (.answer false)
    | .error e => .done (.error e))

/-- The continuation of a whole run. -/
def accept : Cont := fun E => .write (.solution E) (.done (.answer true))

namespace Run

/-- The bindings that the continuation of the run was last called with. -/
def solution? (r : Run) : Option Env :=
  r.records.foldl (fun found record => match record with | .solution E => some E | _ => found) none

def events (r : Run) : List Log.Event :=
  r.records.toList.filterMap fun | .act (.event e) => some e | _ => none

def calls (r : Run) : List Provider.Call :=
  r.records.toList.filterMap fun | .act (.call c) => some c | _ => none

def notes (r : Run) : List Note :=
  r.records.toList.filterMap fun | .note n => some n | _ => none

end Run

/-- Runs a goal. `none` is a goal that failed. -/
def solve (goal : Cont → Env → Work) (E : Env) (c : Context) :
    Except Failure (Option Env) × Run :=
  let (outcome, run) := (goal accept E).force ⟨c, #[]⟩
  match outcome with
  | .ok true => (.ok run.solution?, run)
  | .ok false => (.ok none, run)
  | .error f => (.error f, run)

end Signet.Engine
