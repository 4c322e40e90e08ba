import Signet.Engine.Solve
import Signet.Predicates

/-! Conjunctions of goals. The continuation of each goal starts the next one in the bindings
it is given; the last one's is the continuation of the run. Each call of a continuation and
each promise that a goal gives is noted, in the order in which they come about. -/

namespace Signet.Engine

inductive Goal where
  | call (name : String) (args : List Term)
  | verify (family : Family) (request : Request)
  | unify (a b : Term)
  /-- Cancels the run and goes on. -/
  | cancel
  /-- Goes on after so many units of work. -/
  | delay (units : Nat)
  /-- Answers without going on. -/
  | answer (solved : Bool)
  | throw (e : PredicateError)
  /-- Goes on, drops what comes of it, and fails. -/
  | thenFail

namespace Goal

/-- The work of a goal up to its promise; `none` for a call of no known predicate. -/
def start? (preds : Predicates) (goal : Goal) (cont : Cont) (E : Env) : Option Work :=
  match goal with
  | .call name args => (preds.call? name args).map fun evaluate => suspend evaluate cont E
  | .verify family request => some (suspend (preds.verifies family request) cont E)
  | .unify a b => some (Engine.unify a b cont E)
  | .cancel => some (.cancel (cont E))
  | .delay units => some (Promise.delays (fun _ => cont E) units)
  | .answer solved => some (.done (.answer solved))
  | .throw e => some (.done (.error e))
  | .thenFail => some ((cont E).andThen fun _ => .done (.answer false))

/-- The goals one after the other, the first of them numbered `i`. -/
def conjunction (preds : Predicates) (i : Nat) (goals : List Goal) (cont : Cont) (E : Env) :
    Work :=
  match goals with
  | [] => cont E
  | goal :: rest =>
    let next : Cont := fun E' =>
      .write (.note (.solution i E'.size)) (conjunction preds (i + 1) rest cont E')
    match goal.start? preds next E with
    | none => .write (.note (.unknown i)) (.done (.answer false))
    | some work => work.andThen fun p => .write (.note (.promise i p.text)) (.done p)

def solveAll (preds : Predicates) (goals : List Goal) (E : Env) (c : Context) :
    Except Failure (Option Env) × Run :=
  solve (conjunction preds 0 goals) E c

end Goal

end Signet.Engine
