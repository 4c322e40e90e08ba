import Signet.Env.Basic
import Signet.Error
import Signet.Traced

/-! Work that can be interrupted from outside. A `Promise` is the outcome of a goal, or a unit
of work that has not been started. `Work` lists the steps of a started unit up to the promise
it ends in: it can write to the record of the run, cancel the run, and look whether the run
is interrupted, but it can take nothing back. Forcing a promise looks at the context before
it starts a unit; a unit that has been started goes on to its end. -/

namespace Signet.Engine

inductive Interruption where
  | cancelled
  | deadline
  deriving DecidableEq

def Interruption.message : Interruption → String
  | .cancelled => "evaluation cancelled"
  | .deadline => "evaluation deadline exceeded"

/-- Why a run ended without an answer. -/
inductive Failure where
  | predicate (e : PredicateError)
  | interrupted (i : Interruption)

def Failure.message : Failure → String
  | .predicate e => e.message
  | .interrupted i => i.message

/-- Cancellation and deadline of a run. -/
structure Context where
  cancelled : Bool
  expired : Bool

namespace Context

def live : Context := ⟨false, false⟩

/-- A timeout of zero has passed at once; any other is taken to outlast the run. -/
def withTimeout (milliseconds : Nat) : Context := ⟨false, milliseconds == 0⟩

def cancel (c : Context) : Context := { c with cancelled := true }

/-- Cancellation comes before the deadline. -/
def interruption (c : Context) : Option Interruption :=
  if c.cancelled then some .cancelled else if c.expired then some .deadline else none

variable {c : Context}

theorem interruption_eq_none_iff :
    c.interruption = none ↔ c.cancelled = false ∧ c.expired = false := by
  unfold interruption
  cases c.cancelled <;> cases c.expired <;> decide

theorem interruption_of_cancelled (h : c.cancelled = true) :
    c.interruption = some .cancelled := by
  rw [interruption, if_pos h]

theorem interruption_of_expired (hcancelled : c.cancelled = false)
    (hexpired : c.expired = true) : c.interruption = some .deadline := by
  rw [interruption, hcancelled, if_neg Bool.false_ne_true, if_pos hexpired]

end Context

/-- A remark on the progress of a conjunction of goals. -/
inductive Note where
  | solution (goal bindings : Nat)
  | unknown (goal : Nat)
  | promise (goal : Nat) (text : String)
  deriving DecidableEq

/-- What a run writes down, in order. -/
inductive Record where
  | act (act : Act)
  | note (note : Note)
  /-- The continuation of the whole run was called. -/
  | solution (E : Env)

mutual

inductive Promise where
  | delayed (unit : Unit → Work)
  /-- `true` once a continuation has accepted a solution, `false` when the goal has failed. -/
  | answer (solved : Bool)
  | error (e : PredicateError)

inductive Work where
  | done (promise : Promise)
  | write (record : Record) (rest : Work)
  | cancel (rest : Work)
  | consult (rest : Option Interruption → Work)

end

namespace Work

/-- Goes on with the promise that the work ends in. -/
def andThen (next : Promise → Work) : Work → Work
  | .done p => next p
  | .write r w => .write r (w.andThen next)
  | .cancel w => .cancel (w.andThen next)
  | .consult k => .consult fun i => (k i).andThen next

/-- Does what a computation did, and goes on with its result. -/
def ofTraced (x : Traced ε α) (next : Except ε α → Work) : Work :=
  x.acts.foldr (fun a w => .write (.act a) w) (next x.result)

end Work

/-- What forcing a promise ends in. -/
abbrev Outcome := Except Failure Bool

structure Run where
  context : Context
  records : Array Record

def Run.write (r : Run) (record : Record) : Run := { r with records := r.records.push record }

mutual

/-- Starts unit after unit until the outcome is known or the run is interrupted. -/
def Promise.force : Promise → Run → Outcome × Run
  | .answer solved, r => (.ok solved, r)
  | .error e, r => (.error (.predicate e), r)
  | .delayed unit, r =>
    match r.context.interruption with
    | some i => (.error (.interrupted i), r)
    | none => (unit ()).force r

/-- Takes the steps of a started unit and forces the promise it ends in. -/
def Work.force : Work → Run → Outcome × Run
  | .done p, r => p.force r
  | .write record w, r => w.force (r.write record)
  | .cancel w, r => w.force { r with context := r.context.cancel }
  | .consult k, r => (k r.context.interruption).force r

end

mutual

/-- Forces a promise in the middle of other work, which goes on with the outcome. -/
def Promise.forceThen (next : Outcome → Work) : Promise → Work
  | .answer solved => next (.ok solved)
  | .error e => next (.error (.predicate e))
  | .delayed unit => .consult fun
    | some i => next (.error (.interrupted i))
    | none => (unit ()).forceThen next

def Work.forceThen (next : Outcome → Work) : Work → Work
  | .done p => p.forceThen next
  | .write record w => .write record (w.forceThen next)
  | .cancel w => .cancel (w.forceThen next)
  | .consult k => .consult fun i => (k i).forceThen next

end

namespace Promise

def text : Promise → String
  | .delayed _ => "Promise::Delayed"
  | .answer solved => "Promise::Bool(" ++ toString solved ++ ")"
  | .error e => "Promise::Error(" ++ e.message ++ ")"

/-- A promise `n` units away from the work in `last`; the work itself when `n` is zero. -/
def delays (last : Unit → Work) : Nat → Work
  | 0 => last ()
  | n + 1 => .done (.delayed fun _ => delays last n)

end Promise

end Signet.Engine
