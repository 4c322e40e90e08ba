import Signet.Proofs.Engine.Force

/-! # What comes of a goal

Under a live context a goal continues, fails or raises an error. Each is said of every continuation
and of every run so far, so a goal that continues calls its continuation once and for its own
outcome, and one that fails or raises an error does not call it. -/
namespace Signet.Engine
variable {goal : Cont → Work} {acts acts' : List Act}

/-- The goal does `acts`, then what the continuation does with `E`, and nothing else. -/
def Continues (goal : Cont → Work) (acts : List Act) (E : Env) : Prop :=
  ∀ cont r, r.context.interruption = none → (goal cont).force r = (cont E).force (r.after acts)

def Fails (goal : Cont → Work) (acts : List Act) : Prop :=
  ∀ cont r, r.context.interruption = none → (goal cont).force r = (.ok false, r.after acts)

def Raises (goal : Cont → Work) (acts : List Act) (e : PredicateError) : Prop :=
  ∀ cont r, r.context.interruption = none →
    (goal cont).force r = (.error (.predicate e), r.after acts)

/-- The outcome of a goal whose continuation only answers. -/
def probe (goal : Cont → Work) : Outcome :=
  ((goal fun _ => .done (.answer true)).force ⟨.live, #[]⟩).1

theorem Continues.probe_eq {E : Env} (h : Continues goal acts E) : probe goal = .ok true := by
  rw [probe, h _ _ rfl, Work.force, Promise.force]

theorem Fails.probe_eq (h : Fails goal acts) : probe goal = .ok false := by
  rw [probe, h _ _ rfl]

theorem Raises.probe_eq {e : PredicateError} (h : Raises goal acts e) :
    probe goal = .error (.predicate e) := by
  rw [probe, h _ _ rfl]

theorem Continues.not_fails {E : Env} (h : Continues goal acts E) : ¬ Fails goal acts' := by
  intro h'
  have hp := h.probe_eq
  rw [h'.probe_eq] at hp
  cases hp

theorem Continues.not_raises {E : Env} {e : PredicateError} (h : Continues goal acts E) :
    ¬ Raises goal acts' e := by
  intro h'
  have hp := h.probe_eq
  rw [h'.probe_eq] at hp
  cases hp

theorem Fails.not_raises {e : PredicateError} (h : Fails goal acts) : ¬ Raises goal acts' e := by
  intro h'
  have hp := h.probe_eq
  rw [h'.probe_eq] at hp
  cases hp

theorem Continues.unique {E E' : Env} (h : Continues goal acts E) (h' : Continues goal acts' E') :
    E = E' := by
  have hrun := (h accept ⟨.live, #[]⟩ rfl).symm.trans (h' accept _ rfl)
  have hlast := congrArg (fun out => out.2.records.back?) hrun
  simpa [accept, Work.force, Promise.force, Run.write] using hlast

theorem Raises.unique {e e' : PredicateError} (h : Raises goal acts e)
    (h' : Raises goal acts' e') : e = e' := by
  have hp := h.probe_eq
  rw [h'.probe_eq] at hp
  cases hp
  rfl

variable {evaluate : Env → Traced PredicateError (Option Env)} {E E' : Env}

theorem continues_suspend (h : (evaluate E).result = .ok (some E')) :
    Continues (suspend evaluate · E) (evaluate E).acts E' := by
  intro cont r hr
  rw [force_suspend, hr, h]

theorem fails_suspend (h : (evaluate E).result = .ok none) :
    Fails (suspend evaluate · E) (evaluate E).acts := by
  intro cont r hr
  rw [force_suspend, hr, h]

theorem raises_suspend {e : PredicateError} (h : (evaluate E).result = .error e) :
    Raises (suspend evaluate · E) (evaluate E).acts e := by
  intro cont r hr
  rw [force_suspend, hr, h]

theorem continues_suspend_iff :
    Continues (suspend evaluate · E) (evaluate E).acts E' ↔
      (evaluate E).result = .ok (some E') := by
  refine ⟨fun h => ?_, continues_suspend⟩
  cases hr : (evaluate E).result with
  | error e => exact absurd (raises_suspend hr) h.not_raises
  | ok solution =>
    cases solution with
    | none => exact absurd (fails_suspend hr) h.not_fails
    | some F => rw [h.unique (continues_suspend hr)]

theorem fails_suspend_iff :
    Fails (suspend evaluate · E) (evaluate E).acts ↔ (evaluate E).result = .ok none := by
  refine ⟨fun h => ?_, fails_suspend⟩
  cases hr : (evaluate E).result with
  | error e => exact absurd (raises_suspend hr) h.not_raises
  | ok solution =>
    cases solution with
    | none => rfl
    | some F => exact absurd h (continues_suspend hr).not_fails

theorem raises_suspend_iff {e : PredicateError} :
    Raises (suspend evaluate · E) (evaluate E).acts e ↔ (evaluate E).result = .error e := by
  refine ⟨fun h => ?_, raises_suspend⟩
  cases hr : (evaluate E).result with
  | error e' => rw [h.unique (raises_suspend hr)]
  | ok solution =>
    cases solution with
    | none => exact absurd h (fails_suspend hr).not_raises
    | some F => exact absurd h (continues_suspend hr).not_raises

end Signet.Engine
