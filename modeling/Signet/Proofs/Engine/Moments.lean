import Mathlib.Logic.Relation
import Signet.Engine.Solve

/-! # The loop, step by step

A run goes through moments. At each the loop holds a promise, or the rest of the unit that it has
started. The loop itself makes one kind of step, which starts a unit; all others are made by the
unit that runs, or by the world, in which others cancel and time passes. Left alone, the steps lead
where forcing leads (`Moment.exists_rest`), so what takes no step of the loop starts no unit. -/
namespace Signet.Engine

def Run.cancel (r : Run) : Run := { r with context := r.context.cancel }

/-- The deadline passes. -/
def Run.expire (r : Run) : Run := { r with context := { r.context with expired := true } }

inductive Held where
  | promise (p : Promise)
  | unit (w : Work)

structure Moment where
  held : Held
  run : Run

/-- Who makes a step. -/
inductive Mover where
  | loop
  | unit
  | world
  deriving DecidableEq

inductive Step : Mover → Moment → Moment → Prop
  | start {unit : Unit → Work} {r : Run} : r.context.interruption = none →
      Step .loop ⟨.promise (.delayed unit), r⟩ ⟨.unit (unit ()), r⟩
  | finish {p : Promise} {r : Run} : Step .unit ⟨.unit (.done p), r⟩ ⟨.promise p, r⟩
  | write {record : Record} {w : Work} {r : Run} :
      Step .unit ⟨.unit (.write record w), r⟩ ⟨.unit w, r.write record⟩
  | cancel {w : Work} {r : Run} : Step .unit ⟨.unit (.cancel w), r⟩ ⟨.unit w, r.cancel⟩
  | consult {k : Option Interruption → Work} {r : Run} :
      Step .unit ⟨.unit (.consult k), r⟩ ⟨.unit (k r.context.interruption), r⟩
  | cancelled {h : Held} {r : Run} : Step .world ⟨h, r⟩ ⟨h, r.cancel⟩
  | expired {h : Held} {r : Run} : Step .world ⟨h, r⟩ ⟨h, r.expire⟩

namespace Moment

/-- A step of a run that is left alone. -/
def Turns (m m' : Moment) : Prop := ∃ mover, mover ≠ .world ∧ Step mover m m'

def Moves (m m' : Moment) : Prop := ∃ mover, Step mover m m'

def Reaches : Moment → Moment → Prop := Relation.ReflTransGen Turns

/-- Reached while the world may interfere at any time. -/
def ReachesAmid : Moment → Moment → Prop := Relation.ReflTransGen Moves

/-- Whatever happens from here on, no unit is started. -/
def Idle (m : Moment) : Prop := ∀ m', m.ReachesAmid m' → ∀ m'', ¬ Step .loop m' m''

/-- What the loop comes to from here, if it is left alone. -/
def force : Moment → Outcome × Run
  | ⟨.promise p, r⟩ => p.force r
  | ⟨.unit w, r⟩ => w.force r

theorem Turns.force_eq {m m' : Moment} (h : m.Turns m') : m.force = m'.force := by
  obtain ⟨mover, hne, hstep⟩ := h
  cases hstep with
  | start hr => simp only [force, Promise.force, hr]
  | finish => simp only [force, Work.force]
  | write => simp only [force, Work.force]
  | cancel => simp only [force, Work.force, Run.cancel]
  | consult => simp only [force, Work.force]
  | cancelled => exact absurd rfl hne
  | expired => exact absurd rfl hne

theorem Reaches.force_eq {m m' : Moment} (h : m.Reaches m') : m.force = m'.force := by
  induction h with
  | refl => rfl
  | tail _ hturn ih => exact ih.trans hturn.force_eq

end Moment

/-- What a promise is worth to a loop that starts no more units. -/
def Promise.stopped (i : Interruption) : Promise → Outcome
  | .delayed _ => .error (.interrupted i)
  | .answer solved => .ok solved
  | .error e => .error (.predicate e)

theorem Promise.force_of_interruption {p : Promise} {r : Run} {i : Interruption}
    (h : r.context.interruption = some i) : p.force r = (p.stopped i, r) := by
  cases p with
  | delayed unit => simp only [force, h, stopped]
  | answer solved => rw [force, stopped]
  | error e => rw [force, stopped]

/-- The loop has come to rest: it holds no unit, and starts none. -/
def Moment.Rests (m : Moment) (out : Outcome × Run) : Prop :=
  ∃ p r, m = ⟨.promise p, r⟩ ∧ (∀ m', ¬ Step .loop m m') ∧ ∃ i, out = (p.stopped i, r)

theorem Moment.Turns.exists_rest {m m' : Moment} (hturn : m.Turns m')
    (h : ∃ m'', m'.Reaches m'' ∧ m''.Rests m'.force) : ∃ m'', m.Reaches m'' ∧ m''.Rests m.force := by
  obtain ⟨m'', hm, hrest⟩ := h
  exact ⟨m'', .head hturn hm, hturn.force_eq ▸ hrest⟩

mutual

-- By recursion on what is held: a unit is part of the promise that puts it off.
theorem Promise.exists_rest (p : Promise) (r : Run) :
    ∃ m, Moment.Reaches ⟨.promise p, r⟩ m ∧ m.Rests (Moment.force ⟨.promise p, r⟩) := by
  match p with
  | .answer solved =>
    refine ⟨_, .refl, .answer solved, r, rfl, ?_, .cancelled, ?_⟩
    · intro m' h
      cases h
    · rw [Moment.force, Promise.force, Promise.stopped]
  | .error e =>
    refine ⟨_, .refl, .error e, r, rfl, ?_, .cancelled, ?_⟩
    · intro m' h
      cases h
    · rw [Moment.force, Promise.force, Promise.stopped]
  | .delayed unit =>
    cases hr : r.context.interruption with
    | some i =>
      refine ⟨_, .refl, .delayed unit, r, rfl, ?_, i, Promise.force_of_interruption hr⟩
      intro m' h
      cases h with
      | start hnone => simp [hr] at hnone
    | none =>
      exact Moment.Turns.exists_rest ⟨.loop, by decide, .start hr⟩ (Work.exists_rest (unit ()) r)

theorem Work.exists_rest (w : Work) (r : Run) :
    ∃ m, Moment.Reaches ⟨.unit w, r⟩ m ∧ m.Rests (Moment.force ⟨.unit w, r⟩) := by
  match w with
  | .done p => exact Moment.Turns.exists_rest ⟨.unit, by decide, .finish⟩ (Promise.exists_rest p r)
  | .write record w => exact Moment.Turns.exists_rest ⟨.unit, by decide, .write⟩ (Work.exists_rest w _)
  | .cancel w => exact Moment.Turns.exists_rest ⟨.unit, by decide, .cancel⟩ (Work.exists_rest w _)
  | .consult k => exact Moment.Turns.exists_rest ⟨.unit, by decide, .consult⟩ (Work.exists_rest (k _) r)

end

/-- A run that is left alone comes to rest at what forcing gives. -/
theorem Moment.exists_rest (m : Moment) : ∃ m', m.Reaches m' ∧ m'.Rests m.force := by
  obtain ⟨held, r⟩ := m
  cases held with
  | promise p => exact p.exists_rest r
  | unit w => exact w.exists_rest r

end Signet.Engine
