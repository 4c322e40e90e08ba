import Signet.Predicates
import Signet.Proofs.Engine.Moments

/-! # Interrupted runs

Once a run is interrupted, what is left of it is the rest of the unit that is running (`complete`).
This rest is the same whatever the world does meanwhile, and the promise that it ends in tells the
outcome: no unit is started for it. -/
namespace Signet.Engine

theorem Run.cancel_of_cancelled {r : Run} (h : r.context.cancelled = true) : r.cancel = r := by
  obtain ⟨⟨cancelled, expired⟩, records⟩ := r
  cases h
  rfl

theorem Run.expire_of_expired {r : Run} (h : r.context.expired = true) : r.expire = r := by
  obtain ⟨⟨cancelled, expired⟩, records⟩ := r
  cases h
  rfl

namespace Work

/-- The unit goes on to its end, the promise that it gives, and nothing else is done. -/
def complete : Work → Run → Promise × Run
  | .done p, r => (p, r)
  | .write record w, r => w.complete (r.write record)
  | .cancel w, r => w.complete r.cancel
  | .consult k, r => (k r.context.interruption).complete r

theorem force_complete (w : Work) (r : Run) :
    w.force r = (w.complete r).1.force (w.complete r).2 := by
  fun_induction complete w r with
  | case1 p r => rw [force]
  | case2 record w r ih => rw [force, ih]
  | case3 w r ih => rw [force, ← ih]; rfl
  | case4 k r ih => rw [force, ih]

theorem cancelled_complete {r : Run} (w : Work) (h : r.context.cancelled = true) :
    (w.complete r).2.context.cancelled = true := by
  fun_induction complete w r with
  | case1 p r => exact h
  | case2 record w r ih => exact ih h
  | case3 w r ih => exact ih rfl
  | case4 k r ih => exact ih h

theorem expired_complete (w : Work) (r : Run) :
    (w.complete r).2.context.expired = r.context.expired := by
  fun_induction complete w r with
  | case1 p r => rfl
  | case2 record w r ih => exact ih
  | case3 w r ih => exact ih
  | case4 k r ih => exact ih

/-- A cancelled unit cannot tell whether the deadline has passed. -/
theorem complete_expire {r : Run} (w : Work) (h : r.context.cancelled = true) :
    w.complete r.expire = ((w.complete r).1, (w.complete r).2.expire) := by
  fun_induction complete w r with
  | case1 p r => rfl
  | case2 record w r ih => exact ih h
  | case3 w r ih => exact ih rfl
  | case4 k r ih =>
    have hsame : r.expire.context.interruption = r.context.interruption := by
      rw [Context.interruption_of_cancelled h]
      exact Context.interruption_of_cancelled h
    rw [complete, hsame]
    exact ih h

theorem complete_forceThen (next : Outcome → Work) (w : Work) (r : Run) :
    (w.forceThen next).complete r = ((w.complete r).1.forceThen next).complete (w.complete r).2 := by
  fun_induction complete w r with
  | case1 p r => rw [forceThen]
  | case2 record w r ih => rw [forceThen, complete, ih]
  | case3 w r ih => rw [forceThen, complete, ih]
  | case4 k r ih => rw [forceThen, complete, ih]

end Work

theorem Promise.complete_forceThen {r : Run} {i : Interruption} (next : Outcome → Work) (p : Promise)
    (h : r.context.interruption = some i) :
    (p.forceThen next).complete r = (next (p.stopped i)).complete r := by
  cases p with
  | delayed unit => rw [forceThen, Work.complete, h, stopped]
  | answer solved => rw [forceThen, stopped]
  | error e => rw [forceThen, stopped]

namespace Moment
variable {m m' : Moment} {mover : Mover}

/-- The running unit goes on to its end. -/
def complete : Moment → Promise × Run
  | ⟨.promise p, r⟩ => (p, r)
  | ⟨.unit w, r⟩ => w.complete r

theorem force_complete (m : Moment) : m.force = m.complete.1.force m.complete.2 := by
  obtain ⟨held, r⟩ := m
  cases held with
  | promise p => rfl
  | unit w => exact w.force_complete r

theorem force_of_interruption {i : Interruption}
    (h : m.complete.2.context.interruption = some i) :
    m.force = (m.complete.1.stopped i, m.complete.2) := by
  rw [force_complete, Promise.force_of_interruption h]

theorem cancelled_complete (h : m.run.context.cancelled = true) :
    m.complete.2.context.cancelled = true := by
  obtain ⟨held, r⟩ := m
  cases held with
  | promise p => exact h
  | unit w => exact w.cancelled_complete h

theorem expired_complete (m : Moment) :
    m.complete.2.context.expired = m.run.context.expired := by
  obtain ⟨held, r⟩ := m
  cases held with
  | promise p => rfl
  | unit w => exact w.expired_complete r

theorem interrupted_of_cancelled (h : m.run.context.cancelled = true) :
    m.run.context.interruption ≠ none := by
  rw [Context.interruption_of_cancelled h]
  exact Option.some_ne_none _

theorem interrupted_of_expired (h : m.run.context.expired = true) :
    m.run.context.interruption ≠ none := by
  intro hnone
  rw [Context.interruption_eq_none_iff, h] at hnone
  cases hnone.2

/-- An interruption is never taken back, by whomever the step is made. -/
theorem interrupted_of_step (h : Step mover m m') (hm : m.run.context.interruption ≠ none) :
    m'.run.context.interruption ≠ none := by
  cases h with
  | start hnone => exact absurd hnone hm
  | finish => exact hm
  | write => exact hm
  | cancel => exact interrupted_of_cancelled rfl
  | consult => exact hm
  | cancelled => exact interrupted_of_cancelled rfl
  | expired => exact interrupted_of_expired rfl

theorem idle_of_interrupted (h : m.run.context.interruption ≠ none) : m.Idle := by
  intro m' hreach
  have hm' : m'.run.context.interruption ≠ none := by
    induction hreach with
    | refl => exact h
    | tail _ hmove ih =>
      obtain ⟨mover, hstep⟩ := hmove
      exact interrupted_of_step hstep ih
  intro m'' hstep
  cases hstep with
  | start hnone => exact hm' hnone

/-- In a cancelled run a step changes neither what the running unit goes on to write nor the promise
that it ends in. -/
theorem complete_of_step_cancelled (h : Step mover m m') (hm : m.run.context.cancelled = true) :
    m'.run.context.cancelled = true ∧ m'.complete.1 = m.complete.1 ∧
      m'.complete.2.records = m.complete.2.records := by
  cases h with
  | start hnone => exact absurd hnone (interrupted_of_cancelled hm)
  | finish => exact ⟨hm, rfl, rfl⟩
  | write => exact ⟨hm, rfl, rfl⟩
  | cancel => exact ⟨rfl, rfl, rfl⟩
  | consult => exact ⟨hm, rfl, rfl⟩
  | cancelled =>
    rw [Run.cancel_of_cancelled hm]
    exact ⟨hm, rfl, rfl⟩
  | @expired held r =>
    -- The running unit may look at the context, but it sees the cancellation first.
    cases held with
    | promise p => exact ⟨hm, rfl, rfl⟩
    | unit w =>
      refine ⟨hm, ?_⟩
      show (w.complete r.expire).1 = _ ∧ (w.complete r.expire).2.records = _
      rw [w.complete_expire hm]
      exact ⟨rfl, rfl⟩

theorem complete_of_reachesAmid_cancelled (h : m.ReachesAmid m')
    (hm : m.run.context.cancelled = true) :
    m'.run.context.cancelled = true ∧ m'.complete.1 = m.complete.1 ∧
      m'.complete.2.records = m.complete.2.records := by
  induction h with
  | refl => exact ⟨hm, rfl, rfl⟩
  | tail _ hmove ih =>
    obtain ⟨mover, hstep⟩ := hmove
    obtain ⟨hc, hpromise, hrecords⟩ := ih
    obtain ⟨hc', hpromise', hrecords'⟩ := complete_of_step_cancelled hstep hc
    exact ⟨hc', hpromise'.trans hpromise, hrecords'.trans hrecords⟩

theorem expired_of_step (h : Step mover m m') (hm : m.run.context.expired = true) :
    m'.run.context.expired = true := by
  cases h with
  | expired => rfl
  | _ => exact hm

/-- Past the deadline, only cancelling the run makes a difference to the running unit. -/
theorem complete_of_step_expired (h : Step mover m m') (hm : m.run.context.expired = true)
    (hlast : m'.complete.2.context.cancelled = false) : m'.complete = m.complete := by
  cases h with
  | start hnone => exact absurd hnone (interrupted_of_expired hm)
  | finish => rfl
  | write => rfl
  | cancel => rfl
  | consult => rfl
  | cancelled =>
    rw [cancelled_complete rfl] at hlast
    cases hlast
  | expired => rw [Run.expire_of_expired hm]

theorem complete_of_reachesAmid_expired (h : m.ReachesAmid m')
    (hm : m.run.context.expired = true) (hlast : m'.complete.2.context.cancelled = false) :
    m'.complete = m.complete := by
  -- Only of the last moment is it known that nobody has cancelled the run.
  induction h using Relation.ReflTransGen.head_induction_on with
  | refl => rfl
  | head hmove _ ih =>
    obtain ⟨mover, hstep⟩ := hmove
    have hrest := ih (expired_of_step hstep hm)
    rw [hrest] at hlast
    exact hrest.trans (complete_of_step_expired hstep hm hlast)

/-- Forcing in the middle of a unit starts no unit either. -/
theorem complete_nested (next : Outcome → Work) (w : Work) (h : m.run.context.cancelled = true)
    (hheld : m.held = .unit (w.forceThen next)) :
    m.complete = (next ((w.complete m.run).1.stopped .cancelled)).complete (w.complete m.run).2 := by
  obtain ⟨held, r⟩ := m
  cases hheld
  show (w.forceThen next).complete r = _
  rw [Work.complete_forceThen]
  exact Promise.complete_forceThen next _
    (Context.interruption_of_cancelled (w.cancelled_complete h))

/-- From the moment at which a run is cancelled, no unit is started, whatever the world does from
there on. What is still written is what the running unit goes on to write, and the promise that it
ends in decides: a delayed one makes the outcome "cancelled", also past the deadline, and otherwise
the outcome is the one that has been reached. This holds of a whole run of a goal, and of forcing in
the middle of a unit. Past the deadline alone, no unit is started either, and the outcome differs
in the name of the interruption only. -/
theorem interrupted_starts_nothing (m : Moment) :
    (∃ m', m.Reaches m' ∧ m'.Rests m.force) ∧
      (m.run.context.cancelled = true →
        m.Idle ∧
        (∀ m', m.ReachesAmid m' → m'.force.1 = m.complete.1.stopped .cancelled ∧
          m'.force.2.records = m.complete.2.records) ∧
        (∀ before : Moment, before.Reaches m →
          before.force = (m.complete.1.stopped .cancelled, m.complete.2)) ∧
        (∀ goal E c, Moment.Reaches ⟨.unit (goal accept E), ⟨c, #[]⟩⟩ m →
          solve goal E c =
            ((m.complete.1.stopped .cancelled).map fun solved =>
              if solved then m.complete.2.solution? else none, m.complete.2)) ∧
        (∀ (next : Outcome → Work) (w : Work), m.held = .unit (w.forceThen next) →
          m.complete =
            (next ((w.complete m.run).1.stopped .cancelled)).complete (w.complete m.run).2)) ∧
      (m.run.context.expired = true →
        m.Idle ∧
        ∀ m', m.ReachesAmid m' → m'.complete.2.context.cancelled = false →
          m'.force = (m.complete.1.stopped .deadline, m.complete.2)) := by
  refine ⟨m.exists_rest, fun hm => ?_, fun hm => ?_⟩
  · have hforce : ∀ before : Moment, before.Reaches m →
        before.force = (m.complete.1.stopped .cancelled, m.complete.2) := by
      intro before hreach
      rw [hreach.force_eq]
      exact force_of_interruption (Context.interruption_of_cancelled (cancelled_complete hm))
    refine ⟨idle_of_interrupted (interrupted_of_cancelled hm), ?_, hforce, ?_, ?_⟩
    · intro m' hreach
      obtain ⟨hm', hpromise, hrecords⟩ := complete_of_reachesAmid_cancelled hreach hm
      rw [force_of_interruption (Context.interruption_of_cancelled (cancelled_complete hm')), hpromise]
      exact ⟨rfl, hrecords⟩
    · intro goal E c hreach
      have hgoal : (goal accept E).force ⟨c, #[]⟩ = _ := hforce _ hreach
      unfold solve
      rw [hgoal]
      cases m.complete.1 with
      | delayed unit => rfl
      | answer solved => cases solved <;> rfl
      | error e => rfl
    · exact fun next w => complete_nested next w hm
  · refine ⟨idle_of_interrupted (interrupted_of_expired hm), ?_⟩
    intro m' hreach hlast
    have hcomplete := complete_of_reachesAmid_expired hreach hm hlast
    rw [hcomplete] at hlast
    have hexpired : m.complete.2.context.expired = true := by rw [expired_complete, hm]
    rw [force_of_interruption (i := .deadline) ?_, hcomplete]
    rw [hcomplete]
    exact Context.interruption_of_expired hlast hexpired

/-- A unit cancels the run and starts a goal. The hash that the goal puts off is not computed, but a
goal that the unit itself can solve is solved. Past the deadline the unit is not started. -/
theorem interrupted_starts_nothing_within_unit :
    let preds : Predicates := ⟨.constant (.ok true), ⟨8⟩⟩
    let cancelling (goal : Cont → Env → Work) : Cont → Env → Work :=
      fun cont E => .done (.delayed fun _ => .cancel (goal cont E))
    let hash : Cont → Env → Work := suspend (preds.shaHash (.atom "a") (.var 0))
    (Context.live.cancel).cancelled = true ∧ (Context.withTimeout 0).expired = true ∧
      solve (cancelling hash) .empty .live =
        (.error (.interrupted .cancelled), ⟨Context.live.cancel, #[]⟩) ∧
      solve (cancelling fun cont => cont) .empty .live =
        (.ok (some .empty), ⟨Context.live.cancel, #[.solution .empty]⟩) ∧
      (cancelling hash accept .empty).force ⟨.withTimeout 0, #[]⟩ =
        (.error (.interrupted .deadline), ⟨.withTimeout 0, #[]⟩) := by
  intro preds cancelling hash
  have hreach : ∀ goal : Cont → Env → Work, Reaches
      ⟨.unit (cancelling goal accept .empty), ⟨.live, #[]⟩⟩
      ⟨.unit (goal accept .empty), ⟨Context.live.cancel, #[]⟩⟩ := by
    intro goal
    refine .head ⟨.unit, by decide, .finish⟩ (.head ⟨.loop, by decide, .start rfl⟩ ?_)
    exact .single ⟨.unit, by decide, .cancel⟩
  refine ⟨rfl, rfl, ?_, ?_, ?_⟩
  · obtain ⟨-, -, -, hsolve, -⟩ := (interrupted_starts_nothing
      ⟨.unit (hash accept .empty), ⟨Context.live.cancel, #[]⟩⟩).2.1 rfl
    exact hsolve _ _ _ (hreach hash)
  · obtain ⟨-, -, -, hsolve, -⟩ := (interrupted_starts_nothing
      ⟨.unit (accept .empty), ⟨Context.live.cancel, #[]⟩⟩).2.1 rfl
    exact hsolve _ _ _ (hreach fun cont => cont)
  · obtain ⟨-, hforce⟩ := (interrupted_starts_nothing
      ⟨.unit (cancelling hash accept .empty), ⟨.withTimeout 0, #[]⟩⟩).2.2 rfl
    exact hforce _ .refl rfl

end Moment

end Signet.Engine
