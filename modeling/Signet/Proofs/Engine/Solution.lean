import Signet.Proofs.Engine.Moments

/-! # The solution of a run

The continuation of a run records the bindings that it is called with, and no record is taken back:
not by a failure, not by an error, not by an interruption. So what is recorded last is what the
continuation was last called with (`History.solution?_eq`), and only the outcome decides whether it
is the answer. A goal is any function of its continuation. A call of it is a moment at which the
running unit goes on with what the continuation does, and what the unit makes of the promise that it
is given is left open: to give it back, to force it and to forget it are all the same here. -/
namespace Signet.Engine

namespace Run

theorem solution?_write_solution (r : Run) (E : Env) : (r.write (.solution E)).solution? = some E := by
  simp [solution?, write]

theorem solution?_write_of_ne {r : Run} {record : Record} (h : ∀ E, record ≠ .solution E) :
    (r.write record).solution? = r.solution? := by
  cases record with
  | solution E => exact absurd rfl (h E)
  | _ => simp [solution?, write]

/-- What a run answers once its outcome is known. -/
def conclude (r : Run) : Outcome → Except Failure (Option Env)
  | .ok true => .ok r.solution?
  | .ok false => .ok none
  | .error f => .error f

end Run

theorem solve_eq_conclude {goal : Cont → Env → Work} {E : Env} {c : Context} {out : Outcome}
    {r : Run} (h : (goal accept E).force ⟨c, #[]⟩ = (out, r)) : solve goal E c = (r.conclude out, r) := by
  unfold solve
  rw [h]
  cases out with
  | error f => rfl
  | ok solved => cases solved <;> rfl

namespace Moment
variable {m m' : Moment} {mover : Mover} {E : Env}

/-- The running unit goes on with what the continuation of the run does with `E`. -/
def Calls (m : Moment) (E : Env) : Prop :=
  ∃ next, m.held = .unit ((accept E).andThen next)

/-- To force the promise of the continuation in the same unit is to call it. -/
theorem calls_forceThen (next : Outcome → Work) (E : Env) (r : Run) :
    Calls ⟨.unit ((accept E).forceThen next), r⟩ E := by
  refine ⟨fun _ => next (.ok true), ?_⟩
  simp only [accept, Work.forceThen, Promise.forceThen, Work.andThen]

theorem not_calls_done (p : Promise) (r : Run) (E : Env) : ¬ Calls ⟨.unit (.done p), r⟩ E := by
  rintro ⟨next, hheld⟩
  cases hheld

/-- The loop is over. -/
inductive Ends : Moment → Outcome → Prop
  | answer {solved : Bool} {r : Run} : Ends ⟨.promise (.answer solved), r⟩ (.ok solved)
  | error {e : PredicateError} {r : Run} : Ends ⟨.promise (.error e), r⟩ (.error (.predicate e))
  | interrupted {unit : Unit → Work} {r : Run} {i : Interruption} :
      r.context.interruption = some i → Ends ⟨.promise (.delayed unit), r⟩ (.error (.interrupted i))

theorem Ends.force_eq {out : Outcome} (h : m.Ends out) : m.force = (out, m.run) := by
  cases h with
  | answer => rw [force, Promise.force]
  | error => rw [force, Promise.force]
  | interrupted hi => rw [force, Promise.force_of_interruption hi, Promise.stopped]

theorem Rests.exists_ends {result : Outcome × Run} (h : m.Rests result) : ∃ out, m.Ends out := by
  obtain ⟨p, r, rfl, hloop, -⟩ := h
  cases p with
  | answer solved => exact ⟨_, .answer⟩
  | error e => exact ⟨_, .error⟩
  | delayed unit =>
    cases hi : r.context.interruption with
    | none => exact absurd (.start hi) (hloop _)
    | some i => exact ⟨_, .interrupted hi⟩

theorem exists_ends (m : Moment) : ∃ m' out, m.Reaches m' ∧ m'.Ends out := by
  obtain ⟨m', hreach, hrest⟩ := m.exists_rest
  obtain ⟨out, hout⟩ := hrest.exists_ends
  exact ⟨m', out, hreach, hout⟩

/-- A call is recorded by the step that makes it. -/
theorem solution?_of_calls (h : m.Calls E) (hstep : Step .unit m m') :
    m'.run.solution? = some E := by
  obtain ⟨held, r⟩ := m
  obtain ⟨next, hheld⟩ := h
  cases hheld
  cases hstep with
  | write => exact r.solution?_write_solution E

/-- No other step records a solution: a unit that records one does what the continuation does. -/
theorem solution?_of_not_calls (h : mover = .unit → ∀ E, ¬ m.Calls E) (hstep : Step mover m m') :
    m'.run.solution? = m.run.solution? := by
  cases hstep with
  | @write record w r =>
    refine Run.solution?_write_of_ne ?_
    intro E hrecord
    subst hrecord
    exact h rfl E ⟨fun _ => w, rfl⟩
  | _ => rfl

end Moment

/-- A run from one moment to another, in which `movers` make the steps, and what the continuation
was called with on the way. -/
inductive History (movers : Mover → Prop) (m : Moment) : List Env → Moment → Prop
  | start : History movers m [] m
  | call {calls : List Env} {m' m'' : Moment} {E : Env} : History movers m calls m' →
      movers .unit → m'.Calls E → Step .unit m' m'' → History movers m (calls ++ [E]) m''
  | move {calls : List Env} {m' m'' : Moment} {mover : Mover} : History movers m calls m' →
      movers mover → (mover = .unit → ∀ E, ¬ m'.Calls E) → Step mover m' m'' →
      History movers m calls m''

namespace History
variable {movers : Mover → Prop} {m m' : Moment} {calls : List Env}

/-- What was recorded last is what the continuation was called with last. -/
theorem solution?_eq (h : History movers m calls m') (hm : m.run.solution? = none) :
    m'.run.solution? = calls.getLast? := by
  induction h with
  | start => exact hm
  | call _ _ hcalls hstep _ => rw [Moment.solution?_of_calls hcalls hstep, List.getLast?_concat]
  | move _ _ hcalls hstep ih => rw [Moment.solution?_of_not_calls hcalls hstep, ih]

theorem reaches (h : History (· ≠ .world) m calls m') : m.Reaches m' := by
  induction h with
  | start => exact .refl
  | call _ hmover _ hstep ih => exact ih.tail ⟨_, hmover, hstep⟩
  | move _ hmover _ hstep ih => exact ih.tail ⟨_, hmover, hstep⟩

end History

theorem Moment.Reaches.exists_history {m m' : Moment} (h : m.Reaches m') :
    ∃ calls, History (· ≠ .world) m calls m' := by
  induction h with
  | refl => exact ⟨[], .start⟩
  | @tail m₁ m₂ _ hturn ih =>
    obtain ⟨calls, hcalls⟩ := ih
    obtain ⟨mover, hmover, hstep⟩ := hturn
    by_cases hcall : mover = .unit ∧ ∃ E, m₁.Calls E
    · obtain ⟨rfl, E, hE⟩ := hcall
      exact ⟨_, hcalls.call hmover hE hstep⟩
    · exact ⟨calls, hcalls.move hmover (fun hunit E hE => hcall ⟨hunit, E, hE⟩) hstep⟩

/-- What an answer has to be, given the outcome of a run and the calls of its continuation. -/
structure Justified (out : Outcome) (calls : List Env) (answer : Except Failure (Option Env)) :
    Prop where
  solution : ∀ E, answer = .ok (some E) ↔ out = .ok true ∧ calls.getLast? = some E
  failure : answer = .ok none ↔ out = .ok false ∨ out = .ok true ∧ calls = []
  error : ∀ f, answer = .error f ↔ out = .error f

theorem justified_conclude {r : Run} {calls : List Env} (h : r.solution? = calls.getLast?)
    (out : Outcome) : Justified out calls (r.conclude out) := by
  cases out with
  | error f => constructor <;> simp [Run.conclude]
  | ok solved => cases solved <;> constructor <;> simp [Run.conclude, h]

/-- A run of any goal comes to an end. Its answer is a solution exactly when forcing ended in `true`
and the continuation was called, and then it is what the continuation was called with, the last time
if there were several. It is a failure exactly when forcing ended in `false`, or in `true` without a
call, and an error exactly when forcing ended in that error. This holds of `solve`, and also of a run
that others cancel or that outlasts its deadline midway. -/
theorem solve_justified (goal : Cont → Env → Work) (E : Env) (c : Context) :
    let start : Moment := ⟨.unit (goal accept E), ⟨c, #[]⟩⟩
    (∃ calls m out, History (· ≠ .world) start calls m ∧ m.Ends out) ∧
      (∀ calls m out, History (· ≠ .world) start calls m → m.Ends out →
        (goal accept E).force ⟨c, #[]⟩ = (out, m.run) ∧
          Justified out calls (solve goal E c).1) ∧
      ∀ calls m out, History (fun _ => True) start calls m → m.Ends out →
        Justified out calls (m.run.conclude out) := by
  intro start
  have hnone : start.run.solution? = none := rfl
  refine ⟨?_, ?_, ?_⟩
  · obtain ⟨m, out, hreach, hends⟩ := start.exists_ends
    obtain ⟨calls, hhistory⟩ := hreach.exists_history
    exact ⟨calls, m, out, hhistory, hends⟩
  · intro calls m out hhistory hends
    have hforce : (goal accept E).force ⟨c, #[]⟩ = (out, m.run) := by
      rw [← hends.force_eq]
      exact hhistory.reaches.force_eq
    rw [solve_eq_conclude hforce]
    exact ⟨hforce, justified_conclude (hhistory.solution?_eq hnone) out⟩
  · intro calls m out hhistory hends
    exact justified_conclude (hhistory.solution?_eq hnone) out

/-- A goal calls its continuation and puts off the promise that it is given. The solution is the
answer of a live run; in a cancelled run it is recorded all the same, and the answer is the
cancellation. A goal that forces the promise and then fails has no solution either. -/
theorem solve_justified_put_off :
    let goal : Cont → Env → Work :=
      fun cont E => (cont E).andThen fun p => .done (.delayed fun _ => .done p)
    let failing : Cont → Env → Work :=
      fun cont E => (cont E).forceThen fun _ => .done (.answer false)
    (solve goal .empty .live).1 = .ok (some .empty) ∧
      (solve goal .empty Context.live.cancel).1 = .error (.interrupted .cancelled) ∧
      (solve goal .empty Context.live.cancel).2.solution? = some .empty ∧
      (solve failing .empty .live).1 = .ok none := by
  intro goal failing
  have hcall : ∀ c, History (· ≠ .world) ⟨.unit (goal accept .empty), ⟨c, #[]⟩⟩ [.empty]
      ⟨.promise (.delayed fun _ => .done (.answer true)), ⟨c, #[.solution .empty]⟩⟩ := by
    intro c
    exact (History.start.call (by decide) ⟨_, rfl⟩ .write).move (by decide)
      (fun _ => Moment.not_calls_done _ _) .finish
  have hstart := (hcall .live).move (by decide) (by intro h; cases h) (.start rfl)
  have hlive := hstart.move (by decide) (fun _ => Moment.not_calls_done _ _) .finish
  have hfail : History (· ≠ .world) ⟨.unit (failing accept .empty), ⟨.live, #[]⟩⟩ [.empty]
      ⟨.promise (.answer false), ⟨.live, #[.solution .empty]⟩⟩ := by
    exact (History.start.call (by decide) (Moment.calls_forceThen _ _ _) .write).move (by decide)
      (fun _ => Moment.not_calls_done _ _) .finish
  obtain ⟨-, hsolved⟩ := (solve_justified goal .empty .live).2.1 _ _ _ hlive .answer
  obtain ⟨hforce, hstopped⟩ := (solve_justified goal .empty Context.live.cancel).2.1 _ _ _
    (hcall _) (.interrupted (i := .cancelled) rfl)
  obtain ⟨-, hfailed⟩ := (solve_justified failing .empty .live).2.1 _ _ _ hfail .answer
  refine ⟨(hsolved.solution _).mpr ⟨rfl, rfl⟩, (hstopped.error _).mpr rfl, ?_,
    hfailed.failure.mpr (.inl rfl)⟩
  rw [solve_eq_conclude hforce]
  rfl

end Signet.Engine
