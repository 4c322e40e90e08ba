import Signet.Proofs.Engine.Sequence
import Signet.Proofs.Engine.Solution

/-! # Conjunctions as chains

A conjunction is the chain of its goals but for the remarks that it makes on the way: without these
(`quiet`) the two are the same work. No step looks at what has been written, so they end alike and
do the same in the same order. -/
namespace Signet.Engine

/-- Any record but a remark. -/
def Record.isKept : Record → Bool
  | .note _ => false
  | _ => true

mutual

/-- The promise without the remarks in what it puts off. -/
def Promise.quiet : Promise → Promise
  | .delayed unit => .delayed fun _ => (unit ()).quiet
  | .answer solved => .answer solved
  | .error e => .error e

/-- The work without its remarks. -/
def Work.quiet : Work → Work
  | .done p => .done p.quiet
  | .write record w => if record.isKept then .write record w.quiet else w.quiet
  | .cancel w => .cancel w.quiet
  | .consult k => .consult fun i => (k i).quiet

end

/-- The run without the remarks in its records. -/
def Run.quiet (r : Run) : Run := { r with records := r.records.filter Record.isKept }

namespace Run

theorem quiet_write (r : Run) (record : Record) :
    (r.write record).quiet = if record.isKept then r.quiet.write record else r.quiet := by
  unfold quiet write
  split
  · rename_i h
    simp [Array.filter_push_of_pos h]
  · rename_i h
    simp [Array.filter_push_of_neg h]

theorem filterMap_quiet {α : Type} {f : Record → Option α} (h : ∀ n, f (.note n) = none) (r : Run) :
    r.quiet.records.toList.filterMap f = r.records.toList.filterMap f := by
  rw [quiet, Array.toList_filter, List.filterMap_filter]
  refine List.filterMap_congr ?_
  intro record _
  cases record with
  | note n => rw [h n]; rfl
  | _ => rfl

theorem calls_quiet (r : Run) : r.quiet.calls = r.calls := filterMap_quiet (fun _ => rfl) r

theorem events_quiet (r : Run) : r.quiet.events = r.events := filterMap_quiet (fun _ => rfl) r

theorem solution?_quiet (r : Run) : r.quiet.solution? = r.solution? := by
  rw [solution?, solution?, quiet, ← Array.foldl_toList, Array.toList_filter, List.foldl_filter,
    Array.foldl_toList]
  congr 1
  funext found record
  cases record <;> rfl

theorem conclude_quiet (r : Run) (out : Outcome) : r.quiet.conclude out = r.conclude out := by
  unfold conclude
  rw [solution?_quiet]

end Run

mutual

theorem Promise.force_quiet (p : Promise) (r : Run) :
    p.quiet.force r.quiet = ((p.force r).1, (p.force r).2.quiet) := by
  match p with
  | .answer solved => rfl
  | .error e => rfl
  | .delayed unit =>
    rw [Promise.quiet, Promise.force, Promise.force]
    unfold Run.quiet
    cases r.context.interruption with
    | some i => rfl
    | none => exact Work.force_quiet (unit ()) r

theorem Work.force_quiet (w : Work) (r : Run) :
    w.quiet.force r.quiet = ((w.force r).1, (w.force r).2.quiet) := by
  match w with
  | .done p => exact Promise.force_quiet p r
  | .write record w =>
    rw [Work.quiet, Work.force, ← Work.force_quiet w, Run.quiet_write]
    split
    · rw [Work.force]
    · rfl
  | .cancel w => exact Work.force_quiet w { r with context := r.context.cancel }
  | .consult k => exact Work.force_quiet (k r.context.interruption) r

end

/-- Two goals that are the same but for remarks answer alike and do the same in the same order. -/
theorem solve_of_quiet {goal goal' : Cont → Env → Work} {E : Env}
    (h : (goal accept E).quiet = (goal' accept E).quiet) (c : Context) :
    (solve goal E c).1 = (solve goal' E c).1 ∧
      (solve goal E c).2.quiet = (solve goal' E c).2.quiet := by
  have hforce := Work.force_quiet (goal accept E) ⟨c, #[]⟩
  rw [h, Work.force_quiet] at hforce
  rcases hr : (goal accept E).force ⟨c, #[]⟩ with ⟨out, r⟩
  rcases hr' : (goal' accept E).force ⟨c, #[]⟩ with ⟨out', r'⟩
  rw [hr, hr'] at hforce
  obtain ⟨hout, hquiet⟩ : out' = out ∧ r'.quiet = r.quiet := Prod.mk.inj hforce
  rw [solve_eq_conclude hr, solve_eq_conclude hr', ← r.conclude_quiet, ← r'.conclude_quiet, hout,
    hquiet]
  exact ⟨rfl, rfl⟩

namespace Work

theorem andThen_done (w : Work) : w.andThen .done = w := by
  fun_induction andThen Work.done w with
  | case1 p => rfl
  | case2 record w ih => rw [ih]
  | case3 w ih => rw [ih]
  | case4 k ih => simp only [ih]

theorem quiet_andThen {next next' : Promise → Work} (h : ∀ p, (next p).quiet = next' p.quiet)
    (w : Work) : (w.andThen next).quiet = w.quiet.andThen next' := by
  fun_induction andThen next w with
  | case1 p => rw [h, quiet, andThen]
  | case2 record w ih =>
    rw [quiet, quiet, ih]
    split
    · rw [andThen]
    · rfl
  | case3 w ih => rw [quiet, ih, quiet, andThen]
  | case4 k ih => simp only [quiet, andThen, ih]

/-- To note the promise that the work ends in changes nothing else. -/
theorem quiet_noting (noted : Promise → Note) (w : Work) :
    (w.andThen fun p => .write (.note (noted p)) (.done p)).quiet = w.quiet := by
  have hnext : ∀ p, (Work.write (.note (noted p)) (.done p)).quiet = .done p.quiet := fun _ => rfl
  rw [quiet_andThen hnext, andThen_done]

theorem quiet_ofTraced {ε α : Type} (x : Traced ε α) (next : Except ε α → Work) :
    (ofTraced x next).quiet = ofTraced x fun result => (next result).quiet := by
  unfold ofTraced
  induction x.acts with
  | nil => rfl
  | cons a acts ih => rw [List.foldr_cons, List.foldr_cons, ← ih, quiet]; rfl

end Work

namespace Goal

/-- The goal as one that is handed a continuation. A call of no known predicate fails. -/
def start (preds : Predicates) (goal : Goal) (cont : Cont) (E : Env) : Work :=
  (goal.start? preds cont E).getD (.done (.answer false))

section
variable {cont cont' : Cont}

theorem quiet_suspend (evaluate : Env → Traced PredicateError (Option Env))
    (h : ∀ E, (cont E).quiet = (cont' E).quiet) (E : Env) :
    (suspend evaluate cont E).quiet = (suspend evaluate cont' E).quiet := by
  simp only [suspend, Work.quiet, Promise.quiet, Work.quiet_ofTraced]
  congr
  funext _
  congr
  funext result
  cases result with
  | error e => rfl
  | ok found =>
    cases found with
    | none => rfl
    | some E' => exact h E'

theorem quiet_delays {last last' : Unit → Work} (h : (last ()).quiet = (last' ()).quiet)
    (units : Nat) :
    (Promise.delays last units).quiet = (Promise.delays last' units).quiet := by
  induction units with
  | zero => exact h
  | succ units ih => simp only [Promise.delays, Work.quiet, Promise.quiet, ih]

/-- Continuations that differ in remarks make of a goal work that differs in remarks. -/
theorem quiet_start (preds : Predicates) (goal : Goal)
    (h : ∀ E, (cont E).quiet = (cont' E).quiet) (E : Env) :
    (goal.start preds cont E).quiet = (goal.start preds cont' E).quiet := by
  cases goal with
  | call name args =>
    rw [start, start, start?, start?]
    cases preds.call? name args with
    | none => rfl
    | some evaluate => exact quiet_suspend evaluate h E
  | verify family request => exact quiet_suspend (preds.verifies family request) h E
  | unify a b =>
    simp only [start, start?, Option.getD_some, Engine.unify]
    cases E.unify a b with
    | none => rfl
    | some E' => exact h E'
  | cancel => simp only [start, start?, Option.getD_some, Work.quiet, h]
  | delay units => exact quiet_delays (h E) units
  | answer solved => rfl
  | throw e => rfl
  | thenFail =>
    simp only [start, start?, Option.getD_some]
    let fails : Promise → Work := fun _ => .done (.answer false)
    have hfails : ∀ p, (fails p).quiet = fails p.quiet := fun _ => rfl
    rw [Work.quiet_andThen hfails, Work.quiet_andThen hfails, h]

end

theorem quiet_conjunction (preds : Predicates) (goals : List Goal) (i : Nat) (cont : Cont)
    (E : Env) :
    (conjunction preds i goals cont E).quiet = (chain (goals.map (start preds)) cont E).quiet := by
  induction goals generalizing i E with
  | nil => rfl
  | cons goal goals ih =>
    let next : Cont := fun E' =>
      .write (.note (.solution i E'.size)) (conjunction preds (i + 1) goals cont E')
    have hnext : ∀ E', (next E').quiet = (chain (goals.map (start preds)) cont E').quiet :=
      ih (i + 1)
    rw [List.map_cons, chain, ← quiet_start preds goal hnext, start, conjunction]
    cases goal.start? preds next E with
    | none => rfl
    | some work => exact work.quiet_noting fun p => .promise i p.text

/-- A conjunction is the chain of its goals. -/
theorem solveAll_eq_chain (preds : Predicates) (goals : List Goal) (E : Env) (c : Context) :
    (solveAll preds goals E c).1 = (solve (chain (goals.map (start preds))) E c).1 ∧
      (solveAll preds goals E c).2.quiet =
        (solve (chain (goals.map (start preds))) E c).2.quiet :=
  solve_of_quiet (quiet_conjunction preds goals 0 accept E) c

end Goal

namespace Query

/-- The goals of a conjunction that ask the question. -/
def goals : Query → List Goal
  | .call name args _ => [.call name args]
  | .verify family request => [.verify family request]
  | .unify a b => [.unify a b]
  | .delayed query => .delay 1 :: query.goals

theorem chain_goals (preds : Predicates) (query : Query) (cont : Cont) :
    chain (query.goals.map (Goal.start preds)) cont = query.start preds cont := by
  induction query with
  | call name args listed =>
    funext E
    show ((Goal.call name args).start? preds cont E).getD _ = _
    rw [start?_call preds listed, Option.getD_some]
  | verify family request => rfl
  | unify a b => rfl
  | delayed query ih =>
    funext E
    show Work.done (.delayed fun _ => chain (query.goals.map (Goal.start preds)) cont E) = _
    rw [ih]
    rfl

theorem chain_flatMap_goals (preds : Predicates) (queries : List Query) (cont : Cont) :
    chain ((queries.flatMap goals).map (Goal.start preds)) cont =
      chain (queries.map (start preds)) cont := by
  induction queries with
  | nil => rfl
  | cons query queries ih =>
    rw [List.flatMap_cons, List.map_append, chain_append, ih, chain_goals, List.map_cons, chain]

/-- Asked in a conjunction, the questions are answered as they are in a chain. -/
theorem solveAll_flatMap_goals (preds : Predicates) (queries : List Query) (E : Env) (c : Context) :
    let run := Goal.solveAll preds (queries.flatMap goals) E c
    let chained := solve (chain (queries.map (start preds))) E c
    run.1 = chained.1 ∧ run.2.calls = chained.2.calls ∧ run.2.events = chained.2.events := by
  intro run chained
  obtain ⟨hanswer, hquiet⟩ := Goal.solveAll_eq_chain preds (queries.flatMap goals) E c
  have hchain : solve (chain ((queries.flatMap goals).map (Goal.start preds))) E c = chained :=
    solve_congr (by rw [chain_flatMap_goals])
  rw [hchain] at hanswer hquiet
  refine ⟨hanswer, ?_, ?_⟩
  · rw [← run.2.calls_quiet, hquiet, Run.calls_quiet]
  · rw [← run.2.events_quiet, hquiet, Run.events_quiet]

/-- Under a live context a conjunction of questions ends in what they are directly evaluated to, one
after the other, and asks the provider the same. -/
theorem solveAll_of_interruption (preds : Predicates) (queries : List Query) (E : Env) {c : Context}
    (hc : c.interruption = none) :
    let run := Goal.solveAll preds (queries.flatMap goals) E c
    run.1 = (evaluateAll preds queries E).result.mapError .predicate ∧
      run.2.calls = (evaluateAll preds queries E).calls := by
  intro run
  obtain ⟨hanswer, hcalls, -⟩ := solveAll_flatMap_goals preds queries E c
  obtain ⟨hresult, hdirect⟩ := solve_of_agrees (agrees_chain preds queries) E hc
  exact ⟨hanswer.trans hresult, hcalls.trans hdirect⟩

end Query

end Signet.Engine
