import Mathlib.Data.List.Basic
import Signet.Engine.Goal
import Signet.Proofs.Engine.Force
import Signet.Proofs.Env.Loops
import Signet.Proofs.Options.Names

/-! # Goals in sequence

A goal is handed the rest of the run as a continuation, which it starts from inside its own unit of
work, and the solution is recorded by the last continuation of all. Yet a chain of goals comes to
the same as evaluating one goal after the other and stopping at the first that has no solution.
What a goal is worth is said once, of any continuation (`Agrees`); units of work that only put a
goal off, and the chaining of goals, keep it. -/
namespace Signet

/-- A call that the table of predicates lists, with the right number of arguments. -/
def Predicates.Lists (name : String) (args : List Term) : Prop :=
  ∃ info ∈ Predicates.table, info.name = name ∧ info.arity = args.length

theorem Predicates.isSome_call? (preds : Predicates) {name : String} {args : List Term}
    (h : Lists name args) : (preds.call? name args).isSome := by
  obtain ⟨info, hinfo, rfl, harity⟩ := h
  simp only [table, List.mem_cons, List.not_mem_nil, or_false] at hinfo
  rcases hinfo with rfl | rfl | rfl | rfl
  · obtain ⟨data, hash, rfl⟩ := List.length_eq_two.mp harity.symm
    rfl
  · obtain ⟨hex, bytes, rfl⟩ := List.length_eq_two.mp harity.symm
    rfl
  · obtain ⟨key, data, signature, options, rfl⟩ := List.length_eq_four.mp harity.symm
    rfl
  · obtain ⟨key, data, signature, options, rfl⟩ := List.length_eq_four.mp harity.symm
    rfl

namespace Engine

/-- One goal after the other: the continuation of each starts the next one in the bindings that it
is given. -/
def chain : List (Cont → Env → Work) → Cont → Env → Work
  | [], cont => cont
  | goal :: goals, cont => goal (chain goals cont)

theorem chain_append (goals goals' : List (Cont → Env → Work)) (cont : Cont) :
    chain (goals ++ goals') cont = chain goals (chain goals' cont) := by
  induction goals with
  | nil => rfl
  | cons goal goals ih => rw [List.cons_append, chain, chain, ih]

/-- A question with at most one solution. -/
inductive Query where
  | call (name : String) (args : List Term) (listed : Predicates.Lists name args)
  | verify (family : Family) (request : Request)
  | unify (a b : Term)
  /-- One more unit of work, which does nothing but start the question. -/
  | delayed (query : Query)

namespace Query

/-- The question without the units that put it off. -/
def core : Query → Query
  | .delayed query => query.core
  | query => query

/-- The direct evaluation of a question, to the bindings of its solution. -/
def evaluate (preds : Predicates) : Query → Env → Traced PredicateError (Option Env)
  | .call name args listed => (preds.call? name args).get (preds.isSome_call? listed)
  | .verify family request => preds.verifies family request
  | .unify a b => fun E => return E.unify a b
  | .delayed query => query.evaluate preds

/-- The question as a goal. An equation is solved at once, all else in a unit of work. -/
def start (preds : Predicates) : Query → Cont → Env → Work
  | .call name args listed => suspend ((preds.call? name args).get (preds.isSome_call? listed))
  | .verify family request => suspend (preds.verifies family request)
  | .unify a b => Engine.unify a b
  | .delayed query => fun cont E => .done (.delayed fun _ => query.start preds cont E)

/-- Evaluates one question after the other, each in the bindings of the one before, up to the first
that fails or raises an error. -/
def evaluateAll (preds : Predicates) : List Query → Env → Traced PredicateError (Option Env)
  | [], E => return some E
  | query :: queries, E => do
    match ← query.evaluate preds E with
    | some E' => evaluateAll preds queries E'
    | none => return none

theorem evaluate_core (preds : Predicates) (query : Query) :
    query.core.evaluate preds = query.evaluate preds := by
  induction query with
  | delayed query ih => exact ih
  | _ => rfl

theorem evaluateAll_of_map_core (preds : Predicates) {queries queries' : List Query}
    (h : queries.map core = queries'.map core) :
    evaluateAll preds queries = evaluateAll preds queries' := by
  induction queries generalizing queries' with
  | nil =>
    rw [List.map_nil, eq_comm, List.map_eq_nil_iff] at h
    rw [h]
  | cons query queries ih =>
    cases queries' with
    | nil => cases h
    | cons query' queries' =>
      simp only [List.map_cons, List.cons.injEq] at h
      funext E
      rw [evaluateAll, evaluateAll, ← evaluate_core, h.1, evaluate_core, ih h.2]

end Query

/-- What comes of going on with the result of an evaluation. -/
def resume (cont : Cont) (x : Traced PredicateError (Option Env)) (r : Run) : Outcome × Run :=
  match x.result with
  | .ok (some E) => (cont E).force (r.after x.acts)
  | .ok none => (.ok false, r.after x.acts)
  | .error e => (.error (.predicate e), r.after x.acts)

/-- Under a live context the goal does what its evaluation does, and goes on with the result. -/
def Agrees (goal : Cont → Env → Work) (evaluate : Env → Traced PredicateError (Option Env)) :
    Prop :=
  ∀ cont E r, r.context.interruption = none → (goal cont E).force r = resume cont (evaluate E) r

/-- Without a solution the continuation does not matter. -/
theorem resume_of_stop {x : Traced PredicateError (Option Env)} (h : ∀ E, x.result ≠ .ok (some E))
    (cont cont' : Cont) (r : Run) : resume cont x r = resume cont' x r := by
  unfold resume
  split
  · rename_i E hE
    exact absurd hE (h E)
  · rfl
  · rfl

theorem agrees_suspend (evaluate : Env → Traced PredicateError (Option Env)) :
    Agrees (suspend evaluate) evaluate := by
  intro cont E r hr
  rw [force_suspend, hr]
  rfl

theorem Query.agrees_start (preds : Predicates) (query : Query) :
    Agrees (query.start preds) (query.evaluate preds) := by
  induction query with
  | call name args listed => exact agrees_suspend _
  | verify family request => exact agrees_suspend _
  | unify a b =>
    intro cont E r _
    show (Engine.unify a b cont E).force r = resume cont (pure (E.unify a b)) r
    unfold Engine.unify
    cases E.unify a b with
    | none => rw [Work.force, Promise.force]; rfl
    | some E' => rfl
  | delayed query ih =>
    intro cont E r hr
    rw [start, Work.force, Promise.force, hr]
    exact ih cont E r hr

/-- Going on with a chain is going on with the evaluation of its questions. -/
theorem resume_chain {goal : Cont → Env → Work} {preds : Predicates} {queries : List Query}
    (h : Agrees goal (Query.evaluateAll preds queries)) (query : Query) (cont : Cont) (E : Env)
    {r : Run} (hr : r.context.interruption = none) :
    resume (goal cont) (query.evaluate preds E) r =
      resume cont (Query.evaluateAll preds (query :: queries) E) r := by
  rw [Query.evaluateAll]
  cases hx : (query.evaluate preds E).result with
  | error e => rw [Traced.bind_error hx, resume, hx]; rfl
  | ok found =>
    rw [Traced.bind_ok hx, resume, hx]
    cases found with
    | none =>
      show _ = (Except.ok false, r.after ((query.evaluate preds E).acts ++ []))
      rw [List.append_nil]
    | some E' =>
      have hafter : (r.after (query.evaluate preds E).acts).context.interruption = none := by
        rw [Run.context_after, hr]
      show (goal cont E').force _ = _
      rw [h cont E' _ hafter]
      unfold resume
      rw [Run.after_append]

theorem Query.agrees_chain (preds : Predicates) (queries : List Query) :
    Agrees (chain (queries.map (start preds))) (evaluateAll preds queries) := by
  induction queries with
  | nil => exact fun cont E r _ => rfl
  | cons query queries ih =>
    intro cont E r hr
    rw [List.map_cons, chain, query.agrees_start preds _ E r hr]
    exact resume_chain ih query cont E hr

/-- The evaluation tells the bindings that the run ends in and what it asks of the provider. -/
theorem solve_of_agrees {goal : Cont → Env → Work}
    {evaluate : Env → Traced PredicateError (Option Env)} (h : Agrees goal evaluate) (E : Env)
    {c : Context} (hc : c.interruption = none) :
    (solve goal E c).1 = (evaluate E).result.mapError .predicate ∧
      (solve goal E c).2.calls = (evaluate E).calls := by
  have hcalls : ((⟨c, #[]⟩ : Run).after (evaluate E).acts).calls = (evaluate E).calls := by
    rw [Run.calls_after]
    rfl
  unfold solve
  rw [h accept E ⟨c, #[]⟩ hc, resume]
  cases (evaluate E).result with
  | error e => exact ⟨rfl, hcalls⟩
  | ok found =>
    cases found with
    | none => exact ⟨rfl, hcalls⟩
    | some E' =>
      simp only [accept, Work.force, Promise.force]
      refine ⟨?_, ?_⟩
      · simp [Run.solution?, Run.write, Except.mapError]
      · rw [← hcalls]
        simp [Run.calls, Run.write]

theorem solve_congr {goal goal' : Cont → Env → Work} {E : Env} {c : Context}
    (h : (goal accept E).force ⟨c, #[]⟩ = (goal' accept E).force ⟨c, #[]⟩) :
    solve goal E c = solve goal' E c := by
  unfold solve
  rw [h]

namespace Query
variable {preds : Predicates} {before : List Query} {query : Query} {E E₁ : Env}

theorem evaluateAll_cons_of_stop (after : List Query)
    (h : ∀ E₂, (query.evaluate preds E).result ≠ .ok (some E₂)) :
    evaluateAll preds (query :: after) E = query.evaluate preds E := by
  rw [evaluateAll]
  generalize query.evaluate preds E = x at h ⊢
  obtain ⟨acts, result⟩ := x
  cases result with
  | error e => rw [Traced.bind_error rfl]
  | ok found =>
    cases found with
    | none =>
      show (⟨acts ++ [], .ok none⟩ : Traced PredicateError (Option Env)) = _
      rw [List.append_nil]
    | some E₂ => exact absurd rfl (h E₂)

theorem evaluateAll_append (after : List Query)
    (h : (evaluateAll preds before E).result = .ok (some E₁)) :
    (evaluateAll preds (before ++ after) E).result = (evaluateAll preds after E₁).result ∧
      (evaluateAll preds (before ++ after) E).calls =
        (evaluateAll preds before E).calls ++ (evaluateAll preds after E₁).calls := by
  induction before generalizing E with
  | nil =>
    cases h
    exact ⟨rfl, rfl⟩
  | cons query before ih =>
    rw [List.cons_append, evaluateAll, evaluateAll]
    rw [evaluateAll] at h
    cases hx : (query.evaluate preds E).result with
    | error e => rw [Traced.result_bind_error hx] at h; cases h
    | ok found =>
      rw [Traced.result_bind_ok hx] at h
      rw [Traced.result_bind_ok hx, Traced.calls_bind_ok hx, Traced.calls_bind_ok hx]
      cases found with
      | none => cases h
      | some E' =>
        obtain ⟨hresult, hcalls⟩ := ih h
        refine ⟨hresult, ?_⟩
        show _ ++ (evaluateAll preds (before ++ after) E').calls = _
        rw [hcalls, List.append_assoc]

/-- What stands behind a goal without a solution is not started: nothing of the run shows it. -/
theorem solve_of_stop {c : Context} (hc : c.interruption = none)
    (hbefore : (evaluateAll preds before E).result = .ok (some E₁))
    (hstop : ∀ E₂, (query.evaluate preds E₁).result ≠ .ok (some E₂))
    (others others' : List (Cont → Env → Work)) :
    solve (chain (before.map (start preds) ++ query.start preds :: others)) E c =
      solve (chain (before.map (start preds) ++ query.start preds :: others')) E c := by
  have hforce : ∀ others : List (Cont → Env → Work),
      (chain (before.map (start preds) ++ query.start preds :: others) accept E).force ⟨c, #[]⟩ =
        resume (chain others accept) (query.evaluate preds E₁)
          ((⟨c, #[]⟩ : Run).after (evaluateAll preds before E).acts) := by
    intro others
    rw [chain_append, agrees_chain preds before _ E _ hc, resume, hbefore]
    exact query.agrees_start preds _ E₁ _ (by rw [Run.context_after, hc])
  refine solve_congr ?_
  rw [hforce, hforce, resume_of_stop hstop]

theorem start?_call (preds : Predicates) {name : String} {args : List Term}
    (listed : Predicates.Lists name args) (cont : Cont) (E : Env) :
    (Goal.call name args).start? preds cont E =
      some ((call name args listed).start preds cont E) := by
  obtain ⟨evaluate, h⟩ := Option.isSome_iff_exists.mp (preds.isSome_call? listed)
  simp only [Goal.start?, start, h, Option.map_some, Option.get_some]

/-- Under a live context a chain of goals ends in what the evaluation of one goal after the other
ends in, and asks the provider the same in the same order. The first goal without a solution decides:
its error, or its failure, is the answer, the provider is asked nothing after it, and whatever goals
stand behind it, the run is the same. Units that put goals off change nothing at all. -/
theorem solve_sequential (preds : Predicates) (queries : List Query) (E : Env) {c : Context}
    (hcancelled : c.cancelled = false) (hexpired : c.expired = false) :
    let run (queries : List Query) : Except Failure (Option Env) × Run :=
      solve (chain (queries.map (start preds))) E c
    let direct : Traced PredicateError (Option Env) := evaluateAll preds queries E
    (∀ name args listed cont E', (Goal.call name args).start? preds cont E' =
      some ((call name args listed).start preds cont E')) ∧
      (run queries).1 = direct.result.mapError .predicate ∧
      (run queries).2.calls = direct.calls ∧
      (∀ before query after E₁, queries = before ++ query :: after →
        (evaluateAll preds before E).result = .ok (some E₁) →
        (∀ E₂, (query.evaluate preds E₁).result ≠ .ok (some E₂)) →
          (run queries).1 = (query.evaluate preds E₁).result.mapError .predicate ∧
          (run queries).2.calls =
            (evaluateAll preds before E).calls ++ (query.evaluate preds E₁).calls ∧
          ∀ others : List (Cont → Env → Work),
            solve (chain (before.map (start preds) ++ query.start preds :: others)) E c =
              run queries) ∧
      ∀ queries', queries'.map core = queries.map core → run queries' = run queries := by
  intro run direct
  have hc : c.interruption = none := Context.interruption_eq_none_iff.mpr ⟨hcancelled, hexpired⟩
  have hsolve : ∀ queries, (run queries).1 =
        (evaluateAll preds queries E).result.mapError .predicate ∧
      (run queries).2.calls = (evaluateAll preds queries E).calls := fun queries =>
    solve_of_agrees (agrees_chain preds queries) E hc
  refine ⟨fun name args listed => start?_call preds listed, (hsolve queries).1,
    (hsolve queries).2, ?_, ?_⟩
  · intro before query after E₁ hqueries hbefore hstop
    subst hqueries
    obtain ⟨hresult, hcalls⟩ := evaluateAll_append (query :: after) hbefore
    rw [evaluateAll_cons_of_stop after hstop] at hresult hcalls
    refine ⟨by rw [(hsolve _).1, hresult], by rw [(hsolve _).2, hcalls], ?_⟩
    intro others
    show _ = solve (chain ((before ++ query :: after).map (start preds))) E c
    rw [List.map_append, List.map_cons]
    exact solve_of_stop hc hbefore hstop others (after.map (start preds))
  · intro queries' hcore
    refine solve_congr ?_
    rw [agrees_chain preds queries' accept E _ hc, agrees_chain preds queries accept E _ hc,
      evaluateAll_of_map_core preds hcore]

/-- The hash of what the equation has bound is no atom: the verification behind it is not asked,
and the two units before the equation make no difference. -/
theorem solve_sequential_stops :
    let preds : Predicates := ⟨.constant (.ok true), ⟨8⟩⟩
    let equation : Query := .unify (.var 0) (.atom "a")
    let hash : Query := .call "sha_hash" [.var 0, .atom "x"] ⟨_, List.mem_cons_self, rfl, rfl⟩
    let last : Query := .verify .eddsa ⟨.nil, .atom "", .nil, .nil⟩
    let run (queries : List Query) : Except Failure (Option Env) × Run :=
      solve (chain (queries.map (start preds))) .empty .live
    Context.live.cancelled = false ∧ Context.live.expired = false ∧
      (run [equation, hash, last]).1 = .ok none ∧
      (run [equation, hash, last]).2.calls = [.hash [97]] ∧
      run [.delayed (.delayed equation), hash, last] = run [equation, hash, last] := by
  intro preds equation hash last run
  obtain ⟨E₁, hE₁, hl⟩ := Env.exists_of_unify? (E := .empty) (a := .var 0) (b := .atom "a")
    (l := [(0, .atom "a")]) (by cbv)
  have hfirst : evaluateAll preds [equation] .empty = ⟨[], .ok (some E₁)⟩ := by
    show (pure (Env.empty.unify (.var 0) (.atom "a")) >>= _ : Traced _ _) = _
    rw [hE₁]
    rfl
  have hname : E₁.atomName (.var 0) = .ok "a" := by
    have hlookup : E₁.lookup 0 = some (.atom "a") := by
      rw [Env.lookup, hl]
      rfl
    rw [Env.atomName_ok_iff, Env.resolve_of_lookup hlookup, Env.resolve_atom]
  have hno : E₁.unify (.atom "x") (.ofBytes (preds.provider.hash (utf8 "a")).toList) = none :=
    Env.unify_eq_none_of_unify? (by rw [hl]; cbv)
  have hhash : (hash.evaluate preds E₁).result = .ok none ∧
      (hash.evaluate preds E₁).calls = [.hash [97]] := by
    show (preds.shaHash (.var 0) (.atom "x") E₁).result = _ ∧
      (preds.shaHash (.var 0) (.atom "x") E₁).calls = _
    unfold Predicates.shaHash
    rw [hname]
    refine ⟨congrArg Except.ok hno, ?_⟩
    cbv
  have hstop : ∀ E₂, (hash.evaluate preds E₁).result ≠ .ok (some E₂) := by
    simp [hhash.1]
  obtain ⟨-, -, -, hdecides, hdelays⟩ :=
    solve_sequential preds [equation, hash, last] .empty (c := .live) rfl rfl
  obtain ⟨hresult, hcalls, -⟩ :=
    hdecides [equation] hash [last] E₁ rfl (by rw [hfirst]) hstop
  rw [hhash.1] at hresult
  rw [hhash.2, hfirst] at hcalls
  exact ⟨rfl, rfl, hresult, hcalls, hdelays _ rfl⟩

end Query

end Engine

end Signet
