import Signet.Proofs.Env.Renaming
import Signet.Proofs.Predicates.HexBytes
import Signet.Proofs.Verify.Readings

/-! # Results under other names

With the variables of an environment and of all arguments renamed, each operation gives what it gave
before, renamed. Readers never compare variables, so they follow from reading the renamed terms
alike. The predicate `hex_bytes` also binds variables: its conditions carry over, and what is left
is a unification. -/
namespace Signet

variable {ρ : Nat → Nat}

namespace Term

theorem rename_of_ground {t : Term} (h : t.vars = []) (ρ : Nat → Nat) : t.rename ρ = t :=
  bind_of_ground h _

theorem rename_ofBytes (ρ : Nat → Nat) (bytes : Bytes) : (ofBytes bytes).rename ρ = ofBytes bytes :=
  rename_of_ground (vars_ofBytes bytes) ρ

theorem isVar_rename (ρ : Nat → Nat) (t : Term) : (t.rename ρ).isVar = t.isVar := by
  cases t <;> rfl

theorem isListLike_rename (ρ : Nat → Nat) (t : Term) : (t.rename ρ).isListLike = t.isListLike :=
  StaysVar.isListLike fun v _ => ⟨ρ v, rfl⟩

end Term

variable (hρ : Function.Injective ρ)

namespace Env
variable (E : Env) {t : Term}

theorem resolve_rename_var {v : Nat} (h : E.resolve t = .var v) :
    (E.rename hρ).resolve (t.rename ρ) = .var (ρ v) := by
  rw [resolve_rename, h, Term.rename_var]

theorem resolve_rename_atom {a : String} (h : E.resolve t = .atom a) :
    (E.rename hρ).resolve (t.rename ρ) = .atom a := by
  rw [resolve_rename, h, Term.rename_atom]

theorem resolve_rename_ne_var (h : ∀ v, E.resolve t ≠ .var v) (w : Nat) :
    (E.rename hρ).resolve (t.rename ρ) ≠ .var w := by
  rw [resolve_rename]
  exact Term.bind_ne_var h _ w

theorem resolve_rename_ne_atom (h : ∀ a, E.resolve t ≠ .atom a) (a : String) :
    (E.rename hρ).resolve (t.rename ρ) ≠ .atom a := by
  rw [resolve_rename]
  intro ha
  cases hr : E.resolve t with
  | atom b => exact h b hr
  | _ => simp [hr] at ha

theorem isListLike_resolve_rename (t : Term) :
    ((E.rename hρ).resolve (t.rename ρ)).isListLike = (E.resolve t).isListLike := by
  rw [resolve_rename, Term.isListLike_rename]

end Env

theorem Codec.octets_rename (codec : Codec) (t : Term) (E : Env) :
    codec.octets (t.rename ρ) (E.rename hρ) =
      (codec.octets t E).mapError (.mapCulprit (Term.rename ρ)) := by
  have h := (codec.carries_octets (E.reads_rename hρ) t).eq_of_kept
  rwa [Except.map_id] at h

theorem Options.get_rename (key : String) (options default : Term) (E : Env) :
    (Options.get key (options.rename ρ) (default.rename ρ) (E.rename hρ)).result =
      ((Options.get key options default E).result.map (Term.rename ρ)).mapError
        (.mapCulprit (Term.rename ρ)) :=
  (Options.carries_get (E.reads_rename hρ) key options default).eq_of_kept

theorem Family.verify_rename (family : Family) (request : Request) (provider : Provider)
    (codec : Codec) (E : Env) :
    (family.verify (request.map (Term.rename ρ)) provider codec (E.rename hρ)).answer =
      ((family.verify request provider codec E).mapError
        (.mapCulprit (Term.rename ρ))).answer := by
  refine (answer_of_reads (E.reads_rename hρ) family request provider codec).resolve_left ?_
  intro hblames
  obtain ⟨_, -, _, -, -, hkept⟩ := hblames
  exact hkept trivial

namespace HexBytes
open Engine
variable {codec : Codec} {preds : Predicates} {hex bytes : Term} {E : Env} {b : Bytes}

theorem Spelled.rename (h : Spelled codec hex E b) :
    Spelled codec (hex.rename ρ) (E.rename hρ) b := by
  obtain ⟨text, hr, hb⟩ := h
  exact ⟨text, E.resolve_rename_atom hρ hr, hb⟩

theorem Listed.rename (h : Listed codec hex bytes E b) :
    Listed codec (hex.rename ρ) (bytes.rename ρ) (E.rename hρ) b := by
  obtain ⟨⟨v, hv⟩, hlist, hlen⟩ := h
  refine ⟨⟨ρ v, E.resolve_rename_var hρ hv⟩, ?_, hlen⟩
  rw [E.simplify_rename, hlist, Term.rename_ofBytes]

theorem Fault.rename {stage : Stage} {kind : ErrorKind} (h : Fault codec hex bytes E stage kind) :
    Fault codec (hex.rename ρ) (bytes.rename ρ) (E.rename hρ) stage
      (kind.mapCulprit (Term.rename ρ)) := by
  cases h with
  | @digits text e hr hd =>
    have hsame := (codec.carries_hexDigits (σ := fun v => .var (ρ v)) (E := E) text).eq_of_kept
    rw [hd] at hsame
    exact .digits (E.resolve_rename_atom hρ hr) (hd.trans hsame)
  | spelledNoList hb ht hlike =>
    rw [ErrorKind.mapCulprit, ← E.resolve_rename hρ]
    rw [← E.isListLike_resolve_rename hρ] at hlike
    exact .spelledNoList (hb.rename hρ) (E.resolve_rename_ne_var hρ ht) hlike
  | bothOpen hv hw =>
    exact .bothOpen (E.resolve_rename_var hρ hv) (E.resolve_rename_var hρ hw)
  | openNoList hv ht hlike =>
    rw [ErrorKind.mapCulprit, ← E.resolve_rename hρ]
    rw [← E.isListLike_resolve_rename hρ] at hlike
    exact .openNoList (E.resolve_rename_var hρ hv) (E.resolve_rename_ne_var hρ ht) hlike
  | octets hv hlike he =>
    rw [← E.isListLike_resolve_rename hρ] at hlike
    refine .octets (E.resolve_rename_var hρ hv) hlike ?_
    rw [E.resolve_rename, Codec.octets_rename, he]
    rfl
  | noAtom ha hv =>
    rw [ErrorKind.mapCulprit, ← E.resolve_rename hρ]
    exact .noAtom (E.resolve_rename_ne_atom hρ ha) (E.resolve_rename_ne_var hρ hv)

/-- The outcome of a call, with other names in its solution or in the culprit of its error. -/
def renameOutcome (outcome : Except PredicateError (Option Env)) :
    Except PredicateError (Option Env) :=
  (outcome.map (Option.map (·.rename hρ))).mapError (.mapCulprit (Term.rename ρ))

section Outcomes
variable {outcome : Except PredicateError (Option Env)}

theorem renameOutcome_solution_iff {G : Env} :
    renameOutcome hρ outcome = .ok (some G) ↔ ∃ F, outcome = .ok (some F) ∧ G = F.rename hρ := by
  rcases outcome with e | _ | F <;> simp [renameOutcome, Except.map, Except.mapError, eq_comm]

theorem renameOutcome_failure_iff : renameOutcome hρ outcome = .ok none ↔ outcome = .ok none := by
  rcases outcome with e | _ | F <;> simp [renameOutcome, Except.map, Except.mapError]

theorem renameOutcome_error_iff {e : PredicateError} :
    renameOutcome hρ outcome = .error e ↔
      ∃ e', outcome = .error e' ∧ e = e'.mapCulprit (Term.rename ρ) := by
  rcases outcome with e | _ | F <;> simp [renameOutcome, Except.map, Except.mapError, eq_comm]

end Outcomes

theorem Spelled.eval_rename (h : Spelled preds.codec hex E b) :
    preds.hexBytes (hex.rename ρ) (bytes.rename ρ) (E.rename hρ) =
      renameOutcome hρ (preds.hexBytes hex bytes E) := by
  have hunify := E.unify_rename hρ bytes (.ofBytes b)
  rw [Term.rename_ofBytes] at hunify
  rw [eval_of_spelled h, eval_of_spelled (h.rename hρ), E.resolve_rename, Term.isVar_rename,
    Term.isListLike_rename, hunify]
  split <;> rfl

theorem Listed.eval_rename (h : Listed preds.codec hex bytes E b) :
    preds.hexBytes (hex.rename ρ) (bytes.rename ρ) (E.rename hρ) =
      renameOutcome hρ (preds.hexBytes hex bytes E) := by
  have hunify := E.unify_rename hρ hex (.ofHex b)
  rw [h.eval_eq, (h.rename hρ).eval_eq]
  exact congrArg Except.ok hunify

theorem eval_rename (preds : Predicates) (hex bytes : Term) (E : Env) :
    preds.hexBytes (hex.rename ρ) (bytes.rename ρ) (E.rename hρ) =
      renameOutcome hρ (preds.hexBytes hex bytes E) := by
  rcases solvable_or_refuted_or_fault preds.codec hex bytes E with
    (⟨b, hb, -⟩ | ⟨b, hb⟩) | ⟨b, hb, -⟩ | ⟨stage, kind, hf⟩
  · exact hb.eval_rename hρ
  · exact hb.eval_rename hρ
  · exact hb.eval_rename hρ
  · rw [hf.eval_eq, (hf.rename hρ).eval_eq]
    rfl

theorem continues_goal_iff {F : Env} :
    Continues (goal preds hex bytes E) [] F ↔ preds.hexBytes hex bytes E = .ok (some F) :=
  continues_suspend_iff

theorem fails_goal_iff :
    Fails (goal preds hex bytes E) [] ↔ preds.hexBytes hex bytes E = .ok none :=
  fails_suspend_iff

theorem raises_goal_iff {e : PredicateError} :
    Raises (goal preds hex bytes E) [] e ↔ preds.hexBytes hex bytes E = .error e :=
  raises_suspend_iff

/-- The second goal has the outcome of the first, with other names: the same solution, failure or
the same error. -/
structure RenamedGoal (first second : Cont → Work) : Prop where
  continues (G : Env) : Continues second [] G ↔ ∃ F, Continues first [] F ∧ G = F.rename hρ
  fails : Fails second [] ↔ Fails first []
  raises (e : PredicateError) :
    Raises second [] e ↔ ∃ e', Raises first [] e' ∧ e = e'.mapCulprit (Term.rename ρ)

theorem goal_rename (preds : Predicates) (hex bytes : Term) (E : Env) :
    RenamedGoal hρ (goal preds hex bytes E)
      (goal preds (hex.rename ρ) (bytes.rename ρ) (E.rename hρ)) where
  continues G := by
    simp only [continues_goal_iff, eval_rename]
    exact renameOutcome_solution_iff hρ
  fails := by
    rw [fails_goal_iff, fails_goal_iff, eval_rename]
    exact renameOutcome_failure_iff hρ
  raises e := by
    simp only [raises_goal_iff, eval_rename]
    exact renameOutcome_error_iff hρ

end HexBytes

/-- Names of variables do not matter. Under an injective renaming of an environment and of all
arguments, unification fails where it failed and else makes the renamed bindings; whatever a term
stands for is renamed; and readers, signature verification and `hex_bytes` have the same values,
stages, kinds of errors and questions to the provider as before, with other names in culprits,
option values and solutions only. A renamed environment has the renamed bindings and no others, and
it can be reached if the first one can. -/
theorem results_rename (E : Env) :
    (∀ w s, (E.rename hρ).lookup w = some s ↔
        ∃ v r, E.lookup v = some r ∧ w = ρ v ∧ s = r.rename ρ) ∧
      (Env.empty.Later E → Env.empty.Later (E.rename hρ)) ∧
      (∀ a b, (E.rename hρ).unify (a.rename ρ) (b.rename ρ) = (E.unify a b).map (·.rename hρ)) ∧
      (∀ t, (E.rename hρ).simplify (t.rename ρ) = (E.simplify t).rename ρ) ∧
      (∀ (codec : Codec) t, codec.octets (t.rename ρ) (E.rename hρ) =
        (codec.octets t E).mapError (.mapCulprit (Term.rename ρ))) ∧
      (∀ key options default,
        (Options.get key (options.rename ρ) (default.rename ρ) (E.rename hρ)).result =
          ((Options.get key options default E).result.map (Term.rename ρ)).mapError
            (.mapCulprit (Term.rename ρ))) ∧
      (∀ (family : Family) (request : Request) provider codec,
        (family.verify (request.map (Term.rename ρ)) provider codec (E.rename hρ)).answer =
          ((family.verify request provider codec E).mapError
            (.mapCulprit (Term.rename ρ))).answer) ∧
      ∀ (preds : Predicates) hex bytes,
        preds.hexBytes (hex.rename ρ) (bytes.rename ρ) (E.rename hρ) =
            ((preds.hexBytes hex bytes E).map (Option.map (·.rename hρ))).mapError
              (.mapCulprit (Term.rename ρ)) ∧
          HexBytes.RenamedGoal hρ (HexBytes.goal preds hex bytes E)
            (HexBytes.goal preds (hex.rename ρ) (bytes.rename ρ) (E.rename hρ)) := by
  refine ⟨fun w s => E.lookup_rename_iff hρ, ?_, E.unify_rename hρ, E.simplify_rename hρ, ?_, ?_,
    ?_, ?_⟩
  · intro h
    have hlater := h.rename hρ
    rwa [Env.empty_rename] at hlater
  · intro codec t
    exact codec.octets_rename hρ t E
  · intro key options default
    exact Options.get_rename hρ key options default E
  · intro family request provider codec
    exact family.verify_rename hρ request provider codec E
  · intro preds hex bytes
    exact ⟨HexBytes.eval_rename hρ preds hex bytes E, HexBytes.goal_rename hρ preds hex bytes E⟩

/-- With two variables exchanged, an equation between them binds the other one, and `hex_bytes`
blames the other one. -/
theorem results_rename_exchanged :
    let ρ : Equiv.Perm Nat := Equiv.swap 0 1
    (∀ preds : Predicates, preds.hexBytes (.var 1) (.var 0) .empty =
      .error ⟨"hex_bytes/2", .arguments, .instantiation (.var 0)⟩) ∧
    ∃ F G, Env.empty.unify (.var 0) (.var 1) = some F ∧ F.bindings = [(0, .var 1)] ∧
      Env.empty.unify (.var 1) (.var 0) = some G ∧ G.bindings = [(1, .var 0)] ∧
      G = F.rename ρ.injective := by
  intro ρ
  obtain ⟨-, -, hunify, -, -, -, -, hhex⟩ := results_rename ρ.injective .empty
  obtain ⟨F, hF, hl⟩ := Env.exists_of_unify? (E := .empty) (a := .var 0) (b := .var 1)
    (l := [(0, .var 1)]) (by cbv)
  have hunify' := hunify (.var 0) (.var 1)
  rw [hF] at hunify'
  refine ⟨fun preds => ?_, F, F.rename ρ.injective, hF, hl, hunify', ?_, rfl⟩
  · have hfault : HexBytes.Fault preds.codec (.var 0) (.var 1) .empty .arguments
        (.instantiation (.var 1)) :=
      .bothOpen (Env.empty_resolve (.var 0)) (Env.empty_resolve (.var 1))
    have hhex' := (hhex preds (.var 0) (.var 1)).1
    rw [hfault.eval_eq] at hhex'
    exact hhex'
  change F.bindings.rename ρ = _
  rw [hl]
  rfl

end Signet
