import Signet.Engine.Goal
import Signet.Proofs.Engine.Outcome
import Signet.Proofs.Env.Ground
import Signet.Proofs.Options.Names

/-! # The digest of a text

The predicate `sha_hash` looks at its second argument only after the provider has answered, and
then it asks one thing of it: whether it can be the list of the digest. So no second argument is an
error. The evaluation is known outright, with an atom to hash and without one, and all the rest is
what unification with a ground term comes to. -/
namespace Signet.ShaHash
open Engine
variable {preds : Predicates} {data hash : Term} {E : Env} {text : String}

/-- The call of the predicate, which is still to be given its continuation. -/
def goal (preds : Predicates) (data hash : Term) (E : Env) : Cont → Work :=
  (suspend (preds.shaHash data hash) · E)

/-- What hashing a text does: one question to the provider, and one event. -/
def acts (text : String) : List Act := [
  .call (.hash (utf8 text)),
  .event {
    level := .debug
    target := "termcrypt_logic::predicates"
    message := "sha_hash/2: hashed " ++ toString (utf8 text).length ++ " bytes"
    fields := [] }]

/-- The list of the bytes of the digest. -/
def digest (preds : Predicates) (text : String) : Term :=
  .ofBytes (preds.provider.hash (utf8 text)).toList

theorem calls_acts (text : String) : (acts text).filterMap Act.call? = [.hash (utf8 text)] := rfl

theorem vars_digest (preds : Predicates) (text : String) : (digest preds text).vars = [] :=
  Term.vars_ofBytes _

theorem eval_of_atom (preds : Predicates) (hash : Term) (h : E.resolve data = .atom text) :
    preds.shaHash data hash E = ⟨acts text, .ok (E.unify hash (digest preds text))⟩ := by
  unfold Predicates.shaHash
  rw [Env.atomName_ok_iff.mpr h]
  rfl

theorem eval_of_not_atom (preds : Predicates) (hash : Term)
    (h : ∀ text, E.resolve data ≠ .atom text) :
    preds.shaHash data hash E =
      ⟨[], .error ⟨"sha_hash/2", .arguments, .type .atom (E.resolve data)⟩⟩ := by
  have hname : E.atomName data = .error (.type .atom (E.resolve data)) := by
    unfold Env.atomName
    split
    · rename_i text hr
      exact absurd hr (h text)
    · rfl
  unfold Predicates.shaHash
  rw [hname]
  rfl

theorem raises_of_not_atom (h : ∀ text, E.resolve data ≠ .atom text) :
    Raises (goal preds data hash E) []
      ⟨"sha_hash/2", .arguments, .type .atom (E.resolve data)⟩ := by
  have heval := eval_of_not_atom preds hash h
  have hraises := raises_suspend (congrArg Traced.result heval)
  rwa [heval] at hraises

theorem continues_iff (h : E.resolve data = .atom text) {E' : Env} :
    Continues (goal preds data hash E) (acts text) E' ↔
      E.unify hash (digest preds text) = some E' := by
  have hiff : Continues (goal preds data hash E) (preds.shaHash data hash E).acts E' ↔ _ :=
    continues_suspend_iff
  rwa [eval_of_atom preds hash h, Except.ok.injEq] at hiff

theorem fails_iff (h : E.resolve data = .atom text) :
    Fails (goal preds data hash E) (acts text) ↔ E.unify hash (digest preds text) = none := by
  have hiff : Fails (goal preds data hash E) (preds.shaHash data hash E).acts ↔ _ :=
    fails_suspend_iff
  rwa [eval_of_atom preds hash h, Except.ok.injEq] at hiff

/-- With an atom to hash, there is no third way. -/
theorem continues_or_fails (preds : Predicates) (hash : Term) (h : E.resolve data = .atom text) :
    (∃ E', Continues (goal preds data hash E) (acts text) E') ∨
      Fails (goal preds data hash E) (acts text) := by
  cases hu : E.unify hash (digest preds text) with
  | some E' => exact .inl ⟨E', (continues_iff h).mpr hu⟩
  | none => exact .inr ((fails_iff h).mpr hu)

/-- Without an atom to hash, the call raises an error, and nothing is asked or continued. With one,
the provider is asked once, for the digest of its text. The call then continues once, in an extension
in which the second argument is the list of the digest, exactly when that argument can be this list,
and fails exactly when it cannot; it never raises an error, and it never fails when the argument is
open. -/
theorem digest_outcome (preds : Predicates) (data hash : Term) (E : Env) :
    (∀ cont, (Goal.call "sha_hash" [data, hash]).start? preds cont E =
      some (goal preds data hash E cont)) ∧
    ((∀ text, E.resolve data ≠ .atom text) →
      Raises (goal preds data hash E) []
        ⟨"sha_hash/2", .arguments, .type .atom (E.resolve data)⟩) ∧
    ∀ text, E.resolve data = .atom text →
      (acts text).filterMap Act.call? = [.hash (utf8 text)] ∧
      ((∃ E', Continues (goal preds data hash E) (acts text) E') ↔
        E.CanBe hash (digest preds text)) ∧
      (∀ E', Continues (goal preds data hash E) (acts text) E' →
        E.Extends E' ∧ E'.simplify hash = digest preds text) ∧
      (Fails (goal preds data hash E) (acts text) ↔ ¬ E.CanBe hash (digest preds text)) ∧
      (∀ done e, ¬ Raises (goal preds data hash E) done e) ∧
      ((∃ v, E.resolve hash = .var v) → ∀ done, ¬ Fails (goal preds data hash E) done) := by
  refine ⟨fun cont => rfl, raises_of_not_atom, ?_⟩
  intro text h
  have hground := vars_digest preds text
  refine ⟨calls_acts text, ?_, ?_, ?_, ?_, ?_⟩
  · simp only [continues_iff h, Env.canBe_iff_unify hground]
  · intro E' hcont
    have hu := (continues_iff h).mp hcont
    refine ⟨Env.extends_unifyAll hu, ?_⟩
    rw [Env.simplify_eq, Env.apply_of_unify_ground hground hu]
  · rw [fails_iff h, Env.canBe_iff_unify hground, not_exists]
    exact Option.eq_none_iff_forall_ne_some
  · intro done e
    rcases continues_or_fails preds hash h with ⟨E', hcont⟩ | hfails
    · exact hcont.not_raises
    · exact hfails.not_raises
  · rintro ⟨v, hv⟩ done
    obtain ⟨E', hu⟩ := (Env.canBe_iff_unify hground).mp (Env.canBe_of_unbound hv _)
    exact ((continues_iff h).mpr hu).not_fails

/-- The text "00", behind a binding, is hashed as it stands. The digest is thirty-two zeros: a list
with one variable twice can be it, a list that begins with one cannot. -/
theorem digest_outcome_shared :
    let preds : Predicates := ⟨.constant (.ok true), ⟨8⟩⟩
    let E : Env := ⟨[(0, .atom "00")], trivial, rfl, by decide⟩
    let shared : Term := .cons (.var 1) (.cons (.var 1) (.var 2))
    (acts "00").filterMap Act.call? = [.hash [48, 48]] ∧
      (∃ E', Continues (goal preds (.var 0) shared E) (acts "00") E' ∧
        E'.simplify shared = .ofBytes (List.replicate 32 0)) ∧
      Fails (goal preds (.var 0) (.cons (.int 1) (.var 2)) E) (acts "00") ∧
      Raises (goal preds (.var 3) shared E) [] ⟨"sha_hash/2", .arguments, .type .atom (.var 3)⟩ := by
  intro preds E shared
  have hdata : E.resolve (.var 0) = .atom "00" := by
    rw [Env.resolve_of_lookup (s := .atom "00") rfl, Env.resolve_atom]
  have hopen : E.resolve (.var 3) = .var 3 := Env.resolve_of_unbound rfl
  have hzeros : digest preds "00" = .ofBytes (List.replicate 32 0) := by cbv
  have hground := vars_digest preds "00"
  have hcan : E.CanBe shared (digest preds "00") := by
    obtain ⟨E', hE', -⟩ := Env.exists_of_unify? (E := E) (a := shared) (b := digest preds "00")
      (l := [(1, .int 0), (2, .ofBytes (List.replicate 30 0)), (0, .atom "00")]) (by cbv)
    exact (Env.canBe_iff_unify hground).mpr ⟨E', hE'⟩
  have hcannot : ¬ E.CanBe (.cons (.int 1) (.var 2)) (digest preds "00") := by
    rw [Env.canBe_iff_unify hground, Env.unify_eq_none_of_unify? (by cbv)]
    simp
  obtain ⟨hcalls, ⟨-, hcontinues⟩, hsolution, -⟩ :=
    (digest_outcome preds (.var 0) shared E).2.2 "00" hdata
  obtain ⟨-, -, -, hfails, -⟩ :=
    (digest_outcome preds (.var 0) (.cons (.int 1) (.var 2)) E).2.2 "00" hdata
  have hraises := (digest_outcome preds (.var 3) shared E).2.1 (by simp [hopen])
  obtain ⟨E', hE'⟩ := hcontinues hcan
  rw [hopen] at hraises
  refine ⟨hcalls.trans (by cbv), ⟨E', hE', ?_⟩, hfails.mpr hcannot, hraises⟩
  rw [(hsolution E' hE').2, hzeros]

end Signet.ShaHash
