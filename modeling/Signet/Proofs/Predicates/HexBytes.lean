import Signet.Engine.Goal
import Signet.Proofs.Codec.HexText
import Signet.Proofs.Engine.Outcome
import Signet.Proofs.Env.Ground

/-! # One relation in both directions

A hexadecimal atom and a list are related when the atom spells the bytes that the list holds. The
predicate `hex_bytes` decides this relation, whichever argument is known: it continues with a
solution exactly when there is one, fails exactly when the atom is known and the list can never
hold its bytes, and raises an error in all other cases. Each condition is shown to determine what
the evaluation gives, so no two of them hold together. -/
namespace Signet.HexBytes
open Engine
variable (codec : Codec) (hex bytes : Term) (E : Env)

/-- The first argument is an atom of the digits of `b`, in either case, and `b` is not too long. -/
def Spelled (b : Bytes) : Prop :=
  ∃ text, E.resolve hex = .atom text ∧ Hex.Spells text b ∧ b.length ≤ codec.maxBytes

/-- The first argument is open, and the second is the list of `b`, which is not too long. -/
def Listed (b : Bytes) : Prop :=
  (∃ v, E.resolve hex = .var v) ∧ E.simplify bytes = .ofBytes b ∧ b.length ≤ codec.maxBytes

def Solvable : Prop :=
  (∃ b, Spelled codec hex E b ∧ E.CanBe bytes (.ofBytes b)) ∨ ∃ b, Listed codec hex bytes E b

/-- The digits are known, and the second argument is a list that cannot become that of their
bytes. -/
def Refuted : Prop :=
  ∃ b, Spelled codec hex E b ∧ (E.resolve bytes).isListLike = true ∧ ¬ E.CanBe bytes (.ofBytes b)

/-- In `E'` the arguments are related. An atom that was open in `E` has lowercase digits. -/
def Solution (E' : Env) : Prop :=
  E.Extends E' ∧ ∃ text b, E'.simplify hex = .atom text ∧ Hex.Spells text b ∧
    b.length ≤ codec.maxBytes ∧ E'.simplify bytes = .ofBytes b ∧
    ((∃ v, E.resolve hex = .var v) → text = Hex.encode b)

/-- What can be wrong with the arguments, and the step at which it is found. -/
inductive Fault : Stage → ErrorKind → Prop
  | digits {text : String} {e : ErrorKind} :
    E.resolve hex = .atom text → codec.hexDigits text = .error e → Fault .hex e
  | spelledNoList {b : Bytes} :
    Spelled codec hex E b → (∀ v, E.resolve bytes ≠ .var v) →
    (E.resolve bytes).isListLike = false → Fault .arguments (.type .list (E.resolve bytes))
  | bothOpen {v w : Nat} :
    E.resolve hex = .var v → E.resolve bytes = .var w → Fault .arguments (.instantiation (.var w))
  | openNoList {v : Nat} :
    E.resolve hex = .var v → (∀ w, E.resolve bytes ≠ .var w) →
    (E.resolve bytes).isListLike = false → Fault .arguments (.type .list (E.resolve bytes))
  | octets {v : Nat} {e : ErrorKind} :
    E.resolve hex = .var v → (E.resolve bytes).isListLike = true →
    codec.octets (E.resolve bytes) E = .error e → Fault .bytes e
  | noAtom :
    (∀ text, E.resolve hex ≠ .atom text) → (∀ v, E.resolve hex ≠ .var v) →
    Fault .arguments (.type .atom (E.resolve hex))

variable {codec hex bytes E} {preds : Predicates} {b : Bytes}

/-- With the digits known, all that is left to ask is whether the second argument is a list. -/
theorem eval_of_spelled (h : Spelled preds.codec hex E b) :
    preds.hexBytes hex bytes E =
      if (E.resolve bytes).isVar || (E.resolve bytes).isListLike then
        .ok (E.unify bytes (.ofBytes b))
      else .error ⟨"hex_bytes/2", .arguments, .type .list (E.resolve bytes)⟩ := by
  obtain ⟨text, hr, hb⟩ := h
  simp only [Predicates.hexBytes, hr, Codec.hexDigits_ok_iff.mpr hb]
  rfl

/-- With the first argument open, the second has to be a list. -/
theorem eval_of_open {v : Nat} (h : E.resolve hex = .var v)
    (ht : ∀ w, E.resolve bytes ≠ .var w) :
    preds.hexBytes hex bytes E =
      if (E.resolve bytes).isListLike then do
        let b ← (preds.codec.octets (E.resolve bytes) E).mapError (⟨"hex_bytes/2", .bytes, ·⟩)
        return E.unify hex (.ofHex b)
      else .error ⟨"hex_bytes/2", .arguments, .type .list (E.resolve bytes)⟩ := by
  simp only [Predicates.hexBytes, h]
  rfl

theorem Listed.eval_eq (h : Listed preds.codec hex bytes E b) :
    preds.hexBytes hex bytes E = .ok (E.unify hex (.ofHex b)) := by
  obtain ⟨⟨v, hv⟩, hlist, hlen⟩ := h
  rw [Env.simplify_eq] at hlist
  have hlike := Env.isListLike_of_apply_ofBytes hlist
  have hoctets : preds.codec.octets (E.resolve bytes) E = .ok b :=
    Codec.octets_ok_iff.mpr ⟨(E.apply_resolve bytes).trans hlist, hlen⟩
  rw [eval_of_open hv (Term.ne_var_of_isListLike hlike), if_pos hlike, hoctets]
  rfl

theorem Spelled.solution {E' : Env} (h : Spelled codec hex E b)
    (hu : E.unify bytes (.ofBytes b) = some E') : Solution codec hex bytes E E' := by
  obtain ⟨text, hr, htext, hlen⟩ := h
  have hext := Env.extends_unifyAll hu
  have hr' : E'.resolve hex = .atom text := by
    rw [hext.resolve_eq (by simp [hr]), hr]
  refine ⟨hext, text, b, ?_, htext, hlen, ?_, ?_⟩
  · rw [Env.simplify_eq, ← Env.resolve_eq_atom_iff, hr']
  · rw [Env.simplify_eq, Env.apply_of_unify_ground (Term.vars_ofBytes b) hu]
  · rintro ⟨v, hv⟩
    rw [hr] at hv
    cases hv

theorem Listed.solution {E' : Env} (h : Listed codec hex bytes E b)
    (hu : E.unify hex (.ofHex b) = some E') : Solution codec hex bytes E E' := by
  obtain ⟨-, hlist, hlen⟩ := h
  have hext := Env.extends_unifyAll hu
  refine ⟨hext, Hex.encode b, b, ?_, Hex.spells_encode b, hlen, ?_, fun _ => rfl⟩
  · rw [Env.simplify_eq]
    exact Env.apply_of_unify_ground rfl hu
  · rw [Env.simplify_eq] at hlist ⊢
    rw [← hext.apply_apply, hlist, Env.apply_of_ground E' (Term.vars_ofBytes b)]

theorem Solvable.eval_eq (h : Solvable preds.codec hex bytes E) :
    ∃ E', preds.hexBytes hex bytes E = .ok (some E') ∧ Solution preds.codec hex bytes E E' := by
  rcases h with ⟨b, hb, hcan⟩ | ⟨b, hb⟩
  · obtain ⟨E', hu⟩ := (Env.canBe_iff_unify (Term.vars_ofBytes b)).mp hcan
    rw [eval_of_spelled hb, if_pos (hcan.isVar_or_isListLike (Term.isListLike_ofBytes b)), hu]
    exact ⟨E', rfl, hb.solution hu⟩
  · obtain ⟨v, hv⟩ := hb.1
    obtain ⟨E', hu⟩ := (Env.canBe_iff_unify rfl).mp (Env.canBe_of_unbound hv (.ofHex b))
    rw [hb.eval_eq, hu]
    exact ⟨E', rfl, hb.solution hu⟩

theorem Refuted.eval_eq (h : Refuted preds.codec hex bytes E) :
    preds.hexBytes hex bytes E = .ok none := by
  obtain ⟨b, hb, hlike, hcan⟩ := h
  rw [Env.canBe_iff_unify (Term.vars_ofBytes b)] at hcan
  rw [eval_of_spelled hb, hlike, Bool.or_true, if_pos rfl,
    Option.eq_none_iff_forall_ne_some.mpr (not_exists.mp hcan)]

theorem Fault.eval_eq {stage : Stage} {kind : ErrorKind}
    (h : Fault preds.codec hex bytes E stage kind) :
    preds.hexBytes hex bytes E = .error ⟨"hex_bytes/2", stage, kind⟩ := by
  cases h with
  | digits hr hd =>
    simp only [Predicates.hexBytes, hr, hd]
    rfl
  | spelledNoList hb ht hlike =>
    have hvar : (E.resolve bytes).isVar = false := Term.isVar_eq_false_iff.mpr ht
    rw [eval_of_spelled hb, hvar, hlike]
    rfl
  | bothOpen hv hw =>
    simp only [Predicates.hexBytes, hv, hw]
    rfl
  | openNoList hv ht hlike =>
    rw [eval_of_open hv ht, hlike]
    rfl
  | octets hv hlike he =>
    rw [eval_of_open hv (Term.ne_var_of_isListLike hlike), if_pos hlike, he]
    rfl
  | noAtom ha hv =>
    unfold Predicates.hexBytes
    dsimp only
    split
    · rename_i text hr
      exact absurd hr (ha text)
    · rename_i v hr
      exact absurd hr (hv v)
    · rfl

theorem Spelled.cases (h : Spelled codec hex E b) :
    Solvable codec hex bytes E ∨ Refuted codec hex bytes E ∨
      ∃ stage kind, Fault codec hex bytes E stage kind := by
  cases hv : (E.resolve bytes).isVar with
  | true =>
    obtain ⟨v, hv⟩ := Term.isVar_iff.mp hv
    exact .inl (.inl ⟨b, h, Env.canBe_of_unbound hv _⟩)
  | false =>
    cases hl : (E.resolve bytes).isListLike with
    | true =>
      by_cases hcan : E.CanBe bytes (.ofBytes b)
      · exact .inl (.inl ⟨b, h, hcan⟩)
      · exact .inr (.inl ⟨b, h, hl, hcan⟩)
    | false => exact .inr (.inr ⟨_, _, .spelledNoList h (Term.isVar_eq_false_iff.mp hv) hl⟩)

theorem cases_of_open {v : Nat} (h : E.resolve hex = .var v) :
    (∃ b, Listed codec hex bytes E b) ∨ ∃ stage kind, Fault codec hex bytes E stage kind := by
  cases hw : (E.resolve bytes).isVar with
  | true =>
    obtain ⟨w, hw⟩ := Term.isVar_iff.mp hw
    exact .inr ⟨_, _, .bothOpen h hw⟩
  | false =>
    cases hl : (E.resolve bytes).isListLike with
    | false => exact .inr ⟨_, _, .openNoList h (Term.isVar_eq_false_iff.mp hw) hl⟩
    | true =>
      cases ho : codec.octets (E.resolve bytes) E with
      | error e => exact .inr ⟨_, _, .octets h hl ho⟩
      | ok b =>
        obtain ⟨hlist, hlen⟩ := Codec.octets_ok_iff.mp ho
        rw [Env.apply_resolve] at hlist
        exact .inl ⟨b, ⟨v, h⟩, (E.simplify_eq bytes).trans hlist, hlen⟩

/-- The three conditions leave no case out. -/
theorem solvable_or_refuted_or_fault (codec : Codec) (hex bytes : Term) (E : Env) :
    Solvable codec hex bytes E ∨ Refuted codec hex bytes E ∨
      ∃ stage kind, Fault codec hex bytes E stage kind := by
  by_cases ha : ∃ text, E.resolve hex = .atom text
  · obtain ⟨text, hr⟩ := ha
    cases hd : codec.hexDigits text with
    | error e => exact .inr (.inr ⟨_, _, .digits hr hd⟩)
    | ok b => exact Spelled.cases ⟨text, hr, Codec.hexDigits_ok_iff.mp hd⟩
  · by_cases hv : ∃ v, E.resolve hex = .var v
    · obtain ⟨v, hv⟩ := hv
      rcases cases_of_open hv with hb | hfault
      · exact .inl (.inr hb)
      · exact .inr (.inr hfault)
    · exact .inr (.inr ⟨_, _, .noAtom (not_exists.mp ha) (not_exists.mp hv)⟩)

/-- The call of the predicate, which is still to be given its continuation. -/
def goal (preds : Predicates) (hex bytes : Term) (E : Env) : Cont → Work :=
  (suspend (fun E => Traced.lift (preds.hexBytes hex bytes E)) · E)

theorem Solvable.continues (h : Solvable preds.codec hex bytes E) :
    ∃ E', Continues (goal preds hex bytes E) [] E' ∧ Solution preds.codec hex bytes E E' := by
  obtain ⟨E', heval, hsol⟩ := h.eval_eq
  exact ⟨E', continues_suspend heval, hsol⟩

theorem Solvable.not_fails (h : Solvable preds.codec hex bytes E) :
    ¬ Fails (goal preds hex bytes E) [] := by
  obtain ⟨E', hcont, -⟩ := h.continues
  exact hcont.not_fails

theorem Solvable.not_raises {e : PredicateError} (h : Solvable preds.codec hex bytes E) :
    ¬ Raises (goal preds hex bytes E) [] e := by
  obtain ⟨E', hcont, -⟩ := h.continues
  exact hcont.not_raises

theorem Refuted.fails (h : Refuted preds.codec hex bytes E) :
    Fails (goal preds hex bytes E) [] :=
  fails_suspend h.eval_eq

theorem Fault.raises {stage : Stage} {kind : ErrorKind}
    (h : Fault preds.codec hex bytes E stage kind) :
    Raises (goal preds hex bytes E) [] ⟨"hex_bytes/2", stage, kind⟩ :=
  raises_suspend h.eval_eq

theorem solvable_of_continues {E' : Env} (h : Continues (goal preds hex bytes E) [] E') :
    Solvable preds.codec hex bytes E := by
  rcases solvable_or_refuted_or_fault preds.codec hex bytes E with hs | hr | ⟨stage, kind, hf⟩
  · exact hs
  · exact absurd hr.fails h.not_fails
  · exact absurd hf.raises h.not_raises

theorem refuted_of_fails (h : Fails (goal preds hex bytes E) []) :
    Refuted preds.codec hex bytes E := by
  rcases solvable_or_refuted_or_fault preds.codec hex bytes E with hs | hr | ⟨stage, kind, hf⟩
  · exact absurd h hs.not_fails
  · exact hr
  · exact absurd hf.raises h.not_raises

theorem fault_of_raises {e : PredicateError} (h : Raises (goal preds hex bytes E) [] e) :
    ∃ stage kind, e = ⟨"hex_bytes/2", stage, kind⟩ ∧ Fault preds.codec hex bytes E stage kind := by
  rcases solvable_or_refuted_or_fault preds.codec hex bytes E with hs | hr | ⟨stage, kind, hf⟩
  · exact absurd h hs.not_raises
  · exact absurd h hr.fails.not_raises
  · exact ⟨stage, kind, h.unique hf.raises, hf⟩

/-- A call continues, once and with a solution, exactly when the arguments can be related. It fails
exactly when the digits are known and the list can never hold their bytes. Otherwise, and only
then, it raises an error, which says what is wrong with the arguments. -/
theorem goal_outcome (preds : Predicates) (hex bytes : Term) (E : Env) :
    (∀ cont, (Goal.call "hex_bytes" [hex, bytes]).start? preds cont E =
      some (goal preds hex bytes E cont)) ∧
    ((∃ E', Continues (goal preds hex bytes E) [] E') ↔ Solvable preds.codec hex bytes E) ∧
    (∀ E', Continues (goal preds hex bytes E) [] E' → Solution preds.codec hex bytes E E') ∧
    (Fails (goal preds hex bytes E) [] ↔ Refuted preds.codec hex bytes E) ∧
    (∀ e, Raises (goal preds hex bytes E) [] e ↔
      ∃ stage kind, e = ⟨"hex_bytes/2", stage, kind⟩ ∧ Fault preds.codec hex bytes E stage kind) ∧
    ((∃ e, Raises (goal preds hex bytes E) [] e) ↔
      ¬ Solvable preds.codec hex bytes E ∧ ¬ Refuted preds.codec hex bytes E) ∧
    ¬ (Solvable preds.codec hex bytes E ∧ Refuted preds.codec hex bytes E) := by
  refine ⟨fun cont => rfl, ⟨?_, ?_⟩, ?_, ⟨refuted_of_fails, Refuted.fails⟩,
    fun e => ⟨fault_of_raises, ?_⟩, ⟨?_, ?_⟩, ?_⟩
  · rintro ⟨E', hcont⟩
    exact solvable_of_continues hcont
  · intro hs
    obtain ⟨E', hcont, -⟩ := hs.continues
    exact ⟨E', hcont⟩
  · intro E' h
    obtain ⟨F, hcont, hsol⟩ := (solvable_of_continues h).continues
    rw [h.unique hcont]
    exact hsol
  · rintro ⟨stage, kind, rfl, hf⟩
    exact hf.raises
  · rintro ⟨e, he⟩
    exact ⟨fun hs => hs.not_raises he, fun hr => hr.fails.not_raises he⟩
  · rintro ⟨hs, hr⟩
    obtain ⟨stage, kind, hf⟩ :=
      ((solvable_or_refuted_or_fault preds.codec hex bytes E).resolve_left hs).resolve_left hr
    exact ⟨_, hf.raises⟩
  · rintro ⟨hs, hr⟩
    exact hs.not_fails hr.fails

end Signet.HexBytes
