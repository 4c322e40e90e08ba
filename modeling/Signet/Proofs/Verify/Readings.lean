import Signet.Proofs.Options.Readings
import Signet.Proofs.Verify.Contract

/-! # Verification under two readings

A request and its instance are accepted alike, and where one has a first fault, the other has the
instance of it, unless the fault blames an unbound variable that is not kept. Two readings are of
interest: what the terms of a request stand for, read without any bindings, and the request itself
in an environment with more bindings. -/
namespace Signet

theorem Traced.answer_mapError {ε δ α : Type} (f : ε → δ) (x : Traced ε α) :
    (x.mapError f).answer = (x.answer.1, x.answer.2.mapError f) :=
  rfl

def PredicateError.mapCulprit (f : Term → Term) (e : PredicateError) : PredicateError :=
  { e with kind := e.kind.mapCulprit f }

def Request.map (f : Term → Term) (request : Request) : Request where
  key := f request.key
  data := f request.data
  signature := f request.signature
  options := f request.options

namespace Family
variable {E F : Env} {σ : Nat → Term} {kept : Nat → Prop} {family : Family} {request : Request}
  {codec : Codec}

theorem carries_select (family : Family) (name : String) :
    Carries E σ kept id (family.select name) (family.select name) := by
  refine .same fun kind hkind => ?_
  unfold select at hkind
  split at hkind <;> cases hkind
  rfl

theorem carries_algorithmOf (h : Env.Reads E F σ kept) (family : Family) (options : Term) :
    Carries E σ kept id (family.algorithmOf options E).result
      (family.algorithmOf (options.bind σ) F).result :=
  Options.carries_named h family.carries_select "type" options (.atom family.default.name)

theorem Accepts.of_reads {algorithm : Algorithm} {key data signature : Bytes}
    (h : Env.Reads E F σ kept) (ha : Accepts family request codec E algorithm key data signature) :
    Accepts family (request.map (Term.bind σ)) codec F algorithm key data signature := by
  obtain ⟨hmem, hname, hkey, ⟨encoding, hencoding, hdata⟩, hsignature⟩ := ha
  have halgorithm := (carries_algorithmOf h family request.options).ok_of_ok
    (algorithmOf_ok_iff.mpr ⟨hmem, hname⟩)
  have hencoding' := (Encoding.carries_ofOptions h request.options).ok_of_ok
    (Encoding.ofOptions_ok_iff.mpr hencoding)
  exact ⟨hmem, (algorithmOf_ok_iff.mp halgorithm).2,
    (codec.carries_decode h request.key family.keyEncoding).ok_of_ok hkey,
    ⟨encoding, Encoding.ofOptions_ok_iff.mp hencoding',
      (codec.carries_decode h request.data encoding).ok_of_ok hdata⟩,
    (codec.carries_decode h request.signature family.signatureEncoding).ok_of_ok hsignature⟩

theorem FirstFault.of_reads {stage : Stage} {kind : ErrorKind} (h : Env.Reads E F σ kept)
    (hf : FirstFault family request codec E stage kind) :
    kind.BlamesOpen E kept ∨ FirstFault family (request.map (Term.bind σ)) codec F stage
      (kind.mapCulprit (Term.bind σ)) := by
  have halgorithm := carries_algorithmOf h family request.options
  have hkey := codec.carries_decode h request.key family.keyEncoding
  have hencoding := Encoding.carries_ofOptions h request.options
  have hdata := codec.carries_decode h request.data
  have hsignature := codec.carries_decode h request.signature family.signatureEncoding
  cases hf with
  | options ha => exact (halgorithm.error_of_error ha).imp id .options
  | publicKey ha hk =>
    exact (hkey.error_of_error hk).imp id (.publicKey (halgorithm.ok_of_ok ha))
  | encoding ha hk he =>
    exact (hencoding.error_of_error he).imp id
      (.encoding (halgorithm.ok_of_ok ha) (hkey.ok_of_ok hk))
  | @data _ _ encoding _ ha hk he hd =>
    exact ((hdata encoding).error_of_error hd).imp id
      (.data (halgorithm.ok_of_ok ha) (hkey.ok_of_ok hk) (hencoding.ok_of_ok he))
  | @signature _ _ encoding _ _ ha hk he hd hs =>
    exact (hsignature.error_of_error hs).imp id
      (.signature (halgorithm.ok_of_ok ha) (hkey.ok_of_ok hk) (hencoding.ok_of_ok he)
        ((hdata encoding).ok_of_ok hd))

theorem answer_of_reads (h : Env.Reads E F σ kept) (family : Family) (request : Request)
    (provider : Provider) (codec : Codec) :
    (∃ e, (family.verify request provider codec E).result = .error e ∧
      e.kind.BlamesOpen E kept) ∨
      (family.verify (request.map (Term.bind σ)) provider codec F).answer =
        ((family.verify request provider codec E).mapError
          (PredicateError.mapCulprit (Term.bind σ))).answer := by
  rw [Traced.answer_mapError]
  rcases accepts_or_fault family request codec E with ⟨a, k, d, s, ha⟩ | ⟨stage, kind, hf⟩
  · right
    rw [answer_of_accepts ha, answer_of_accepts (ha.of_reads h)]
    cases provider.verify a k d s <;> rfl
  · have hE : (family.verify request provider codec E).answer =
        ([], .error ⟨family.functor, stage, kind⟩) := answer_of_fault hf
    rcases hf.of_reads h with hopen | hf'
    · exact .inl ⟨_, congrArg Prod.snd hE, hopen⟩
    · right
      rw [hE]
      exact answer_of_fault hf'

/-- Bindings are transparent: with every term replaced by what it stands for, and no bindings at
all, there are the same questions to the provider and the same result, but that the culprit of an
error is replaced likewise. The same holds of each decoder and of option look-ups. -/
theorem verify_simplify (family : Family) (request : Request) (provider : Provider) (codec : Codec)
    (E : Env) :
    (family.verify (request.map E.simplify) provider codec .empty).answer =
        ((family.verify request provider codec E).mapError (.mapCulprit E.simplify)).answer ∧
      (∀ t, codec.octets (E.simplify t) .empty =
        (codec.octets t E).mapError (.mapCulprit E.simplify)) ∧
      (∀ t encoding, codec.decode (E.simplify t) encoding .empty =
        (codec.decode t encoding E).mapError (.mapCulprit E.simplify)) ∧
      (∀ t options, (codec.decodeBy (E.simplify t) (E.simplify options) .empty).answer =
        ((codec.decodeBy t options E).mapError (.mapCulprit E.simplify)).answer) ∧
      ∀ key options default,
        (Options.get key (E.simplify options) (E.simplify default) .empty).result =
            ((Options.get key options default E).result.map E.simplify).mapError
              (.mapCulprit E.simplify) ∧
          (Options.get key (E.simplify options) default .empty).result.map E.simplify =
            ((Options.get key options default E).result.map E.simplify).mapError
              (.mapCulprit E.simplify) := by
  have hidem : ∀ t, E.simplify (E.simplify t) = E.simplify t := by
    intro t
    rw [Env.simplify_eq, Env.simplify_eq, Env.apply_idem]
  obtain ⟨σ, hσ, h⟩ := E.reads_simplify
  rw [← hσ] at hidem ⊢
  refine ⟨?_, ?_, ?_, ?_, ?_⟩
  · refine (answer_of_reads h family request provider codec).resolve_left ?_
    rintro ⟨_, -, _, -, -, hk⟩
    exact hk trivial
  · intro t
    simpa [Except.map_id] using (codec.carries_octets h t).eq_of_kept
  · intro t encoding
    simpa [Except.map_id] using (codec.carries_decode h t encoding).eq_of_kept
  · intro t options
    have hresult := (codec.carries_decodeBy h t options).eq_of_kept
    simp only [Traced.answer, Codec.calls_decodeBy, hresult, Traced.calls_mapError,
      Traced.result_mapError, Except.map_id, id]
  · intro key options default
    have hget := (Options.carries_get h key options default).eq_of_kept
    refine ⟨hget, ?_⟩
    rw [Options.result_get, Options.map_scan_default (hidem default).symm, ← Options.result_get,
      hget]
    cases (Options.get key options default E).result with
    | ok value => exact congrArg Except.ok (hidem value)
    | error kind => rfl

theorem answer_of_extends {E F : Env} (h : E.Extends F) (family : Family) (request : Request)
    (provider : Provider) (codec : Codec) :
    (∃ e v, (family.verify request provider codec E).result = .error e ∧
      e.kind.culprit? = some (.var v) ∧ E.lookup v = none) ∨
      (family.verify request provider codec F).answer =
        (family.verify request provider codec E).answer := by
  have hid : Term.bind .var = id := funext Term.bind_var
  rcases answer_of_reads h.reads family request provider codec with ⟨e, he, v, hc, hv, -⟩ | ha
  · exact .inl ⟨e, v, he, hc, hv⟩
  · right
    rw [hid, Traced.answer_mapError] at ha
    rw [show request.map id = request from rfl] at ha
    rw [ha]
    unfold Traced.answer
    cases (family.verify request provider codec E).result with
    | ok verified => rfl
    | error e => simp [Except.mapError, PredicateError.mapCulprit, ErrorKind.mapCulprit_id]

/-- A later environment changes only errors that name an unbound variable: any other outcome stays
as it is, with the same question to the provider. -/
theorem verify_later {E F : Env} (h : E.Later F) (family : Family) (request : Request)
    (provider : Provider) (codec : Codec) :
    (∀ verified, (family.verify request provider codec E).result = .ok verified →
      (family.verify request provider codec F).answer =
        (family.verify request provider codec E).answer) ∧
      ∀ e, (family.verify request provider codec E).result = .error e →
        (¬ ∃ v, e.kind.culprit? = some (.var v) ∧ E.lookup v = none) →
        (family.verify request provider codec F).answer =
          (family.verify request provider codec E).answer := by
  have hsame := answer_of_extends h.extends family request provider codec
  refine ⟨fun verified hok => hsame.resolve_left ?_, fun e he hnone => hsame.resolve_left ?_⟩
  · rintro ⟨e, v, he, -⟩
    rw [he] at hok
    cases hok
  · rintro ⟨e', v, he', hv⟩
    rw [he'] at he
    cases he
    exact hnone ⟨v, hv⟩

/-- The options end in a variable that is bound to no list later, and the key of the second
request goes on as that variable behind an element that is no byte. -/
theorem verify_later_open_tail :
    let E : Env := ⟨[(0, .cons (.int 7) .nil)], trivial, rfl, by decide⟩
    let options : Term := .cons (.compound "type" [.atom "ed25519"])
      (.cons (.compound "encoding" [.atom "hex"]) (.var 1))
    let accepted : Request := ⟨.var 0, .atom "", .nil, options⟩
    let refused : Request := ⟨.cons (.int 300) (.var 1), .atom "", .nil, options⟩
    let provider : Provider := .constant (.ok true)
    ∃ F, E.unify (.var 1) (.atom "x") = some F ∧
      (Family.eddsa.verify accepted provider ⟨1⟩ E).result = .ok true ∧
      (Family.eddsa.verify accepted provider ⟨1⟩ F).answer =
        (Family.eddsa.verify accepted provider ⟨1⟩ E).answer ∧
      (Family.eddsa.verify refused provider ⟨1⟩ E).result =
        .error ⟨"eddsa_verify/4", .publicKey, .type .byte (.int 300)⟩ ∧
      (Family.eddsa.verify refused provider ⟨1⟩ F).answer =
        (Family.eddsa.verify refused provider ⟨1⟩ E).answer := by
  intro E options accepted refused provider
  obtain ⟨F, hF, -⟩ := Env.exists_of_unify? (E := E) (a := .var 1) (b := .atom "x") (by cbv)
  have hlater : E.Later F := Env.Later.refl.unify hF
  have hwalk : E.walk defaultListLimit defaultListLimit options =
      ([.compound "type" [.atom "ed25519"], .compound "encoding" [.atom "hex"]],
        some (.instantiation (.var 1))) := by
    rw [defaultListLimit, Env.walk_cons (E.resolve_cons ..), Env.walk_cons (E.resolve_cons ..),
      Env.walk_var (Env.resolve_of_unbound rfl), Env.resolve_compound, Env.resolve_compound]
  have htype : Options.Names "type" options (.atom Family.eddsa.default.name) E
      Algorithm.ed25519.name := by
    refine ⟨.atom "ed25519", ?_, E.resolve_atom _⟩
    rw [Options.result_get, hwalk]
    rfl
  have hencoding : Options.Names "encoding" options (.atom Encoding.hex.name) E
      Encoding.hex.name := by
    refine ⟨.atom "hex", ?_, E.resolve_atom _⟩
    rw [Options.result_get, hwalk]
    rfl
  have haccepts : Accepts .eddsa accepted ⟨1⟩ E .ed25519 [7] [] [] :=
    ⟨by simp [eddsa], htype, Codec.decode_octet_ok_iff.mpr ⟨rfl, by decide⟩,
      ⟨.hex, hencoding, by rw [Codec.decode_hex]; cbv⟩,
      Codec.decode_octet_ok_iff.mpr ⟨rfl, by decide⟩⟩
  have hok : (Family.eddsa.verify accepted provider ⟨1⟩ E).result = .ok true :=
    congrArg Prod.snd (answer_of_accepts haccepts)
  have hfault : FirstFault .eddsa refused ⟨1⟩ E .publicKey (.type .byte (.int 300)) := by
    refine .publicKey (algorithmOf_ok_iff.mpr ⟨haccepts.member, htype⟩) ?_
    simp only [refused, eddsa, Codec.decode, E.resolve_cons]
    change Codec.octets ⟨1⟩ (.cons (.int 300) (.var 1)) E = _
    rw [Codec.octets_eq_gather, Env.walk_cons (E.resolve_cons ..), Codec.gather_cons,
      E.resolve_int]
    rfl
  have hbad : (Family.eddsa.verify refused provider ⟨1⟩ E).result =
      .error ⟨"eddsa_verify/4", .publicKey, .type .byte (.int 300)⟩ :=
    congrArg Prod.snd (answer_of_fault hfault)
  exact ⟨F, hF, hok, (verify_later hlater .eddsa accepted provider ⟨1⟩).1 true hok, hbad,
    (verify_later hlater .eddsa refused provider ⟨1⟩).2 _ hbad (by simp [ErrorKind.culprit?])⟩

end Family

end Signet
