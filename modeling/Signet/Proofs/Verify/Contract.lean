import Mathlib
import Signet.Predicates
import Signet.Proofs.Codec.Bound
import Signet.Proofs.Engine.Force
import Signet.Proofs.Options.Names

/-! # The contract of verification

A request either passes every step before the provider, and then the provider is asked one
question, or it has a first fault, and then the provider is asked nothing and the error names
that step. A fault says nothing of the steps behind it, so whatever is wrong there makes no
difference. The goal made of a verification goes on, once and with the bindings it was given,
exactly when the signature verifies. -/
namespace Signet

namespace Traced
variable {ε α β : Type}

/-- All that is left of a computation without its log. -/
def answer (x : Traced ε α) : List Provider.Call × Except ε α := (x.calls, x.result)

/-- A silent step that succeeds is not seen. -/
theorem answer_step {x : Traced ErrorKind α} {a : α} (hx : x.calls = []) (ha : x.result = .ok a)
    (fault : ErrorKind → ε) (f : α → Traced ε β) :
    (x.mapError fault >>= f).answer = (f a).answer := by
  have h : (x.mapError fault).result = .ok a := by rw [result_mapError, ha]; rfl
  simp only [answer, calls_bind_ok h, result_bind_ok h, calls_mapError, hx, List.nil_append]

/-- A silent step that fails is all there is. -/
theorem answer_fault {x : Traced ErrorKind α} {kind : ErrorKind} (hx : x.calls = [])
    (hk : x.result = .error kind) (fault : ErrorKind → ε) (f : α → Traced ε β) :
    (x.mapError fault >>= f).answer = ([], .error (fault kind)) := by
  have h : (x.mapError fault).result = .error (fault kind) := by rw [result_mapError, hk]; rfl
  simp only [answer, calls_bind_error h, result_bind_error h, calls_mapError, hx]

end Traced

theorem Algorithm.name_inj (a b : Algorithm) (h : a.name = b.name) : a = b := by
  cases a <;> cases b <;> simp_all [name]

theorem Codec.calls_decodeBy (codec : Codec) (t options : Term) (E : Env) :
    (codec.decodeBy t options E).calls = [] :=
  Traced.calls_bind (Encoding.calls_ofOptions options E) fun _ => rfl

theorem Codec.decodeBy_of_encoding {codec : Codec} {t options : Term} {E : Env}
    {encoding : Encoding} (h : (Encoding.ofOptions options E).result = .ok encoding) :
    (codec.decodeBy t options E).result = codec.decode t encoding E :=
  Traced.result_bind_ok h _

theorem Codec.decodeBy_of_fault {codec : Codec} {t options : Term} {E : Env} {kind : ErrorKind}
    (h : (Encoding.ofOptions options E).result = .error kind) :
    (codec.decodeBy t options E).result = .error kind :=
  Traced.result_bind_error h _

namespace Family

theorem select_ok_iff {family : Family} {name : String} {algorithm : Algorithm} :
    family.select name = .ok algorithm ↔
      algorithm ∈ family.algorithms ∧ algorithm.name = name := by
  rw [← find?_name_iff Algorithm.name_inj]
  unfold select
  split
  · rename_i h
    simp [h]
  · rename_i h
    simp [h]

theorem calls_algorithmOf (family : Family) (options : Term) (E : Env) :
    (family.algorithmOf options E).calls = [] :=
  Options.calls_named

theorem algorithmOf_ok_iff {family : Family} {options : Term} {E : Env} {algorithm : Algorithm} :
    (family.algorithmOf options E).result = .ok algorithm ↔
      algorithm ∈ family.algorithms ∧
        Options.Names "type" options (.atom family.default.name) E algorithm.name := by
  unfold algorithmOf
  rw [Options.named_ok_iff]
  constructor
  · rintro ⟨name, hname, hselect⟩
    obtain ⟨hmem, rfl⟩ := select_ok_iff.mp hselect
    exact ⟨hmem, hname⟩
  · rintro ⟨hmem, hname⟩
    exact ⟨_, hname, select_ok_iff.mpr ⟨hmem, rfl⟩⟩

/-- What a request comes to when every step before the provider succeeds. -/
structure Accepts (family : Family) (request : Request) (codec : Codec) (E : Env)
    (algorithm : Algorithm) (key data signature : Bytes) : Prop where
  member : algorithm ∈ family.algorithms
  named : Options.Names "type" request.options (.atom family.default.name) E algorithm.name
  key : codec.decode request.key family.keyEncoding E = .ok key
  data : ∃ encoding : Encoding,
    Options.Names "encoding" request.options (.atom Encoding.hex.name) E encoding.name ∧
      codec.decode request.data encoding E = .ok data
  signature : codec.decode request.signature family.signatureEncoding E = .ok signature

/-- The first step of a request that fails, and how. -/
inductive FirstFault (family : Family) (request : Request) (codec : Codec) (E : Env) :
    Stage → ErrorKind → Prop
  | options {kind} : (family.algorithmOf request.options E).result = .error kind →
      FirstFault family request codec E .options kind
  | publicKey {algorithm kind} :
      (family.algorithmOf request.options E).result = .ok algorithm →
      codec.decode request.key family.keyEncoding E = .error kind →
      FirstFault family request codec E .publicKey kind
  | encoding {algorithm key kind} :
      (family.algorithmOf request.options E).result = .ok algorithm →
      codec.decode request.key family.keyEncoding E = .ok key →
      (Encoding.ofOptions request.options E).result = .error kind →
      FirstFault family request codec E .data kind
  | data {algorithm key encoding kind} :
      (family.algorithmOf request.options E).result = .ok algorithm →
      codec.decode request.key family.keyEncoding E = .ok key →
      (Encoding.ofOptions request.options E).result = .ok encoding →
      codec.decode request.data encoding E = .error kind →
      FirstFault family request codec E .data kind
  | signature {algorithm key encoding data kind} :
      (family.algorithmOf request.options E).result = .ok algorithm →
      codec.decode request.key family.keyEncoding E = .ok key →
      (Encoding.ofOptions request.options E).result = .ok encoding →
      codec.decode request.data encoding E = .ok data →
      codec.decode request.signature family.signatureEncoding E = .error kind →
      FirstFault family request codec E .signature kind

variable {family : Family} {request : Request} {codec : Codec} {provider : Provider} {E : Env}

theorem accepts_or_fault (family : Family) (request : Request) (codec : Codec) (E : Env) :
    (∃ algorithm key data signature, Accepts family request codec E algorithm key data signature) ∨
      ∃ stage kind, FirstFault family request codec E stage kind := by
  cases ha : (family.algorithmOf request.options E).result with
  | error kind => exact .inr ⟨_, kind, .options ha⟩
  | ok algorithm =>
  cases hk : codec.decode request.key family.keyEncoding E with
  | error kind => exact .inr ⟨_, kind, .publicKey ha hk⟩
  | ok key =>
  cases he : (Encoding.ofOptions request.options E).result with
  | error kind => exact .inr ⟨_, kind, .encoding ha hk he⟩
  | ok encoding =>
  cases hd : codec.decode request.data encoding E with
  | error kind => exact .inr ⟨_, kind, .data ha hk he hd⟩
  | ok data =>
  cases hs : codec.decode request.signature family.signatureEncoding E with
  | error kind => exact .inr ⟨_, kind, .signature ha hk he hd hs⟩
  | ok signature =>
    obtain ⟨hmem, hname⟩ := algorithmOf_ok_iff.mp ha
    exact .inl ⟨algorithm, key, data, signature, hmem, hname, hk,
      ⟨encoding, Encoding.ofOptions_ok_iff.mp he, hd⟩, hs⟩

theorem answer_check (family : Family) (provider : Provider) (algorithm : Algorithm)
    (key data signature : Bytes) :
    (family.check provider algorithm key data signature).answer =
      ([.verify algorithm key data signature],
        (provider.verify algorithm key data signature).mapError
          fun e => ⟨family.functor, .verify, .provider e⟩) := by
  unfold check
  cases provider.verify algorithm key data signature <;> rfl

theorem answer_of_accepts {algorithm : Algorithm} {key data signature : Bytes}
    (h : Accepts family request codec E algorithm key data signature) :
    (family.verify request provider codec E).answer =
      ([.verify algorithm key data signature],
        (provider.verify algorithm key data signature).mapError
          fun e => ⟨family.functor, .verify, .provider e⟩) := by
  obtain ⟨hmem, hname, hk, ⟨encoding, he, hd⟩, hs⟩ := h
  have ha := algorithmOf_ok_iff.mpr ⟨hmem, hname⟩
  rw [← Encoding.ofOptions_ok_iff] at he
  rw [← Codec.decodeBy_of_encoding he] at hd
  unfold verify
  dsimp only
  rw [Traced.answer_step (calls_algorithmOf ..) ha, Traced.answer_step rfl hk,
    Traced.answer_step (Codec.calls_decodeBy ..) hd, Traced.answer_step rfl hs, answer_check]

theorem answer_of_fault {stage : Stage} {kind : ErrorKind}
    (h : FirstFault family request codec E stage kind) :
    (family.verify request provider codec E).answer =
      ([], .error ⟨family.functor, stage, kind⟩) := by
  unfold verify
  dsimp only
  cases h with
  | options ha => rw [Traced.answer_fault (calls_algorithmOf ..) ha]
  | publicKey ha hk =>
    rw [Traced.answer_step (calls_algorithmOf ..) ha, Traced.answer_fault rfl hk]
  | encoding ha hk he =>
    rw [Traced.answer_step (calls_algorithmOf ..) ha, Traced.answer_step rfl hk,
      Traced.answer_fault (Codec.calls_decodeBy ..) (Codec.decodeBy_of_fault he)]
  | data ha hk he hd =>
    rw [← Codec.decodeBy_of_encoding he] at hd
    rw [Traced.answer_step (calls_algorithmOf ..) ha, Traced.answer_step rfl hk,
      Traced.answer_fault (Codec.calls_decodeBy ..) hd]
  | signature ha hk he hd hs =>
    rw [← Codec.decodeBy_of_encoding he] at hd
    rw [Traced.answer_step (calls_algorithmOf ..) ha, Traced.answer_step rfl hk,
      Traced.answer_step (Codec.calls_decodeBy ..) hd, Traced.answer_fault rfl hs]

theorem Accepts.length_le {algorithm : Algorithm} {key data signature : Bytes}
    (h : Accepts family request codec E algorithm key data signature) :
    key.length ≤ codec.maxBytes ∧ data.length ≤ codec.maxBytes ∧
      signature.length ≤ codec.maxBytes := by
  obtain ⟨_, _, hk, ⟨_, _, hd⟩, hs⟩ := h
  exact ⟨Codec.length_decode_le hk, Codec.length_decode_le hd, Codec.length_decode_le hs⟩

theorem force_verifies (family : Family) (request : Request) (preds : Predicates) (E : Env)
    (cont : Engine.Cont) (r : Engine.Run) (hr : r.context.interruption = none) :
    (Engine.suspend (preds.verifies family request) cont E).force r =
      match (family.verify request preds.provider preds.codec E).result with
      | .ok true =>
        (cont E).force (r.after (family.verify request preds.provider preds.codec E).acts)
      | .ok false =>
        (.ok false, r.after (family.verify request preds.provider preds.codec E).acts)
      | .error e =>
        (.error (.predicate e), r.after (family.verify request preds.provider preds.codec E).acts) := by
  rw [Engine.force_suspend, hr]
  unfold Predicates.verifies
  cases h : (family.verify request preds.provider preds.codec E).result with
  | error e => simp only [Traced.bind_error h]
  | ok verified =>
    rw [Traced.bind_ok h]
    cases verified <;> simp [pure]

/-- The provider is asked at most one question. It is asked exactly when the type names a member
and all material decodes; then its answer is the result. Otherwise the error names the predicate
and the first step that failed. A goal made of the verification goes on exactly when the
signature verifies, with the bindings unchanged. -/
theorem verify_contract (family : Family) (request : Request) (preds : Predicates) (E : Env) :
    (∀ algorithm key data signature,
      Accepts family request preds.codec E algorithm key data signature →
        (family.verify request preds.provider preds.codec E).answer =
          ([.verify algorithm key data signature],
            (preds.provider.verify algorithm key data signature).mapError
              fun e => ⟨family.functor, .verify, .provider e⟩) ∧
        key.length ≤ preds.codec.maxBytes ∧ data.length ≤ preds.codec.maxBytes ∧
          signature.length ≤ preds.codec.maxBytes) ∧
      ((¬ ∃ algorithm key data signature,
          Accepts family request preds.codec E algorithm key data signature) →
        ∃ stage kind, FirstFault family request preds.codec E stage kind ∧
          (family.verify request preds.provider preds.codec E).answer =
            ([], .error ⟨family.functor, stage, kind⟩)) ∧
      ∀ (cont : Engine.Cont) (r : Engine.Run), r.context.interruption = none →
        (Engine.suspend (preds.verifies family request) cont E).force r =
          match (family.verify request preds.provider preds.codec E).result with
          | .ok true =>
            (cont E).force (r.after (family.verify request preds.provider preds.codec E).acts)
          | .ok false =>
            (.ok false, r.after (family.verify request preds.provider preds.codec E).acts)
          | .error e => (.error (.predicate e),
            r.after (family.verify request preds.provider preds.codec E).acts) := by
  refine ⟨?_, ?_, force_verifies family request preds E⟩
  · intro algorithm key data signature h
    exact ⟨answer_of_accepts h, h.length_le⟩
  · intro hnone
    obtain ⟨stage, kind, hfault⟩ := (accepts_or_fault family request preds.codec E).resolve_left hnone
    exact ⟨stage, kind, hfault, answer_of_fault hfault⟩

/-- A key of one byte behind a binding, at a limit of one byte. -/
theorem eddsa_asks_once :
    let E : Env := ⟨[(0, .cons (.int 7) .nil)], trivial, rfl, by decide⟩
    let request : Request := ⟨.var 0, .atom "0A", .nil, .nil⟩
    let preds : Predicates := ⟨.constant (.ok true), ⟨1⟩⟩
    Accepts .eddsa request preds.codec E .ed25519 [7] [10] [] ∧
      (Family.eddsa.verify request preds.provider preds.codec E).answer =
        ([.verify .ed25519 [7] [10] []], .ok true) := by
  intro E request preds
  have hkey : E.resolve (.var 0) = .cons (.int 7) .nil := by
    rw [Env.resolve_of_lookup (s := .cons (.int 7) .nil) rfl]
    exact Env.resolve_compound ..
  have hnext : (Cursor.start (.cons (.int 7) .nil) 1).next? E =
      some (.ok (.int 7), ⟨some .nil, 1, 0⟩) := by simp [Cursor.next?, Cursor.start, Term.cons]
  have hend : (⟨some .nil, 1, 0⟩ : Cursor).next? E = none := by simp [Cursor.next?, Term.nil]
  have hitems : E.items 1 (.cons (.int 7) .nil) = ([.int 7], none) := by
    rw [Env.items, Cursor.drain_of_ok hnext, Cursor.drain_of_none hend]
    rfl
  have accepts : Accepts .eddsa request preds.codec E .ed25519 [7] [10] [] := by
    refine ⟨by simp [eddsa], Options.names_default .., ?_, ⟨.hex, Options.names_default .., ?_⟩, ?_⟩
    · simp only [request, preds, eddsa, Codec.decode, hkey, Codec.octets, hitems]
      rfl
    · simp only [request, preds, Codec.decode, Env.resolve_atom]
      cbv
    · simp only [request, preds, eddsa, Codec.decode, Term.nil, Env.resolve_atom, Codec.octets]
      rw [show E.items 1 (.atom "[]") = ([], none) from E.items_nil 1]
      rfl
  exact ⟨accepts, ((verify_contract .eddsa request preds E).1 _ _ _ _ accepts).1⟩

end Family

end Signet
