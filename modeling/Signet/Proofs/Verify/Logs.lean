import Signet.Predicates
import Signet.Proofs.Codec.Bound
import Signet.Proofs.Options.Names
import Signet.Proofs.Verify.Encodings

/-! # What the log shows

Material that has been decoded is logged by its length only. The log of a verification is written
down from the options, the three lengths and the verdict of the provider (`Family.log`), and the
verification is shown to leave just this log; so two verifications that agree in these leave one and
the same, whatever the bytes. The log of a digest is written down from the length of the text. -/
namespace Signet

def Act.event? : Act → Option Log.Event
  | .event e => some e
  | .call _ => none

namespace Traced
variable {ε δ α β : Type}

/-- The log, in order. -/
def events (x : Traced ε α) : List Log.Event := x.acts.filterMap Act.event?

theorem events_step {x : Traced ε α} {a : α} (ha : x.result = .ok a) (fault : ε → δ)
    (f : α → Traced δ β) : (x.mapError fault >>= f).events = x.events ++ (f a).events := by
  have h : (x.mapError fault).result = .ok a := by rw [result_mapError, ha]; rfl
  rw [bind_ok h]
  exact List.filterMap_append

theorem events_fault {x : Traced ε α} {e : ε} (he : x.result = .error e) (fault : ε → δ)
    (f : α → Traced δ β) : (x.mapError fault >>= f).events = x.events := by
  have h : (x.mapError fault).result = .error (fault e) := by rw [result_mapError, he]; rfl
  rw [bind_error h]
  rfl

@[simp] theorem events_lift (r : Except ε α) : (lift r).events = [] := rfl

end Traced

namespace Provider

/-- What a provider says to a question. -/
inductive Reply where
  | digest (digest : Digest)
  | verdict (verdict : Except CryptoError Bool)

def reply (provider : Provider) : Call → Reply
  | .hash data => .digest (provider.hash data)
  | .verify algorithm key data signature => .verdict (provider.verify algorithm key data signature)

end Provider

namespace Codec
variable {codec : Codec} {t options : Term} {E : Env} {bytes : Bytes}

theorem decodeBy_ok_iff :
    (codec.decodeBy t options E).result = .ok bytes ↔
      ∃ encoding, (Encoding.ofOptions options E).result = .ok encoding ∧
        codec.decode t encoding E = .ok bytes := by
  cases h : (Encoding.ofOptions options E).result with
  | error kind => simp [decodeBy_of_fault h]
  | ok encoding => simp [decodeBy_of_encoding h]

/-- Reading logs nothing but the options that name the encoding. -/
theorem events_decodeBy (codec : Codec) (t options : Term) (E : Env) :
    (codec.decodeBy t options E).events = (Encoding.ofOptions options E).events := by
  unfold decodeBy
  cases h : (Encoding.ofOptions options E).result with
  | error kind => rw [Traced.bind_error h]; rfl
  | ok encoding =>
    rw [Traced.bind_ok h]
    exact congrArg (List.filterMap Act.event?) (List.append_nil _)

end Codec

namespace Family
variable {family : Family} {request : Request} {codec : Codec} {E : Env}
  {key data signature : Bytes}

/-- All material of a request decodes, to these byte strings. -/
structure Decodes (family : Family) (request : Request) (codec : Codec) (E : Env)
    (key data signature : Bytes) : Prop where
  key : codec.decode request.key family.keyEncoding E = .ok key
  data : (codec.decodeBy request.data request.options E).result = .ok data
  signature : codec.decode request.signature family.signatureEncoding E = .ok signature

theorem Decodes.accepts {algorithm : Algorithm} (h : Decodes family request codec E key data signature)
    (ha : (family.algorithmOf request.options E).result = .ok algorithm) :
    Accepts family request codec E algorithm key data signature := by
  obtain ⟨hmem, hname⟩ := algorithmOf_ok_iff.mp ha
  obtain ⟨encoding, hencoding, hdata⟩ := Codec.decodeBy_ok_iff.mp h.data
  exact ⟨hmem, hname, h.key, ⟨encoding, Encoding.ofOptions_ok_iff.mp hencoding, hdata⟩, h.signature⟩

/-- The log of putting material of these lengths to a provider that gives this verdict. -/
def checkLog (family : Family) (algorithm : Algorithm) (key data signature : Nat)
    (verdict : Except CryptoError Bool) : List Log.Event :=
  let event (level : Log.Level) (message : String) (fields : List (String × Log.Value)) : Log.Event :=
    { level, target := "termcrypt_logic::verify", message, fields }
  [event .debug "verifying signature" [
      ("predicate", .text family.functor), ("algorithm", .text algorithm.name),
      ("key_len", .count key), ("data_len", .count data), ("signature_len", .count signature)],
    match verdict with
    | .ok verified => event .debug "signature checked" [
        ("predicate", .text family.functor), ("verified", .flag verified)]
    | .error e => event .warn (family.functor ++ ": provider rejected inputs: " ++ e.message) []]

/-- The log of a verification with these options, of material of these lengths. -/
def log (family : Family) (options : Term) (E : Env) (key data signature : Nat)
    (verdict : Algorithm → Except CryptoError Bool) : List Log.Event :=
  (family.algorithmOf options E).events ++
    match (family.algorithmOf options E).result with
    | .error _ => []
    | .ok algorithm => (Encoding.ofOptions options E).events ++
        family.checkLog algorithm key data signature (verdict algorithm)

theorem events_check (family : Family) (provider : Provider) (algorithm : Algorithm)
    (key data signature : Bytes) :
    (family.check provider algorithm key data signature).events =
      family.checkLog algorithm key.length data.length signature.length
        (provider.verify algorithm key data signature) := by
  unfold check checkLog
  cases provider.verify algorithm key data signature <;> rfl

theorem events_verify (h : Decodes family request codec E key data signature) (provider : Provider) :
    (family.verify request provider codec E).events =
      family.log request.options E key.length data.length signature.length
        fun algorithm => provider.verify algorithm key data signature := by
  have hkey : (Traced.lift (codec.decode request.key family.keyEncoding E)).result = .ok key := h.key
  have hsignature :
      (Traced.lift (codec.decode request.signature family.signatureEncoding E)).result =
        .ok signature := h.signature
  unfold verify log
  dsimp only
  cases ha : (family.algorithmOf request.options E).result with
  | error kind => rw [Traced.events_fault ha, List.append_nil]
  | ok algorithm =>
    rw [Traced.events_step ha, Traced.events_step hkey, Traced.events_step h.data,
      Traced.events_step hsignature, Traced.events_lift, Traced.events_lift, Codec.events_decodeBy,
      events_check]
    rfl

/-- The one question of a verification, if the options name an algorithm. -/
theorem calls_verify (h : Decodes family request codec E key data signature) (provider : Provider) :
    (family.verify request provider codec E).calls =
      match (family.algorithmOf request.options E).result with
      | .error _ => []
      | .ok algorithm => [.verify algorithm key data signature] := by
  cases ha : (family.algorithmOf request.options E).result with
  | error kind => exact congrArg Prod.fst (answer_of_fault (.options ha))
  | ok algorithm => exact congrArg Prod.fst (answer_of_accepts (h.accepts ha))

/-- The verdict is logged for the algorithm that is asked about, and for no other. -/
theorem log_congr (options : Term) (E : Env) (k d s : Nat)
    {verdict verdict' : Algorithm → Except CryptoError Bool}
    (h : ∀ algorithm, (family.algorithmOf options E).result = .ok algorithm →
      verdict algorithm = verdict' algorithm) :
    family.log options E k d s verdict = family.log options E k d s verdict' := by
  unfold log
  cases ha : (family.algorithmOf options E).result with
  | error kind => rfl
  | ok algorithm => simp only [h algorithm ha]

end Family

namespace Predicates

/-- The log of hashing a text of so many bytes. -/
def hashLog (size : Nat) : List Log.Event := [{
  level := .debug
  target := "termcrypt_logic::predicates"
  message := "sha_hash/2: hashed " ++ toString size ++ " bytes"
  fields := [] }]

theorem events_shaHash {data : Term} {E : Env} {text : String} (h : E.resolve data = .atom text)
    (preds : Predicates) (hash : Term) :
    (preds.shaHash data hash E).events = hashLog text.utf8ByteSize := by
  unfold shaHash
  rw [Env.atomName_ok_iff.mpr h, ← length_utf8]
  rfl

end Predicates

/-- Two verifications with the same options in one environment, whose keys, data and signatures decode
to byte strings of equal lengths and whose providers give equal replies, leave the same log. So do
the digests of any two texts of equal length, whatever the digests are and are unified with. -/
theorem logs_reveal_lengths :
    (∀ (family : Family) (codec : Codec) (E : Env) (options : Term) (request request' : Request)
        (provider provider' : Provider) (key data signature key' data' signature' : Bytes),
      request.options = options → request'.options = options →
      family.Decodes request codec E key data signature →
      family.Decodes request' codec E key' data' signature' →
      key.length = key'.length → data.length = data'.length →
      signature.length = signature'.length →
      (family.verify request provider codec E).calls.map provider.reply =
        (family.verify request' provider' codec E).calls.map provider'.reply →
      (family.verify request provider codec E).events =
        (family.verify request' provider' codec E).events) ∧
      ∀ (preds preds' : Predicates) (data data' hash hash' : Term) (E E' : Env)
        (text text' : String),
        E.resolve data = .atom text → E'.resolve data' = .atom text' →
        text.utf8ByteSize = text'.utf8ByteSize →
        (preds.shaHash data hash E).events = (preds'.shaHash data' hash' E').events := by
  refine ⟨?_, ?_⟩
  · intro family codec E options request request' provider provider' key data signature key' data'
      signature' ho ho' h h' hkey hdata hsignature hreplies
    rw [Family.events_verify h, Family.events_verify h', ho, ho', hkey, hdata, hsignature]
    refine Family.log_congr _ _ _ _ _ ?_
    intro algorithm ha
    rw [Family.calls_verify h, Family.calls_verify h', ho, ho', ha] at hreplies
    simpa [Provider.reply] using hreplies
  · intro preds preds' data data' hash hash' E E' text text' h h' hsize
    rw [Predicates.events_shaHash h, Predicates.events_shaHash h', hsize]

/-- Two keys of one byte, one of them behind a binding, and two providers that accept different keys.
The two texts have one letter and two, but two bytes each. -/
theorem logs_reveal_lengths_of_two_keys :
    let E : Env := ⟨[(0, .ofBytes [7])], trivial, rfl, by decide⟩
    let options : Term := .cons Encoding.octet.entry .nil
    let request : Request := ⟨.var 0, .ofBytes [10], .ofBytes [1, 2], options⟩
    let request' : Request := ⟨.ofBytes [9], .ofBytes [255], .ofBytes [3, 4], options⟩
    let accepting (key : Bytes) : Provider :=
      ⟨fun _ => Vector.replicate 32 0, fun _ k _ _ => .ok (k == key)⟩
    Family.eddsa.Decodes request ⟨2⟩ E [7] [10] [1, 2] ∧
      Family.eddsa.Decodes request' ⟨2⟩ E [9] [255] [3, 4] ∧
      (Family.eddsa.verify request (accepting [7]) ⟨2⟩ E).events =
        (Family.eddsa.verify request' (accepting [9]) ⟨2⟩ E).events ∧
      (Predicates.shaHash ⟨accepting [7], ⟨2⟩⟩ (.atom "ab") (.var 1) E).events =
        (Predicates.shaHash ⟨accepting [9], ⟨8⟩⟩ (.atom "é") .nil .empty).events := by
  intro E options request request' accepting
  have hground : ∀ bytes : Bytes, bytes.length ≤ 2 →
      (⟨2⟩ : Codec).decode (.ofBytes bytes) .octet E = .ok bytes := by
    intro bytes hlen
    rw [Codec.decode_ofBytes, if_pos hlen]
  have hbound : (⟨2⟩ : Codec).decode (.var 0) .octet E = .ok [7] := by
    refine Codec.decode_octet_ok_iff.mpr ⟨?_, by decide⟩
    rw [Env.apply_of_lookup (s := .ofBytes [7]) rfl, E.apply_of_ground (Term.vars_ofBytes _)]
  have hdata : ∀ bytes : Bytes, bytes.length ≤ 2 →
      ((⟨2⟩ : Codec).decodeBy (.ofBytes bytes) options E).result = .ok bytes := by
    intro bytes hlen
    rw [Codec.decodeBy_entry, hground bytes hlen]
  have h : Family.eddsa.Decodes request ⟨2⟩ E [7] [10] [1, 2] :=
    ⟨hbound, hdata _ (by decide), hground _ (by decide)⟩
  have h' : Family.eddsa.Decodes request' ⟨2⟩ E [9] [255] [3, 4] :=
    ⟨hground _ (by decide), hdata _ (by decide), hground _ (by decide)⟩
  have hreplies : (Family.eddsa.verify request (accepting [7]) ⟨2⟩ E).calls.map (accepting [7]).reply =
      (Family.eddsa.verify request' (accepting [9]) ⟨2⟩ E).calls.map (accepting [9]).reply := by
    rw [Family.calls_verify h, Family.calls_verify h']
    cases (Family.eddsa.algorithmOf options E).result <;> rfl
  obtain ⟨hverify, hhash⟩ := logs_reveal_lengths
  exact ⟨h, h',
    hverify .eddsa ⟨2⟩ E options request request' _ _ _ _ _ _ _ _ rfl rfl h h' rfl rfl rfl hreplies,
    hhash _ _ _ _ _ _ E .empty "ab" "é" (E.resolve_atom _) (Env.resolve_atom _ _) (by decide)⟩

end Signet
