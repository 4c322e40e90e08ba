import Signet.Proofs.Codec.HexText
import Signet.Proofs.Codec.Readings
import Signet.Proofs.Options.Scan
import Signet.Proofs.Verify.Contract

/-! # The two ways of writing the data

Data may be written as digits or as a list of octets, and the first option says which. Both are
read as the same bytes, by two checks of one limit, so the way of writing shows only where the
bytes are too many; and as an entry that names another option is passed over, the options behind
it are read alike. A verification sees no more of a request than what its steps read. -/
namespace Signet

/-- The option that names the encoding. -/
def Encoding.entry (encoding : Encoding) : Term := .compound "encoding" [.atom encoding.name]

namespace Options
variable {key f : String} {args : List Term} {rest default : Term} {E : Env}

theorem get_cons_self (value : Term) :
    (get key (.cons (.compound key [value]) rest) default E).result = .ok value := by
  rw [result_get, defaultListLimit, Env.walk_cons (E.resolve_cons ..), Env.resolve_compound,
    scan_value]

/-- An entry with another functor takes up one cell of the list and is passed over. -/
theorem get_cons_of_ne (h : f ≠ key) :
    (get key (.cons (.compound f args) rest) default E).result =
      scan key default (E.walk defaultListLimit (defaultListLimit - 1) rest) := by
  rw [result_get, defaultListLimit, Env.walk_cons (E.resolve_cons ..), Env.resolve_compound,
    scan_skip args h]

theorem named_congr {α : Type} {member : String → Except ErrorKind α} {options options' : Term}
    (h : (get key options default E).result = (get key options' default E).result) :
    (named key options default E member).result = (named key options' default E member).result := by
  unfold named
  rw [Traced.result_bind, h, ← Traced.result_bind]

end Options

theorem Encoding.ofOptions_entry (encoding : Encoding) (rest : Term) (E : Env) :
    (ofOptions (.cons encoding.entry rest) E).result = .ok encoding := by
  rw [ofOptions_ok_iff]
  exact ⟨.atom encoding.name, Options.get_cons_self _, E.resolve_atom _⟩

namespace Codec
variable {codec : Codec} {E : Env} {bytes : Bytes}

theorem gather_walk_ofBytes_of_lt {limit left : Nat} (h : left < bytes.length) :
    gather (E.walk limit left (.ofBytes bytes)) = .error (.resource "list length" limit) := by
  induction bytes generalizing left with
  | nil => cases h
  | cons b bytes ih =>
    rw [Term.ofBytes_cons]
    cases left with
    | zero => rw [Env.walk_full (E.resolve_cons ..), gather_stop]; rfl
    | succ left =>
      have hbyte : Term.byte (E.resolve (.int (Int64.ofNat b.toNat))) = .ok b := by
        rw [Env.resolve_int, Term.byte_ok_iff]
      rw [Env.walk_cons (E.resolve_cons ..), gather_cons, hbyte, ih (Nat.lt_of_succ_lt_succ h)]
      rfl

theorem decode_ofBytes (codec : Codec) (E : Env) (bytes : Bytes) :
    codec.decode (.ofBytes bytes) .octet E =
      if bytes.length ≤ codec.maxBytes then .ok bytes
      else .error (.resource "list length" codec.maxBytes) := by
  have happly : E.apply (.ofBytes bytes) = .ofBytes bytes :=
    E.apply_of_ground (Term.vars_ofBytes bytes)
  by_cases hlen : bytes.length ≤ codec.maxBytes
  · rw [if_pos hlen]
    exact decode_octet_ok_iff.mpr ⟨happly, hlen⟩
  · have hres : E.resolve (.ofBytes bytes) = .ofBytes bytes := by
      cases bytes with
      | nil => exact E.resolve_atom _
      | cons b bytes => exact E.resolve_cons ..
    rw [if_neg hlen, decode, hres, if_pos (Term.isListLike_ofBytes bytes), octets_eq_gather]
    exact gather_walk_ofBytes_of_lt (Nat.lt_of_not_le hlen)

theorem decode_of_spells {text : String} (h : Hex.Spells text bytes) (codec : Codec) (E : Env) :
    codec.decode (.atom text) .hex E =
      if bytes.length ≤ codec.maxBytes then .ok bytes
      else .error (.resource "byte length" codec.maxBytes) := by
  rw [decode_hex, Env.atomName_ok_iff.mpr (E.resolve_atom text)]
  show codec.hexDigits text = _
  by_cases hlen : bytes.length ≤ codec.maxBytes
  · rw [if_pos hlen]
    exact hexDigits_ok_iff.mpr ⟨h, hlen⟩
  · have hsize := Hex.length_decode (Hex.decode_utf8_ok_iff.mpr h)
    rw [length_utf8] at hsize
    rw [if_neg hlen, hexDigits, if_pos (by omega)]

theorem decodeBy_entry (codec : Codec) (t : Term) (encoding : Encoding) (rest : Term) (E : Env) :
    (codec.decodeBy t (.cons encoding.entry rest) E).result = codec.decode t encoding E :=
  decodeBy_of_encoding (Encoding.ofOptions_entry encoding rest E)

end Codec

/-- A silent step counts by its result alone. -/
theorem Traced.answer_congr {ε α β : Type} {x y : Traced ErrorKind α} (hx : x.calls = [])
    (hy : y.calls = []) (h : x.result = y.result) (fault : ErrorKind → ε)
    {f g : α → Traced ε β} (hfg : ∀ a, (f a).answer = (g a).answer) :
    (x.mapError fault >>= f).answer = (y.mapError fault >>= g).answer := by
  cases hr : x.result with
  | error kind => rw [answer_fault hx hr, answer_fault hy (h ▸ hr)]
  | ok a => rw [answer_step hx hr, answer_step hy (h ▸ hr), hfg a]

namespace Family
variable {family : Family} {codec : Codec} {E : Env}

theorem algorithmOf_entry (family : Family) (encoding encoding' : Encoding) (rest : Term) (E : Env) :
    (family.algorithmOf (.cons encoding.entry rest) E).result =
      (family.algorithmOf (.cons encoding'.entry rest) E).result := by
  have hne : "encoding" ≠ "type" := by decide
  refine Options.named_congr ?_
  rw [Encoding.entry, Encoding.entry, Options.get_cons_of_ne hne, Options.get_cons_of_ne hne]

/-- Requests whose steps read alike are answered alike. -/
theorem answer_congr {request request' : Request} (provider : Provider)
    (halgorithm : (family.algorithmOf request.options E).result =
      (family.algorithmOf request'.options E).result)
    (hkey : codec.decode request.key family.keyEncoding E =
      codec.decode request'.key family.keyEncoding E)
    (hdata : (codec.decodeBy request.data request.options E).result =
      (codec.decodeBy request'.data request'.options E).result)
    (hsignature : codec.decode request.signature family.signatureEncoding E =
      codec.decode request'.signature family.signatureEncoding E) :
    (family.verify request provider codec E).answer =
      (family.verify request' provider codec E).answer := by
  unfold verify
  rw [hkey, hsignature]
  refine Traced.answer_congr (calls_algorithmOf ..) (calls_algorithmOf ..) halgorithm _ ?_
  intro algorithm
  refine Traced.answer_congr rfl rfl rfl _ ?_
  intro key
  refine Traced.answer_congr (Codec.calls_decodeBy ..) (Codec.calls_decodeBy ..) hdata _ ?_
  intro data
  rfl

/-- Whether the bytes of the data are written as digits or as a list, the provider is asked the
same and the result is the same. Only bytes beyond the limit show how they were written: if the
steps before the data succeed, the name of the exhausted resource tells. -/
theorem verify_encodings (family : Family) (provider : Provider) (codec : Codec) (E : Env)
    (key signature rest : Term) {text : String} {bytes : Bytes} (h : Hex.Spells text bytes) :
    let digits : Request := ⟨key, .atom text, signature, .cons Encoding.hex.entry rest⟩
    let octets : Request := ⟨key, .ofBytes bytes, signature, .cons Encoding.octet.entry rest⟩
    let reached : Prop :=
      (∃ algorithm, (family.algorithmOf digits.options E).result = .ok algorithm) ∧
        ∃ read, codec.decode key family.keyEncoding E = .ok read
    (bytes.length ≤ codec.maxBytes ∨ ¬ reached →
      (family.verify digits provider codec E).answer =
        (family.verify octets provider codec E).answer) ∧
      (codec.maxBytes < bytes.length → reached →
        (family.verify digits provider codec E).answer =
            ([], .error ⟨family.functor, .data, .resource "byte length" codec.maxBytes⟩) ∧
          (family.verify octets provider codec E).answer =
            ([], .error ⟨family.functor, .data, .resource "list length" codec.maxBytes⟩)) := by
  intro digits octets reached
  have halgorithm : (family.algorithmOf digits.options E).result =
      (family.algorithmOf octets.options E).result :=
    family.algorithmOf_entry .hex .octet rest E
  have hdigits := codec.decode_of_spells h E
  have hoctets := codec.decode_ofBytes E bytes
  refine ⟨?_, ?_⟩
  · intro hor
    by_cases hreached : reached
    · have hlen := hor.resolve_right (not_not_intro hreached)
      refine answer_congr provider halgorithm rfl ?_ rfl
      rw [Codec.decodeBy_entry, Codec.decodeBy_entry, hdigits, hoctets, if_pos hlen, if_pos hlen]
    · cases ha : (family.algorithmOf digits.options E).result with
      | error kind => rw [answer_of_fault (.options ha), answer_of_fault (.options (halgorithm ▸ ha))]
      | ok algorithm =>
        cases hk : codec.decode key family.keyEncoding E with
        | error kind =>
          rw [answer_of_fault (.publicKey ha hk), answer_of_fault (.publicKey (halgorithm ▸ ha) hk)]
        | ok read => exact absurd ⟨⟨algorithm, ha⟩, read, hk⟩ hreached
  · intro hlen hreached
    obtain ⟨⟨algorithm, ha⟩, read, hk⟩ := hreached
    rw [if_neg (Nat.not_le_of_lt hlen)] at hdigits hoctets
    exact ⟨answer_of_fault (.data ha hk (Encoding.ofOptions_entry ..) hdigits),
      answer_of_fault (.data (halgorithm ▸ ha) hk (Encoding.ofOptions_entry ..) hoctets)⟩

/-- Digits of both cases, at a limit that the data meets and at one that it exceeds by one. -/
theorem verify_encodings_mixed_case :
    let key : Term := .ofBytes [7]
    let digits : Request := ⟨key, .atom "cAFe", .nil, .cons Encoding.hex.entry .nil⟩
    let octets : Request := ⟨key, .ofBytes [202, 254], .nil, .cons Encoding.octet.entry .nil⟩
    let provider : Provider := .constant (.ok true)
    Hex.Spells "cAFe" [202, 254] ∧
      (Family.eddsa.verify digits provider ⟨2⟩ .empty).answer =
        (Family.eddsa.verify octets provider ⟨2⟩ .empty).answer ∧
      (Family.eddsa.verify digits provider ⟨1⟩ .empty).answer =
        ([], .error ⟨"eddsa_verify/4", .data, .resource "byte length" 1⟩) ∧
      (Family.eddsa.verify octets provider ⟨1⟩ .empty).answer =
        ([], .error ⟨"eddsa_verify/4", .data, .resource "list length" 1⟩) := by
  intro key digits octets provider
  have hspells : Hex.Spells "cAFe" [202, 254] := by
    show String.map Hex.lower "cAFe" = Hex.encode [202, 254]
    cbv
  have halgorithm : (Family.eddsa.algorithmOf digits.options .empty).result = .ok .ed25519 := by
    have hend : Env.empty.resolve .nil = .nil := Env.resolve_atom ..
    refine algorithmOf_ok_iff.mpr ⟨by decide, .atom "ed25519", ?_, Env.resolve_atom ..⟩
    show (Options.get "type" (.cons Encoding.hex.entry .nil) _ Env.empty).result = _
    rw [Encoding.entry, Options.get_cons_of_ne (by decide), Env.walk_nil hend]
    rfl
  have hkey : (⟨1⟩ : Codec).decode key .octet .empty = .ok [7] := Codec.decode_ofBytes ⟨1⟩ _ [7]
  have hfits := verify_encodings .eddsa provider ⟨2⟩ .empty key .nil .nil hspells
  have hexceeds := verify_encodings .eddsa provider ⟨1⟩ .empty key .nil .nil hspells
  exact ⟨hspells, hfits.1 (.inl (by decide)),
    hexceeds.2 (by decide) ⟨⟨_, halgorithm⟩, _, hkey⟩⟩

end Family

end Signet
