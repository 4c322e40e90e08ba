import Signet.Proofs.Codec.HexFaults

/-! # What is taken for granted of hexadecimal text

How bytes are written as digits and read from them is somebody else's, and only a few rules of it
are relied on. The functions that run keep these rules and no others do, so that a result about the
codec holds of any reading and writing by the rules. -/
namespace Signet

namespace Hex

/-- Writing gives two lowercase digits per byte. Reading works on the bytes of the text in UTF-8: it
refuses an odd number of them, then the first that is no digit, and gives the bytes of anything else,
whose digits may be of either case. -/
structure Rules (write : Bytes → String) (read : String → Except HexError Bytes) : Prop where
  writes (bytes : Bytes) : write bytes =
    String.ofList (bytes.flatMap fun b => [(b.toNat / 16).digitChar, (b.toNat % 16).digitChar])
  odd {text : String} : text.utf8ByteSize % 2 = 1 → read text = .error .oddLength
  firstBad {text : String} {c : UInt8} {index : Nat} : text.utf8ByteSize % 2 = 0 →
    FirstBad (utf8 text) c index → read text = .error (.badDigit c index)
  reads {text : String} {bytes : Bytes} : text.map lower = write bytes → read text = .ok bytes

theorem digit_eq_digitChar {n : UInt8} (h : n.toNat < 16) : digit n = n.toNat.digitChar := by
  have hall : ∀ k : Fin 16, digit (UInt8.ofNat k) = (k : Nat).digitChar := by decide
  simpa using hall ⟨n.toNat, h⟩

theorem encode_eq_digitChars (bytes : Bytes) : encode bytes =
    String.ofList (bytes.flatMap fun b => [(b.toNat / 16).digitChar, (b.toNat % 16).digitChar]) := by
  unfold encode
  congr 2
  funext b
  have hb := b.toNat_lt
  have hhigh : (b / 16).toNat = b.toNat / 16 := UInt8.toNat_div b 16
  have hlow : (b % 16).toNat = b.toNat % 16 := UInt8.toNat_mod b 16
  rw [digit_eq_digitChar (by omega), digit_eq_digitChar (by omega), hhigh, hlow]

theorem rules_encode_decode : Rules encode fun text => decode (utf8 text) where
  writes := encode_eq_digitChars
  odd {text} hodd := decode_error_iff.mpr (.inl ⟨by rwa [length_utf8], rfl⟩)
  firstBad {text c index} heven hbad :=
    decode_error_iff.mpr (.inr ⟨by rwa [length_utf8], c, index, hbad, rfl⟩)
  reads := decode_utf8_ok_iff.mpr

namespace Rules
variable {write : Bytes → String} {read : String → Except HexError Bytes}

theorem write_eq (h : Rules write read) : write = encode := by
  funext bytes
  rw [h.writes, encode_eq_digitChars]

/-- Of each text the rules say what reading it comes to. -/
theorem read_eq (h : Rules write read) (text : String) : read text = decode (utf8 text) := by
  cases hdecode : decode (utf8 text) with
  | ok bytes =>
    refine h.reads ?_
    rw [h.write_eq]
    exact decode_utf8_ok_iff.mp hdecode
  | error e =>
    rw [decode_error_iff, length_utf8] at hdecode
    rcases hdecode with ⟨hodd, rfl⟩ | ⟨heven, c, index, hbad, rfl⟩
    · exact h.odd hodd
    · exact h.firstBad heven hbad

end Rules

end Hex

variable {write : Bytes → String} {read : String → Except HexError Bytes}

theorem Term.ofHex_of_rules (h : Hex.Rules write read) (bytes : Bytes) :
    Term.ofHex bytes = .atom (write bytes) := by
  rw [ofHex, h.write_eq]

/-- The codec with any reading by the rules in place of the one that runs. -/
theorem Codec.hexDigits_of_rules (h : Hex.Rules write read) (codec : Codec) (text : String) :
    codec.hexDigits text =
      if text.utf8ByteSize / 2 > codec.maxBytes then
        .error (.resource "byte length" codec.maxBytes)
      else (read text).mapError (notHex text) := by
  rw [hexDigits, h.read_eq]
  split
  · rfl
  · cases Hex.decode (utf8 text) <;> rfl

end Signet
