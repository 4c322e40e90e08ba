import Signet.Proofs.Codec.HexText

/-! # Texts that spell no bytes

A text is refused for its length before its bytes are looked at, for an odd number of bytes before
any of them is read as a digit, and otherwise for the first byte that is no digit. Bytes are those
of UTF-8, so the length and the place count the bytes of a character, not the character. -/
namespace Signet

namespace Hex

/-- The digits of either case. -/
def digits : Bytes := utf8 "0123456789abcdefABCDEF"

theorem isSome_value?_iff {c : UInt8} : (value? c).isSome ↔ c ∈ digits := by
  have hall : ∀ n : Fin 256, (value? (UInt8.ofFin n)).isSome ↔ UInt8.ofFin n ∈ digits := by
    decide +kernel
  exact hall c.toFin

/-- `c` is the first byte that is no digit, and stands at `index`. -/
def FirstBad (text : Bytes) (c : UInt8) (index : Nat) : Prop :=
  ∃ before behind, text = before ++ c :: behind ∧ before.length = index ∧
    (∀ d ∈ before, d ∈ digits) ∧ c ∉ digits

theorem not_firstBad_nil (c : UInt8) (index : Nat) : ¬ FirstBad [] c index := by
  intro h
  obtain ⟨before, behind, htext, -⟩ := h
  simp at htext

theorem firstBad_cons_of_mem {d : UInt8} (hd : d ∈ digits) {text : Bytes} {c : UInt8}
    {index : Nat} :
    FirstBad (d :: text) c index ↔ ∃ i, index = i + 1 ∧ FirstBad text c i := by
  constructor
  · intro h
    obtain ⟨before, behind, htext, hlen, hbefore, hc⟩ := h
    cases before with
    | nil => exact absurd ((List.cons.inj htext).1 ▸ hd) hc
    | cons b before =>
      exact ⟨before.length, hlen.symm, before, behind, (List.cons.inj htext).2, rfl,
        fun x hx => hbefore x (List.mem_cons_of_mem b hx), hc⟩
  · intro h
    obtain ⟨_, rfl, before, behind, rfl, rfl, hbefore, hc⟩ := h
    exact ⟨d :: before, behind, rfl, rfl, List.forall_mem_cons.mpr ⟨hd, hbefore⟩, hc⟩

theorem firstBad_cons_of_not_mem {d : UInt8} (hd : d ∉ digits) {text : Bytes} {c : UInt8}
    {index : Nat} : FirstBad (d :: text) c index ↔ c = d ∧ index = 0 := by
  constructor
  · intro h
    obtain ⟨before, behind, htext, hlen, hbefore, -⟩ := h
    cases before with
    | nil => exact ⟨(List.cons.inj htext).1.symm, hlen.symm⟩
    | cons b before =>
      have hb := hbefore b List.mem_cons_self
      exact absurd ((List.cons.inj htext).1 ▸ hb) hd
  · intro h
    obtain ⟨rfl, rfl⟩ := h
    exact ⟨[], text, rfl, rfl, by simp, hd⟩

theorem decodeFrom_error_iff {i : Nat} {done text : Bytes} (heven : text.length % 2 = 0)
    {e : HexError} :
    decodeFrom i done text = .error e ↔
      ∃ c index, FirstBad text c index ∧ e = .badDigit c (i + index) := by
  have hmem : ∀ {c n : UInt8}, value? c = some n → c ∈ digits := by
    intro c n h
    exact isSome_value?_iff.mp (by rw [h]; rfl)
  have hnot : ∀ {c : UInt8}, value? c = none → c ∉ digits := by
    intro c h hc
    rw [← isSome_value?_iff, h] at hc
    cases hc
  fun_induction decodeFrom i done text with
  | case1 i done => simp [not_firstBad_nil]
  | case2 i done c => simp at heven
  | case3 i done hi lo rest a b hb ha ih =>
    have heven' : rest.length % 2 = 0 := by
      simp only [List.length_cons] at heven
      omega
    have hplace : ∀ index, i + 2 + index = i + (index + 1 + 1) := by
      intro index
      omega
    refine (ih heven').trans ?_
    simp only [firstBad_cons_of_mem (hmem ha), firstBad_cons_of_mem (hmem hb)]
    constructor
    · intro h
      obtain ⟨c, index, hbad, rfl⟩ := h
      exact ⟨c, index + 1 + 1, ⟨_, rfl, _, rfl, hbad⟩, by rw [hplace]⟩
    · intro h
      obtain ⟨c, _, ⟨_, rfl, index, rfl, hbad⟩, rfl⟩ := h
      exact ⟨c, index, hbad, by rw [hplace]⟩
  | case4 i done hi lo rest hnone =>
    simp [firstBad_cons_of_not_mem (hnot hnone), eq_comm]
  | case5 i done hi lo rest a hnone ha =>
    simp [firstBad_cons_of_mem (hmem ha), firstBad_cons_of_not_mem (hnot hnone), eq_comm]

theorem decode_error_iff {text : Bytes} {e : HexError} :
    decode text = .error e ↔
      text.length % 2 = 1 ∧ e = .oddLength ∨
        text.length % 2 = 0 ∧ ∃ c index, FirstBad text c index ∧ e = .badDigit c index := by
  unfold decode
  split
  · rename_i hodd
    simp [hodd, eq_comm]
  · rename_i hodd
    have heven : text.length % 2 = 0 := by omega
    rw [decodeFrom_error_iff heven]
    simp [heven]

/-- The letter `é` takes two bytes in UTF-8, and the first of them is no digit. -/
example : decode (utf8 "aé0") = .error (.badDigit 0xc3 1) := by rfl

end Hex

namespace Codec

/-- The error for a text that is no spelling. -/
def notHex (text : String) (e : HexError) : ErrorKind :=
  .malformed ("invalid hexadecimal " ++ Atom.text text ++ ": " ++ e.message)

/-- The ways to refuse a text. No two of them apply to one text. -/
inductive Refuses (codec : Codec) (text : String) : ErrorKind → Prop
  | tooLong : codec.maxBytes < text.utf8ByteSize / 2 →
      Refuses codec text (.resource "byte length" codec.maxBytes)
  | odd : text.utf8ByteSize / 2 ≤ codec.maxBytes → text.utf8ByteSize % 2 = 1 →
      Refuses codec text (notHex text .oddLength)
  | badDigit {c : UInt8} {index : Nat} : text.utf8ByteSize / 2 ≤ codec.maxBytes →
      text.utf8ByteSize % 2 = 0 → Hex.FirstBad (utf8 text) c index →
      Refuses codec text (notHex text (.badDigit c index))

theorem hexDigits_error_iff {codec : Codec} {text : String} {e : ErrorKind} :
    codec.hexDigits text = .error e ↔ codec.Refuses text e := by
  have hlen := length_utf8 text
  unfold hexDigits
  split
  · rename_i hlong
    constructor
    · intro h
      cases h
      exact .tooLong hlong
    · intro h
      cases h with
      | tooLong _ => rfl
      | odd hle _ => omega
      | badDigit hle _ _ => omega
  · rename_i hle
    constructor
    · intro h
      split at h
      · cases h
      · rename_i cause hdecode
        cases h
        rcases Hex.decode_error_iff.mp hdecode with ⟨hodd, rfl⟩ | ⟨heven, c, index, hbad, rfl⟩
        · exact .odd (by omega) (by omega)
        · exact .badDigit (by omega) (by omega) hbad
    · intro h
      cases h with
      | tooLong hlong => omega
      | odd _ hodd =>
        rw [Hex.decode_error_iff.mpr (.inl ⟨by omega, rfl⟩)]
        rfl
      | badDigit _ heven hbad =>
        rw [Hex.decode_error_iff.mpr (.inr ⟨by omega, _, _, hbad, rfl⟩)]
        rfl

/-- The hex codec reads exactly the spellings within the limit, in either case of the digits, and
refuses any other text in the one way that applies to it. -/
theorem hexDigits_exact (codec : Codec) (text : String) :
    (∀ bytes, codec.hexDigits text = .ok bytes ↔
      Term.atom (text.map Hex.lower) = .ofHex bytes ∧ bytes.length ≤ codec.maxBytes) ∧
      ∀ e, codec.hexDigits text = .error e ↔ codec.Refuses text e := by
  refine ⟨?_, fun e => hexDigits_error_iff⟩
  intro bytes
  rw [hexDigits_ok_iff, Term.ofHex, Term.atom.injEq]
  rfl

end Codec

end Signet
