import Mathlib
import Signet.Codec
import Signet.Proofs.Codec.Bound

/-! # Texts that spell bytes

A text spells bytes when it is their encoding but for the case of its digits. Reading works on the
bytes of the text in UTF-8, so the two are compared through the halves of the bytes read: a byte of
the text is a digit of some value exactly when it is the only byte of a character that is one. -/
namespace Signet

theorem utf8_eq_flatMap (text : String) : utf8 text = text.toList.flatMap String.utf8EncodeChar := by
  have h := String.toByteArray_ofList (l := text.toList)
  rw [String.ofList_toList] at h
  unfold utf8 String.toUTF8
  rw [h, List.utf8Encode, List.toList_data_toByteArray]

namespace Hex

/-- The digits `A` to `F` in lowercase, and any other character as it is. -/
def lower (c : Char) : Char := if 'A' ≤ c ∧ c ≤ 'F' then Char.ofNat (c.toNat + 32) else c

/-- The text consists of the digits of the bytes, each in either case. -/
def Spells (text : String) (bytes : Bytes) : Prop := text.map lower = encode bytes

/-- The halves of the bytes, the high one of each first. -/
def halves (bytes : Bytes) : Bytes := bytes.flatMap fun b => [b / 16, b % 16]

theorem halves_cons (b : UInt8) (bytes : Bytes) :
    halves (b :: bytes) = b / 16 :: b % 16 :: halves bytes := rfl

theorem encode_eq (bytes : Bytes) : encode bytes = String.ofList ((halves bytes).map digit) := by
  simp [encode, halves, List.map_flatMap]

theorem length_halves (bytes : Bytes) : (halves bytes).length = 2 * bytes.length := by
  induction bytes with
  | nil => rfl
  | cons b bytes ih =>
    rw [halves_cons, List.length_cons, List.length_cons, ih, List.length_cons]
    omega

theorem toNat_lt_of_mem_halves {bytes : Bytes} {n : UInt8} (h : n ∈ halves bytes) :
    n.toNat < 16 := by
  obtain ⟨b, -, hn⟩ := List.mem_flatMap.mp h
  have hb := b.toNat_lt
  simp only [List.mem_cons, List.not_mem_nil, or_false] at hn
  rcases hn with rfl | rfl
  · rw [UInt8.toNat_div]
    change b.toNat / 16 < 16
    omega
  · rw [UInt8.toNat_mod]
    change b.toNat % 16 < 16
    omega

theorem toNat_digit {n : UInt8} (h : n.toNat < 16) :
    (digit n).toNat = if n.toNat < 10 then 48 + n.toNat else 87 + n.toNat := by
  unfold digit
  by_cases h10 : n < 10
  · have h10' : n.toNat < 10 := h10
    rw [if_pos h10, if_pos h10', Char.toNat_ofNat, if_pos (by left; omega)]
  · have h10' : ¬ n.toNat < 10 := h10
    rw [if_neg h10, if_neg h10', Char.toNat_ofNat, if_pos (by left; omega)]

theorem toNat_lower (c : Char) :
    (lower c).toNat = if 65 ≤ c.toNat ∧ c.toNat ≤ 70 then c.toNat + 32 else c.toNat := by
  unfold lower
  by_cases h : 'A' ≤ c ∧ c ≤ 'F'
  · have h' : 65 ≤ c.toNat ∧ c.toNat ≤ 70 := h
    rw [if_pos h, if_pos h', Char.toNat_ofNat, if_pos (by left; omega)]
  · have h' : ¬ (65 ≤ c.toNat ∧ c.toNat ≤ 70) := h
    rw [if_neg h, if_neg h']

/-- The character with this number is a digit of this value, in either case. -/
def IsDigit (number value : Nat) : Prop :=
  value < 10 ∧ number = 48 + value ∨
    10 ≤ value ∧ value < 16 ∧ (number = 87 + value ∨ number = 55 + value)

theorem lower_eq_digit_iff {c : Char} {n : UInt8} (h : n.toNat < 16) :
    lower c = digit n ↔ IsDigit c.toNat n.toNat := by
  rw [← Char.toNat_inj, toNat_lower, toNat_digit h]
  unfold IsDigit
  split <;> split <;> omega

theorem value?_eq_some_iff {c n : UInt8} : value? c = some n ↔ IsDigit c.toNat n.toNat := by
  have hsub : ∀ k : UInt8, k.toNat ≤ c.toNat → (c - k = n ↔ c.toNat - k.toNat = n.toNat) := by
    intro k hk
    rw [← UInt8.toNat_inj, UInt8.toNat_sub_of_le _ _ hk]
  unfold value? IsDigit
  simp only [Bool.and_eq_true, decide_eq_true_eq]
  split
  · rename_i hc
    have hc' : 48 ≤ c.toNat ∧ c.toNat ≤ 57 := hc
    rw [Option.some.injEq, hsub 48 hc'.1]
    change c.toNat - 48 = n.toNat ↔ _
    omega
  · rename_i hc
    have hc' : ¬ (48 ≤ c.toNat ∧ c.toNat ≤ 57) := hc
    split
    · rename_i hl
      have hl' : 97 ≤ c.toNat ∧ c.toNat ≤ 102 := hl
      rw [Option.some.injEq, hsub 87 (Nat.le_trans (by decide) hl'.1)]
      change c.toNat - 87 = n.toNat ↔ _
      omega
    · rename_i hl
      have hl' : ¬ (97 ≤ c.toNat ∧ c.toNat ≤ 102) := hl
      split
      · rename_i hu
        have hu' : 65 ≤ c.toNat ∧ c.toNat ≤ 70 := hu
        rw [Option.some.injEq, hsub 55 (Nat.le_trans (by decide) hu'.1)]
        change c.toNat - 55 = n.toNat ↔ _
        omega
      · rename_i hu
        have hu' : ¬ (65 ≤ c.toNat ∧ c.toNat ≤ 70) := hu
        simp only [reduceCtorEq, false_iff]
        omega

theorem div_mod_of_halves {a b : UInt8} (ha : a.toNat < 16) (hb : b.toNat < 16) :
    (a * 16 + b) / 16 = a ∧ (a * 16 + b) % 16 = b := by
  have hsum : (a * 16 + b).toNat = a.toNat * 16 + b.toNat := by
    rw [UInt8.toNat_add, UInt8.toNat_mul]
    change (a.toNat * 16 % 256 + b.toNat) % 256 = _
    omega
  rw [← UInt8.toNat_inj, ← UInt8.toNat_inj, UInt8.toNat_div, UInt8.toNat_mod, hsum]
  change (a.toNat * 16 + b.toNat) / 16 = a.toNat ∧ (a.toNat * 16 + b.toNat) % 16 = b.toNat
  omega

theorem halves_of_div_mod (x : UInt8) : x / 16 * 16 + x % 16 = x := by
  have hx := x.toNat_lt
  rw [← UInt8.toNat_inj, UInt8.toNat_add, UInt8.toNat_mul, UInt8.toNat_div, UInt8.toNat_mod]
  change (x.toNat / 16 * 16 % 256 + x.toNat % 16) % 256 = x.toNat
  omega

theorem value?_pair_iff {hi lo a b : UInt8} {digits : Bytes} (ha : value? hi = some a)
    (hb : value? lo = some b) {bytes : Bytes} :
    (hi :: lo :: digits).map value? = (halves bytes).map some ↔
      ∃ rest, bytes = (a * 16 + b) :: rest ∧ digits.map value? = (halves rest).map some := by
  have ha' : a.toNat < 16 := by
    have := value?_eq_some_iff.mp ha
    unfold IsDigit at this
    omega
  have hb' : b.toNat < 16 := by
    have := value?_eq_some_iff.mp hb
    unfold IsDigit at this
    omega
  simp only [List.map_cons, ha, hb]
  constructor
  · intro h
    cases bytes with
    | nil => simp [halves] at h
    | cons x rest =>
      simp only [halves_cons, List.map_cons, List.cons.injEq, Option.some.injEq] at h
      obtain ⟨rfl, rfl, h⟩ := h
      exact ⟨rest, by rw [halves_of_div_mod], h⟩
  · rintro ⟨rest, rfl, h⟩
    obtain ⟨hdiv, hmod⟩ := div_mod_of_halves ha' hb'
    simp [halves_cons, hdiv, hmod, h]

theorem decodeFrom_ok_iff {i : Nat} {done digits out : Bytes} :
    decodeFrom i done digits = .ok out ↔
      ∃ bytes, out = done.reverse ++ bytes ∧ digits.map value? = (halves bytes).map some := by
  fun_induction decodeFrom i done digits with
  | case1 i done =>
    rw [Except.ok.injEq]
    constructor
    · rintro rfl
      exact ⟨[], by simp, rfl⟩
    · rintro ⟨bytes, rfl, h⟩
      cases bytes with
      | nil => simp
      | cons b bytes => simp [halves_cons] at h
  | case2 i done c =>
    simp only [reduceCtorEq, false_iff]
    rintro ⟨bytes, -, h⟩
    have hlen := congrArg List.length h
    simp only [List.length_map, length_halves, List.length_singleton] at hlen
    omega
  | case3 i done hi lo rest a b hb ha ih =>
    simp only [ih, value?_pair_iff ha hb, List.reverse_cons, List.append_assoc, List.singleton_append]
    constructor
    · rintro ⟨bytes, rfl, h⟩
      exact ⟨_, rfl, bytes, rfl, h⟩
    · rintro ⟨_, rfl, bytes, rfl, h⟩
      exact ⟨bytes, rfl, h⟩
  | case4 i done hi lo rest hnone =>
    simp only [reduceCtorEq, false_iff]
    rintro ⟨bytes, -, h⟩
    cases bytes <;> simp [halves, hnone] at h
  | case5 i done hi lo rest a hnone ha =>
    simp only [reduceCtorEq, false_iff]
    rintro ⟨bytes, -, h⟩
    cases bytes <;> simp [halves, hnone] at h

theorem decode_ok_iff {digits bytes : Bytes} :
    decode digits = .ok bytes ↔ digits.map value? = (halves bytes).map some := by
  unfold decode
  split
  · rename_i hodd
    simp only [reduceCtorEq, false_iff]
    intro h
    have hlen := congrArg List.length h
    simp only [List.length_map, length_halves] at hlen
    omega
  · simp [decodeFrom_ok_iff]

theorem value?_of_large {c : UInt8} (h : 128 ≤ c.toNat) : value? c = none := by
  cases hv : value? c with
  | none => rfl
  | some n =>
    have hdigit := value?_eq_some_iff.mp hv
    unfold IsDigit at hdigit
    omega

theorem utf8EncodeChar_cases (c : Char) :
    (c.toNat < 128 ∧ String.utf8EncodeChar c = [UInt8.ofNat c.toNat]) ∨
      128 ≤ c.toNat ∧ ∃ b rest, String.utf8EncodeChar c = b :: rest ∧ 128 ≤ b.toNat := by
  have hval : c.val.toNat = c.toNat := rfl
  unfold String.utf8EncodeChar
  simp only [hval]
  split
  · exact .inl ⟨by omega, rfl⟩
  · refine .inr ⟨by omega, ?_⟩
    split
    · refine ⟨_, _, rfl, ?_⟩
      rw [UInt8.toNat_ofNat']
      omega
    · split
      · refine ⟨_, _, rfl, ?_⟩
        rw [UInt8.toNat_ofNat']
        omega
      · refine ⟨_, _, rfl, ?_⟩
        rw [UInt8.toNat_ofNat']
        omega

theorem map_value?_utf8_iff {text : List Char} {values : Bytes} (h : ∀ n ∈ values, n.toNat < 16) :
    (text.flatMap String.utf8EncodeChar).map value? = values.map some ↔
      text.map lower = values.map digit := by
  induction text generalizing values with
  | nil => cases values <;> simp
  | cons c text ih =>
    cases values with
    | nil =>
      rcases utf8EncodeChar_cases c with ⟨-, hc⟩ | ⟨-, b, rest, hc, -⟩ <;> simp [hc]
    | cons n values =>
      have hn := h n List.mem_cons_self
      have hrest := ih fun m hm => h m (List.mem_cons_of_mem n hm)
      rw [List.flatMap_cons, List.map_cons, List.map_cons, List.map_cons, List.cons.injEq,
        lower_eq_digit_iff hn]
      rcases utf8EncodeChar_cases c with ⟨hc, henc⟩ | ⟨hc, b, rest, henc, hb⟩
      · rw [henc, List.singleton_append, List.map_cons, List.cons.injEq, value?_eq_some_iff, hrest,
          UInt8.toNat_ofNat', Nat.mod_eq_of_lt (by omega)]
      · rw [henc, List.cons_append, List.map_cons, List.cons.injEq, value?_of_large hb]
        unfold IsDigit
        simp only [reduceCtorEq, false_and, false_iff]
        omega

theorem decode_utf8_ok_iff {text : String} {bytes : Bytes} :
    decode (utf8 text) = .ok bytes ↔ Spells text bytes := by
  rw [decode_ok_iff, utf8_eq_flatMap,
    map_value?_utf8_iff fun n hn => toNat_lt_of_mem_halves hn, Spells, encode_eq,
    ← String.toList_inj, String.toList_map, String.toList_ofList]

theorem Spells.unique {text : String} {as bs : Bytes} (ha : Spells text as) (hb : Spells text bs) :
    as = bs := by
  have h := decode_utf8_ok_iff.mpr ha
  rw [decode_utf8_ok_iff.mpr hb] at h
  exact (Except.ok.inj h).symm

theorem spells_encode (bytes : Bytes) : Spells (encode bytes) bytes := by
  rw [Spells, encode_eq, ← String.toList_inj, String.toList_map, String.toList_ofList, List.map_map]
  refine List.map_congr_left fun n hn => ?_
  have hlt := toNat_lt_of_mem_halves hn
  rw [Function.comp_apply, lower_eq_digit_iff hlt, toNat_digit hlt]
  unfold IsDigit
  split <;> omega

end Hex

theorem Codec.hexDigits_ok_iff {codec : Codec} {text : String} {bytes : Bytes} :
    codec.hexDigits text = .ok bytes ↔ Hex.Spells text bytes ∧ bytes.length ≤ codec.maxBytes := by
  rw [← Hex.decode_utf8_ok_iff]
  constructor
  · intro h
    refine ⟨?_, length_hexDigits_le h⟩
    unfold hexDigits at h
    split at h
    · cases h
    · split at h
      · rename_i hd
        cases h
        exact hd
      · cases h
  · rintro ⟨hd, hle⟩
    have hlen := Hex.length_decode hd
    rw [length_utf8] at hlen
    unfold hexDigits
    rw [if_neg (by omega), hd]

end Signet
