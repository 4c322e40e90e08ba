import Mathlib
import Signet.Crypto.Der

/-! # One encoding for each pair

The distinguished encoding allows of all octets that state a length or an integer only the shortest,
for integers of either sign and lengths of any size. Which octets these are is worked out here for the
numbers in a signature: a pair of them has one encoding, the one that is written, and the reader
accepts exactly this. -/
namespace Signet

namespace Bytes

theorem toNatBE_append (xs ys : Bytes) :
    toNatBE (xs ++ ys) = toNatBE xs * 256 ^ ys.length + toNatBE ys := by
  induction ys using List.reverseRecOn with
  | nil => simp [toNatBE]
  | append_singleton ys y ih =>
    have hlast : ∀ zs : Bytes, toNatBE (zs ++ [y]) = toNatBE zs * 256 + y.toNat := by
      simp [toNatBE, List.foldl_append]
    rw [← List.append_assoc, hlast, hlast, ih, List.length_append, List.length_singleton, pow_succ]
    ring

theorem toNatBE_cons (b : UInt8) (bytes : Bytes) :
    toNatBE (b :: bytes) = b.toNat * 256 ^ bytes.length + toNatBE bytes := by
  have h := toNatBE_append [b] bytes
  simpa [toNatBE] using h

theorem toNatBE_zero_cons (bytes : Bytes) : toNatBE (0 :: bytes) = toNatBE bytes := rfl

theorem toNatBE_lt (bytes : Bytes) : toNatBE bytes < 256 ^ bytes.length := by
  induction bytes with
  | nil => simp [toNatBE]
  | cons b bytes ih =>
    have hb := b.toNat_lt
    rw [toNatBE_cons, List.length_cons, pow_succ]
    nlinarith

end Bytes

namespace Der

open Bytes

/-- The number that the octets stand for in two's complement, the most significant one first. -/
def signedValue (octets : Bytes) : Int :=
  toNatBE octets - if octets.head?.any (128 ≤ ·) then 256 ^ octets.length else 0

/-- The octets state something that no fewer octets state. -/
def Shortest (States : Bytes → Prop) (octets : Bytes) : Prop :=
  States octets ∧ ∀ other, States other → octets.length ≤ other.length

/-- Octets of an integer: at least one. -/
def StatesInteger (i : Int) (octets : Bytes) : Prop := octets ≠ [] ∧ signedValue octets = i

/-- Octets of a length: a single one below 128, or one that counts the others, from 128 on. -/
inductive StatesLength : Nat → Bytes → Prop
  | short {b : UInt8} : b < 128 → StatesLength b.toNat [b]
  | long {b : UInt8} {octets : Bytes} : octets ≠ [] → b.toNat = 128 + octets.length →
      StatesLength (toNatBE octets) (b :: octets)

/-- The bytes are a tag, the length of the contents, and the contents. -/
def IsElement (tag : UInt8) (contents bytes : Bytes) : Prop :=
  ∃ length, Shortest (StatesLength contents.length) length ∧ bytes = tag :: (length ++ contents)

/-- The bytes are a sequence of the two integers, with nothing behind it. -/
def IsPair (r s : Int) (bytes : Bytes) : Prop :=
  ∃ first second one two, Shortest (StatesInteger r) first ∧ Shortest (StatesInteger s) second ∧
    IsElement 0x02 first one ∧ IsElement 0x02 second two ∧ IsElement 0x30 (one ++ two) bytes

/-- The first nine bits are not all alike. -/
def IsTrimmed : Bytes → Prop
  | [] => False
  | [_] => True
  | a :: b :: _ => ¬ (a = 0 ∧ b < 128) ∧ ¬ (a = 255 ∧ 128 ≤ b)

theorem signedValue_cons_eq_iff {b : UInt8} {octets : Bytes} {n : Nat} :
    signedValue (b :: octets) = n ↔ b < 128 ∧ toNatBE (b :: octets) = n := by
  have hlt := toNatBE_lt (b :: octets)
  simp only [signedValue, List.head?_cons, Option.any_some, decide_eq_true_eq]
  split
  · rename_i hb
    have hcast : ((toNatBE (b :: octets) : Nat) : Int) < 256 ^ (b :: octets).length := by
      exact_mod_cast hlt
    constructor
    · intro h
      omega
    · rintro ⟨h, -⟩
      exact absurd hb (UInt8.not_le.mpr h)
  · rename_i hb
    rw [sub_zero, Nat.cast_inj]
    exact ⟨fun h => ⟨UInt8.not_le.mp hb, h⟩, fun h => h.2⟩

theorem minimal_pos {n : Nat} (h : n ≠ 0) :
    minimal n = minimal (n / 256) ++ [UInt8.ofNat n] := by
  rw [minimal, if_neg h]

theorem toNatBE_minimal (n : Nat) : toNatBE (minimal n) = n := by
  fun_induction minimal n with
  | case1 => rfl
  | case2 n _ ih =>
    rw [toNatBE_append, ih]
    simp only [toNatBE, List.length_singleton, List.foldl_cons, List.foldl_nil, UInt8.toNat_ofNat']
    omega

theorem head?_minimal (n : Nat) : (minimal n).head? ≠ some 0 := by
  fun_induction minimal n with
  | case1 => simp
  | case2 n hn ih =>
    rcases List.eq_nil_or_concat (minimal (n / 256)) with hnil | hcons
    · have hsmall := toNatBE_minimal (n / 256)
      rw [hnil] at hsmall ⊢
      have hlt : n < 256 := by
        simp only [toNatBE, List.foldl_nil] at hsmall
        omega
      simp only [List.nil_append, List.head?_cons, ne_eq, Option.some.injEq, ← UInt8.toNat_inj,
        UInt8.toNat_ofNat', UInt8.toNat_zero]
      omega
    · obtain ⟨init, last, hinit⟩ := hcons
      rwa [List.head?_append_of_ne_nil _ (by simp [hinit])]

/-- Bytes that do not begin with a zero are those that their number is written with. -/
theorem minimal_toNatBE {bytes : Bytes} (h : bytes.head? ≠ some 0) :
    minimal (toNatBE bytes) = bytes := by
  induction bytes using List.reverseRecOn with
  | nil => simp [toNatBE, minimal]
  | append_singleton bytes b ih =>
    have hb := b.toNat_lt
    have hsum : toNatBE (bytes ++ [b]) = toNatBE bytes * 256 + b.toNat := by simp [toNatBE]
    have hinit : bytes.head? ≠ some 0 := by
      cases bytes with
      | nil => simp
      | cons c bytes => simpa using h
    have hpos : toNatBE (bytes ++ [b]) ≠ 0 := by
      intro hzero
      have hnone : bytes = [] := by
        rw [← ih hinit, show toNatBE bytes = 0 by omega]
        simp [minimal]
      have hlast : b = 0 := by rw [← UInt8.toNat_inj, UInt8.toNat_zero]; omega
      simp [hnone, hlast] at h
    rw [minimal_pos hpos, hsum, show (toNatBE bytes * 256 + b.toNat) / 256 = toNatBE bytes by omega,
      ih hinit]
    congr 2
    rw [← UInt8.toNat_inj, UInt8.toNat_ofNat']
    omega

theorem isTrimmed_contents (n : Nat) :
    IsTrimmed (contents n) ∧ signedValue (contents n) = n := by
  have hvalue := toNatBE_minimal n
  have hhead := head?_minimal n
  unfold contents
  cases hn : minimal n with
  | nil =>
    rw [hn] at hvalue
    exact ⟨trivial, signedValue_cons_eq_iff.mpr ⟨by decide, hvalue⟩⟩
  | cons b bytes =>
    rw [hn] at hvalue hhead
    have hb : b ≠ 0 := fun h => hhead (congrArg some h)
    by_cases hlow : b < 128
    · simp only [if_pos hlow]
      refine ⟨?_, signedValue_cons_eq_iff.mpr ⟨hlow, hvalue⟩⟩
      cases bytes with
      | nil => trivial
      | cons c bytes =>
        refine ⟨fun h => hb h.1, fun h => ?_⟩
        rw [h.1] at hlow
        exact absurd hlow (by decide)
    · simp only [if_neg hlow]
      exact ⟨⟨fun h => hlow h.2, fun h => absurd h.1 (by decide)⟩,
        signedValue_cons_eq_iff.mpr ⟨by decide, by rwa [toNatBE_zero_cons]⟩⟩

theorem isTrimmed_iff {octets : Bytes} {n : Nat} :
    IsTrimmed octets ∧ signedValue octets = n ↔ octets = contents n := by
  refine ⟨?_, fun h => h ▸ isTrimmed_contents n⟩
  rintro ⟨htrimmed, hvalue⟩
  unfold contents
  cases octets with
  | nil => exact absurd htrimmed id
  | cons a octets =>
    obtain ⟨ha, rfl⟩ := signedValue_cons_eq_iff.mp hvalue
    by_cases hzero : a = 0
    · subst hzero
      rw [toNatBE_zero_cons]
      cases octets with
      | nil => simp [toNatBE, minimal]
      | cons b octets =>
        have hb : ¬ b < 128 := fun hb => htrimmed.1 ⟨rfl, hb⟩
        have hhead : (b :: octets).head? ≠ some 0 := by
          intro h
          rw [List.head?_cons, Option.some.injEq] at h
          exact hb (h ▸ by decide)
        rw [minimal_toNatBE hhead]
        simp [hb]
    · rw [minimal_toNatBE (by simpa using hzero)]
      simp [ha]

theorem unsigned?_eq_some_iff {octets : Bytes} {n : Nat} :
    unsigned? octets = some n ↔ octets = contents n := by
  rw [← isTrimmed_iff]
  unfold unsigned?
  split
  · simp [IsTrimmed]
  · rw [signedValue_cons_eq_iff]
    simp [IsTrimmed, toNatBE]
  · rename_i b bytes
    rw [signedValue_cons_eq_iff, toNatBE_zero_cons]
    simp [IsTrimmed]
  · rename_i b bytes hzero hpad
    have htrimmed : b < 128 → IsTrimmed (b :: bytes) := by
      intro hb
      cases bytes with
      | nil => trivial
      | cons c bytes =>
        refine ⟨fun h => hpad c bytes h.1 rfl, fun h => ?_⟩
        rw [h.1] at hb
        exact absurd hb (by decide)
    rw [signedValue_cons_eq_iff]
    split
    · rename_i hb
      simp [htrimmed hb, hb]
    · rename_i hb
      simp [hb]

/-- Octets that begin with nine bits alike state the same without the first of them. -/
theorem exists_tail_of_not_isTrimmed {octets : Bytes} (hne : octets ≠ [])
    (h : ¬ IsTrimmed octets) :
    ∃ a b rest, octets = a :: b :: rest ∧ signedValue (b :: rest) = signedValue octets := by
  match octets with
  | [] => exact absurd rfl hne
  | [_] => exact absurd trivial h
  | a :: b :: rest =>
    refine ⟨a, b, rest, rfl, ?_⟩
    rw [IsTrimmed, ← not_or, not_not] at h
    rcases h with ⟨rfl, hb⟩ | ⟨rfl, hb⟩
    · have hb' : ¬ 128 ≤ b := UInt8.not_le.mpr hb
      simp [signedValue, toNatBE_zero_cons, hb']
    · simp only [signedValue, List.head?_cons, Option.any_some, decide_eq_true_eq, if_pos hb,
        toNatBE_cons 255, List.length_cons, pow_succ]
      rw [if_pos (by decide)]
      push_cast
      change _ = (255 : Int) * _ + _ - _
      ring

theorem shortest_statesInteger_iff {octets : Bytes} {n : Nat} :
    Shortest (StatesInteger n) octets ↔ octets = contents n := by
  have hstates : StatesInteger n (contents n) := by
    refine ⟨?_, (isTrimmed_contents n).2⟩
    intro h
    have htrimmed := (isTrimmed_contents n).1
    rw [h] at htrimmed
    exact htrimmed
  -- every statement can be cut down to the trimmed one
  have hleast : ∀ other, StatesInteger n other →
      other = contents n ∨ (contents n).length < other.length := by
    intro other
    induction other with
    | nil => exact fun h => absurd rfl h.1
    | cons a other ih =>
      rintro ⟨hne, hvalue⟩
      by_cases htrimmed : IsTrimmed (a :: other)
      · exact .inl (isTrimmed_iff.mp ⟨htrimmed, hvalue⟩)
      · obtain ⟨a', b, rest, hcons, htail⟩ := exists_tail_of_not_isTrimmed hne htrimmed
        cases hcons
        have hrest := ih ⟨by simp, htail.trans hvalue⟩
        rw [List.length_cons]
        rcases hrest with h | h
        · exact .inr (by rw [h]; omega)
        · exact .inr (by omega)
  constructor
  · rintro ⟨h, hshort⟩
    rcases hleast octets h with heq | hlt
    · exact heq
    · exact absurd (hshort _ hstates) (by omega)
  · rintro rfl
    refine ⟨hstates, fun other h => ?_⟩
    rcases hleast other h with heq | hlt
    · rw [heq]
    · exact hlt.le

theorem length_minimal_le {n k : Nat} (h : n < 256 ^ k) : (minimal n).length ≤ k := by
  induction k generalizing n with
  | zero =>
    rw [show n = 0 by omega]
    simp [minimal]
  | succ k ih =>
    rcases Nat.eq_zero_or_pos n with rfl | hn
    · simp [minimal]
    · have hdiv : n / 256 < 256 ^ k := Nat.div_lt_of_lt_mul (by rwa [← pow_succ'])
      rw [minimal_pos hn.ne', List.length_append, List.length_singleton]
      have := ih hdiv
      omega

theorem length_contents_le {n k : Nat} (h : n < 256 ^ k) : (contents n).length ≤ k + 1 := by
  have hlen := length_minimal_le h
  unfold contents
  split
  · simp
  · rename_i b bytes hn
    rw [hn] at hlen
    split
    · exact Nat.le_succ_of_le hlen
    · exact Nat.succ_le_succ hlen

theorem element?_eq_some_iff {tag : UInt8} {bytes octets rest : Bytes} :
    element? tag bytes = some (octets, rest) ↔
      octets.length < 128 ∧ bytes = element tag octets ++ rest := by
  unfold element? element
  split
  · rename_i t length behind
    rw [Option.ite_none_right_eq_some, Option.some.injEq, Prod.mk.injEq]
    constructor
    · rintro ⟨⟨rfl, hlow, hle⟩, rfl, rfl⟩
      have hlen : (behind.take length.toNat).length = length.toNat := List.length_take_of_le hle
      rw [hlen]
      exact ⟨hlow, by simp [List.take_append_drop]⟩
    · rintro ⟨hlow, h⟩
      simp only [List.cons_append, List.cons.injEq] at h
      obtain ⟨rfl, rfl, rfl⟩ := h
      have hlen : (UInt8.ofNat octets.length).toNat = octets.length := by
        rw [UInt8.toNat_ofNat']
        omega
      refine ⟨⟨rfl, ?_, ?_⟩, ?_, ?_⟩
      · change (UInt8.ofNat octets.length).toNat < 128
        omega
      · simp [hlen]
      · simp [hlen]
      · simp [hlen]
  · rename_i h
    simp only [reduceCtorEq, false_iff, not_and]
    rintro - rfl
    exact h _ _ _ rfl

theorem shortest_statesLength_iff {octets : Bytes} {n : Nat} (h : n < 128) :
    Shortest (StatesLength n) octets ↔ octets = [UInt8.ofNat n] := by
  have hn : (UInt8.ofNat n).toNat = n := by
    rw [UInt8.toNat_ofNat']
    omega
  have hstates : StatesLength n [UInt8.ofNat n] := by
    have hshort := StatesLength.short (b := UInt8.ofNat n) (show (UInt8.ofNat n).toNat < 128 by omega)
    rwa [hn] at hshort
  constructor
  · rintro ⟨hoctets, hshort⟩
    have hlen := hshort _ hstates
    cases hoctets with
    | short _ => simp
    | long hne _ =>
      have hpos := List.length_pos_iff.mpr hne
      simp only [List.length_cons, List.length_nil] at hlen
      omega
  · rintro rfl
    refine ⟨hstates, fun other hother => ?_⟩
    cases hother <;> simp

theorem isElement_iff {tag : UInt8} {contents bytes : Bytes} (h : contents.length < 128) :
    IsElement tag contents bytes ↔ bytes = element tag contents := by
  simp [IsElement, shortest_statesLength_iff h, element]

theorem decodePair?_eq_some_iff {bytes : Bytes} {r s : Nat} :
    decodePair? bytes = some (r, s) ↔
      (contents r).length < 128 ∧ (contents s).length < 128 ∧
        (element 0x02 (contents r) ++ element 0x02 (contents s)).length < 128 ∧
        bytes = encodePair r s := by
  constructor
  · intro h
    obtain ⟨⟨body, trailing⟩, houter, h⟩ := Option.bind_eq_some_iff.mp h
    obtain ⟨⟨first, behind⟩, hfirst, h⟩ := Option.bind_eq_some_iff.mp h
    obtain ⟨⟨second, rest⟩, hsecond, h⟩ := Option.bind_eq_some_iff.mp h
    obtain ⟨_, hend, h⟩ := Option.bind_eq_some_iff.mp h
    obtain ⟨r', hr, h⟩ := Option.bind_eq_some_iff.mp h
    obtain ⟨s', hs, h⟩ := Option.bind_eq_some_iff.mp h
    cases h
    simp only [Option.guard_eq_some', Bool.and_eq_true, List.isEmpty_iff] at hend
    obtain ⟨rfl, rfl⟩ := hend
    obtain ⟨hbody, rfl⟩ := element?_eq_some_iff.mp houter
    obtain ⟨hlen1, rfl⟩ := element?_eq_some_iff.mp hfirst
    obtain ⟨hlen2, rfl⟩ := element?_eq_some_iff.mp hsecond
    rw [unsigned?_eq_some_iff] at hr hs
    subst hr hs
    rw [List.append_nil] at hbody
    exact ⟨hlen1, hlen2, hbody, by simp only [List.append_nil, encodePair]⟩
  · rintro ⟨hlen1, hlen2, hbody, rfl⟩
    have houter := element?_eq_some_iff.mpr ⟨hbody, (List.append_nil (element 0x30 _)).symm⟩
    have h1 := element?_eq_some_iff.mpr
      ⟨hlen1, Eq.refl (element 0x02 (contents r) ++ element 0x02 (contents s))⟩
    have h2 := element?_eq_some_iff.mpr ⟨hlen2, (List.append_nil (element 0x02 (contents s))).symm⟩
    have hunsigned : ∀ n, unsigned? (contents n) = some n := fun n => unsigned?_eq_some_iff.mpr rfl
    simp [decodePair?, encodePair, houter, h1, h2, hunsigned]

section Small

variable {bytes : Bytes} {r s : Nat} (hr : r < 2 ^ 256) (hs : s < 2 ^ 256)
include hr hs

/-- Numbers of 32 bytes take so few that every length is a single byte. -/
theorem length_body_lt :
    (contents r).length < 128 ∧ (contents s).length < 128 ∧
      (element 0x02 (contents r) ++ element 0x02 (contents s)).length < 128 := by
  have h1 : (contents r).length ≤ 33 := length_contents_le (k := 32) (by simpa using hr)
  have h2 : (contents s).length ≤ 33 := length_contents_le (k := 32) (by simpa using hs)
  simp only [element, List.length_append, List.length_cons]
  omega

theorem isPair_iff : IsPair r s bytes ↔ bytes = encodePair r s := by
  obtain ⟨hlen1, hlen2, hbody⟩ := length_body_lt hr hs
  unfold IsPair
  constructor
  · rintro ⟨first, second, one, two, hfirst, hsecond, hone, htwo, hbytes⟩
    rw [shortest_statesInteger_iff] at hfirst hsecond
    subst hfirst hsecond
    rw [isElement_iff hlen1] at hone
    rw [isElement_iff hlen2] at htwo
    subst hone htwo
    exact (isElement_iff hbody).mp hbytes
  · rintro rfl
    exact ⟨contents r, contents s, element 0x02 (contents r), element 0x02 (contents s),
      shortest_statesInteger_iff.mpr rfl, shortest_statesInteger_iff.mpr rfl,
      (isElement_iff hlen1).mpr rfl, (isElement_iff hlen2).mpr rfl, (isElement_iff hbody).mpr rfl⟩

theorem decodePair?_eq_some_iff_isPair : decodePair? bytes = some (r, s) ↔ IsPair r s bytes := by
  obtain ⟨hlen1, hlen2, hbody⟩ := length_body_lt hr hs
  rw [isPair_iff hr hs, decodePair?_eq_some_iff]
  exact ⟨fun h => h.2.2.2, fun h => ⟨hlen1, hlen2, hbody, h⟩⟩

end Small

end Der

end Signet
