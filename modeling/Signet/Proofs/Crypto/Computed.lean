import Mathlib
import Signet.Crypto.Computed
import Signet.Proofs.Crypto.Laws

/-! # The computed primitives keep the laws

Points are read from the abscissas that square roots exist for, signatures from the encoding that is
written of their numbers, and a digest counts by the number in its first 32 bytes, which zeros in
front of it do not change. -/
namespace Signet

namespace Ecdsa

theorem Signature.decode?_eq_some_iff {n : Nat} (hn : n ≤ 2 ^ 256) {bytes : Bytes}
    {sig : Signature n} : decode? n bytes = some sig ↔ Der.IsPair sig.r.val sig.s.val bytes := by
  have hr : sig.r.val < 2 ^ 256 := sig.r.isLt.trans_le hn
  have hs : sig.s.val < 2 ^ 256 := sig.s.isLt.trans_le hn
  rw [← Der.decodePair?_eq_some_iff_isPair hr hs]
  unfold decode?
  rw [Option.bind_eq_some_iff]
  constructor
  · rintro ⟨pair, hpair, h⟩
    simp only [ofPair?, Option.dite_none_right_eq_some, Option.some.injEq] at h
    obtain ⟨_, rfl⟩ := h
    exact hpair
  · intro h
    refine ⟨_, h, ?_⟩
    simp [ofPair?, sig.r_pos, sig.s_pos]

theorem toNatBE_zeros_append (k : Nat) (bytes : Bytes) :
    Bytes.toNatBE (List.replicate k 0 ++ bytes) = Bytes.toNatBE bytes := by
  induction k with
  | zero => rfl
  | succ k ih => rw [List.replicate_succ, List.cons_append, Bytes.toNatBE_zero_cons, ih]

theorem scalar?_eq_map_field? (digest : Bytes) :
    scalar? digest = (field? digest).map Bytes.toNatBE := by
  unfold scalar? field?
  split
  · rfl
  · rw [Option.map_some, toNatBE_zeros_append]

section OnCurve

variable {p n : Nat} {curve : Weierstrass p n} {key? : Bytes → Option (Weierstrass.Point p)}
  {admitted : Signature n → Bool}

theorem signature_onCurve {bytes : Bytes} {sig : Signature n} :
    (onCurve curve key? admitted).signature bytes = .ok sig ↔
      Signature.decode? n bytes = some sig := by
  dsimp only [onCurve]
  cases Signature.decode? n bytes <;> simp

theorem readsPairs_onCurve (hn : n ≤ 2 ^ 256) : (onCurve curve key? admitted).ReadsPairs n where
  strict h := (Signature.decode?_eq_some_iff hn).mp (signature_onCurve.mp h)
  inRange {_} sig _ := ⟨⟨sig.r_pos, sig.r.isLt⟩, ⟨sig.s_pos, sig.s.isLt⟩⟩
  accepted {_ r s} h hr hs := by
    let sig : Signature n := ⟨⟨r, hr.2⟩, ⟨s, hs.2⟩, hr.1, hs.1⟩
    exact ⟨sig, signature_onCurve.mpr ((Signature.decode?_eq_some_iff hn).mpr h)⟩

theorem turnsDigests_onCurve : (onCurve curve key? admitted).TurnsDigests := by
  refine ⟨fun key field sig => admitted sig && holds curve key (Bytes.toNatBE field) sig, ?_⟩
  intro key digest sig
  show (admitted sig && (scalar? digest).any fun z => holds curve key z sig) = _
  rw [scalar?_eq_map_field?]
  cases field? digest <;> simp

end OnCurve

instance : Fact (Nat.Prime Secp256r1.fieldSize) := ⟨Secp256r1.fieldSize_prime⟩

instance : Fact (Nat.Prime Secp256k1.fieldSize) := ⟨Secp256k1.fieldSize_prime⟩

theorem readsKeys_secp256r1 : Signet.Primitives.computed.secp256r1.ReadsKeys .secp256r1 := by
  intro key hshape
  have hiff : (Sec1.compressed? Signet.secp256r1 key).isSome = true ↔ _ :=
    Sec1.isSome_compressed?_iff (by decide)
  refine hiff.trans ⟨fun h => ⟨hshape, h.2⟩, fun h => ⟨hshape.2, h.2⟩⟩

theorem readsKeys_secp256k1 : Signet.Primitives.computed.secp256k1.ReadsKeys .secp256k1 :=
  fun _ _ => Sec1.isSome_point?_iff (by decide)

end Ecdsa

theorem Ed25519.readsEncodings_computed : computed.ReadsEncodings where
  key bytes hlen := by
    show ((Edwards.decode? bytes).map fun point => (bytes, point)).isSome = true ↔ _
    rw [Option.isSome_map, Edwards.isSome_decode?_iff hlen]
    exact ⟨fun h => ⟨hlen, h⟩, fun h => h.2⟩
  signature bytes := by
    simp [computed]
  reduced {bytes message key sig} hsig hverifies := by
    obtain ⟨-, hhalves⟩ := Option.ite_none_right_eq_some.mp hsig
    obtain rfl := Option.some.inj hhalves
    exact of_decide_eq_true (Bool.and_eq_true_iff.mp hverifies).1

theorem Primitives.readsEncodings_computed : computed.ReadsEncodings where
  ed25519 := Ed25519.readsEncodings_computed
  secp256r1Keys := Ecdsa.readsKeys_secp256r1
  secp256r1Pairs := Ecdsa.readsPairs_onCurve (by decide)
  secp256k1Keys := Ecdsa.readsKeys_secp256k1
  secp256k1Pairs := Ecdsa.readsPairs_onCurve (by decide)

end Signet
