import Mathlib
import Signet.Proofs.Crypto.Computed

/-! # Signatures that verify

The key is read first, then the signature, and the digest counts only if both can be read. Signatures
are read from the one encoding of their pair of numbers, so two of them in different bytes that both
verify are different pairs. -/
namespace Signet.Ecdsa

namespace Curve

/-- The key that bytes in shape are read as. -/
def readKey (prims : Primitives) (curve : Curve) (key : Bytes) : Except CryptoError prims.Key :=
  match curve with
  | .secp256r1 =>
    if IsCompressed key then
      ((prims.key? key).map .ok).getD (.error (.invalidKey "secp256r1: point is not on the curve"))
    else
      .error (.invalidKey ("secp256r1: expected a 33-byte compressed point, got " ++
        toString key.length ++ " bytes"))
  | .secp256k1 =>
    ((prims.key? key).map .ok).getD
      (.error (.invalidKey ("secp256k1: malformed SEC1 point 0x" ++ Hex.encode key)))

/-- The answer to a signature that cannot be read. -/
def unreadable (curve : Curve) (reason : String) : Except CryptoError Bool :=
  match curve with
  | .secp256r1 => .ok false
  | .secp256k1 => .error (.signatureEncoding ("secp256k1: " ++ reason))

theorem verify_eq (prims : Primitives) (curve : Curve) (key digest signature : Bytes) :
    curve.verify prims key digest signature =
      match curve.readKey prims key with
      | .error e => .error e
      | .ok point =>
        match prims.signature signature with
        | .error reason => curve.unreadable reason
        | .ok sig => .ok (prims.verifies point digest sig) := by
  cases curve with
  | secp256r1 =>
    have hguard : (key.length ≠ 33 ∨ key.head? ≠ some 2 ∧ key.head? ≠ some 3) ↔
        ¬ IsCompressed key := by
      unfold IsCompressed
      tauto
    simp only [verify, verifySecp256r1, readKey, hguard]
    by_cases hshape : IsCompressed key
    · simp only [hshape, not_true_eq_false, if_false, if_true]
      cases prims.key? key with
      | none => rfl
      | some point => cases prims.signature signature <;> rfl
    · simp only [hshape, not_false_eq_true, if_true, if_false]
  | secp256k1 =>
    simp only [verify, verifySecp256k1, readKey]
    cases prims.key? key with
    | none => rfl
    | some point => cases prims.signature signature <;> rfl

variable {prims : Primitives} {curve : Curve} {key digest signature : Bytes}

theorem exists_signature_of_verify (h : curve.verify prims key digest signature = .ok true) :
    ∃ point sig, curve.readKey prims key = .ok point ∧ prims.signature signature = .ok sig := by
  rw [verify_eq] at h
  cases hkey : curve.readKey prims key with
  | error e => rw [hkey] at h; cases h
  | ok point =>
    cases hsig : prims.signature signature with
    | error reason =>
      rw [hkey, hsig] at h
      cases curve <;> cases h
    | ok sig => exact ⟨point, sig, rfl, rfl⟩

end Curve

namespace Primitives

variable {prims : Primitives} {n : Nat}

theorem ReadsPairs.eq_encodePair (h : prims.ReadsPairs n) (hn : n ≤ 2 ^ 256) {bytes : Bytes}
    {sig : prims.Signature} (hsig : prims.signature bytes = .ok sig) :
    bytes = Der.encodePair (prims.numbers sig).1 (prims.numbers sig).2 :=
  (Der.isPair_iff ((h.inRange hsig).1.2.trans_le hn) ((h.inRange hsig).2.2.trans_le hn)).mp
    (h.strict hsig)

theorem ReadsPairs.exists_signature_encodePair (h : prims.ReadsPairs n) (hn : n ≤ 2 ^ 256)
    {r s : Nat} (hr : 0 < r ∧ r < n) (hs : 0 < s ∧ s < n) :
    ∃ sig, prims.signature (Der.encodePair r s) = .ok sig ∧ prims.numbers sig = (r, s) := by
  have hpair : Der.IsPair r s (Der.encodePair r s) :=
    (Der.isPair_iff (hr.2.trans_le hn) (hs.2.trans_le hn)).mpr rfl
  obtain ⟨sig, hsig⟩ := h.accepted hpair hr hs
  obtain ⟨hr', hs'⟩ := h.inRange hsig
  have hread := (Der.decodePair?_eq_some_iff_isPair (hr.2.trans_le hn) (hs.2.trans_le hn)).mpr hpair
  rw [(Der.decodePair?_eq_some_iff_isPair (hr'.2.trans_le hn) (hs'.2.trans_le hn)).mpr
    (h.strict hsig), Option.some.injEq] at hread
  exact ⟨sig, hsig, hread⟩

/-- A signature is read exactly from what is written of two numbers in range. -/
theorem ReadsPairs.exists_signature_iff (h : prims.ReadsPairs n) (hn : n ≤ 2 ^ 256)
    {bytes : Bytes} : (∃ sig, prims.signature bytes = .ok sig) ↔
      ∃ r s, (0 < r ∧ r < n) ∧ (0 < s ∧ s < n) ∧ bytes = Der.encodePair r s := by
  constructor
  · rintro ⟨sig, hsig⟩
    exact ⟨_, _, (h.inRange hsig).1, (h.inRange hsig).2, h.eq_encodePair hn hsig⟩
  · rintro ⟨r, s, hr, hs, rfl⟩
    obtain ⟨sig, hsig, -⟩ := h.exists_signature_encodePair hn hr hs
    exact ⟨sig, hsig⟩

end Primitives

end Signet.Ecdsa
