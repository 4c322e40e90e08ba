import Mathlib
import Signet.Proofs.Crypto.Signatures

/-! # What counts of a digest

A digest counts by the 32 bytes that it is turned into, if there are any. So zeros in front, up to 32
bytes, and bytes behind the first 32 make no difference, and no digest changes what is an error. -/
namespace Signet.Ecdsa

theorem field?_of_short {digest : Bytes} (h : digest.length < 16) : field? digest = none :=
  if_pos h

/-- The digest with zeros in front, up to 32 bytes. -/
def padded (digest : Bytes) : Bytes := List.replicate (32 - digest.length) 0 ++ digest

theorem length_padded {digest : Bytes} (h : digest.length ≤ 32) : (padded digest).length = 32 := by
  rw [padded, List.length_append, List.length_replicate]
  omega

theorem field?_of_length {digest : Bytes} (h : digest.length = 32) : field? digest = some digest := by
  rw [field?, if_neg (by omega), List.take_of_length_le h.le, h]
  rfl

theorem field?_padded {digest : Bytes} (h : 16 ≤ digest.length) (hle : digest.length ≤ 32) :
    field? (padded digest) = field? digest := by
  rw [field?_of_length (length_padded hle), field?, if_neg (by omega), List.take_of_length_le hle,
    padded]

theorem field?_take {digest : Bytes} (h : 32 ≤ digest.length) :
    field? (digest.take 32) = field? digest := by
  have hzero : 32 - digest.length = 0 := by omega
  rw [field?_of_length (List.length_take_of_le h), field?, if_neg (by omega), hzero]
  rfl

theorem field?_append {digest : Bytes} (h : 32 ≤ digest.length) (more : Bytes) :
    field? (digest ++ more) = field? digest := by
  have hmore : 32 ≤ (digest ++ more).length := by
    rw [List.length_append]
    omega
  rw [← field?_take h, ← field?_take hmore, List.take_append_of_le_length h]

namespace Curve

variable {prims : Primitives} {curve : Curve} {key signature digest other : Bytes}

theorem verify_congr (h : prims.TurnsDigests) (hfield : field? digest = field? other) :
    curve.verify prims key digest signature = curve.verify prims key other signature := by
  obtain ⟨test, htest⟩ := h
  simp only [verify_eq, htest, hfield]

theorem verify_ne_true (h : prims.TurnsDigests) (hfield : field? digest = none) :
    curve.verify prims key digest signature ≠ .ok true := by
  obtain ⟨test, htest⟩ := h
  intro hverify
  obtain ⟨point, sig, hkey, hsig⟩ := exists_signature_of_verify hverify
  rw [verify_eq, hkey, hsig] at hverify
  simp [htest, hfield] at hverify

theorem error_of_error {e : CryptoError} (h : curve.verify prims key digest signature = .error e)
    (other : Bytes) : curve.verify prims key other signature = .error e := by
  rw [verify_eq] at h ⊢
  cases hkey : curve.readKey prims key with
  | error e' => rwa [hkey] at h
  | ok point =>
    rw [hkey] at h
    cases hsig : prims.signature signature with
    | error reason => rwa [hsig] at h
    | ok sig => rw [hsig] at h; cases h

end Curve

/-- On both curves, with primitives that turn a digest into 32 bytes and do all else with these: a
digest of less than 16 bytes never verifies; one of up to 31 bytes counts as it does with zeros in
front up to 32; one of more counts by its first 32 bytes, whatever stands behind them. An error is the
same whatever the digest. -/
theorem digest_length_law (curve : Curve) (prims : Primitives) (h : prims.TurnsDigests)
    (key digest signature : Bytes) :
    (digest.length < 16 → curve.verify prims key digest signature ≠ .ok true) ∧
    (16 ≤ digest.length → digest.length ≤ 31 →
      curve.verify prims key digest signature = curve.verify prims key (padded digest) signature) ∧
    (32 < digest.length → curve.verify prims key digest signature =
      curve.verify prims key (digest.take 32) signature) ∧
    (32 ≤ digest.length → ∀ more, curve.verify prims key (digest ++ more) signature =
      curve.verify prims key digest signature) ∧
    ∀ e other, curve.verify prims key digest signature = .error e ↔
      curve.verify prims key other signature = .error e := by
  refine ⟨fun hlen => Curve.verify_ne_true h (field?_of_short hlen), ?_, ?_, ?_, ?_⟩
  · intro hlen hle
    exact (Curve.verify_congr h (field?_padded hlen (by omega))).symm
  · intro hlen
    exact (Curve.verify_congr h (field?_take hlen.le)).symm
  · intro hlen more
    exact Curve.verify_congr h (field?_append hlen more)
  · intro e other
    exact ⟨fun he => Curve.error_of_error he other, fun he => Curve.error_of_error he digest⟩

/-- By the base point of secp256k1, the pair that has its abscissa twice is a signature for the number
zero: it verifies for 16 zeros, so for 32 of them and with bytes behind these, but not for 15. An
empty signature is an error for every digest. -/
theorem digest_length_law_zeros :
    let prims := Signet.Primitives.computed.secp256k1
    let x := Signet.secp256k1.baseX.val
    let key := 2 :: Bytes.ofNatBE 32 x
    let signature := Der.encodePair x x
    let zeros (n : Nat) : Bytes := List.replicate n 0
    prims.TurnsDigests ∧
      Curve.secp256k1.verify prims key (zeros 15) signature ≠ .ok true ∧
      Curve.secp256k1.verify prims key (zeros 16) signature = .ok true ∧
      Curve.secp256k1.verify prims key (zeros 32) signature = .ok true ∧
      Curve.secp256k1.verify prims key (zeros 32 ++ [1, 2, 3]) signature = .ok true ∧
      ∀ digest, Curve.secp256k1.verify prims key digest [] =
        .error (.signatureEncoding "secp256k1: signature error") := by
  intro prims x key signature zeros
  have hturns : prims.TurnsDigests := turnsDigests_onCurve
  have hlaw := fun digest => digest_length_law .secp256k1 prims hturns key digest signature
  have h16 : Curve.secp256k1.verify prims key (zeros 16) signature = .ok true := by decide +kernel
  have h32 : Curve.secp256k1.verify prims key (zeros 32) signature = .ok true := by
    have hpad := (hlaw (zeros 16)).2.1 (by decide) (by decide)
    rwa [h16, show padded (zeros 16) = zeros 32 by decide, eq_comm] at hpad
  have hmore : Curve.secp256k1.verify prims key (zeros 32 ++ [1, 2, 3]) signature = .ok true := by
    have htake : List.take 32 (zeros 32 ++ [1, 2, 3]) = zeros 32 := by decide
    rw [(hlaw (zeros 32 ++ [1, 2, 3])).2.2.1 (by decide), htake, h32]
  have herror : Curve.secp256k1.verify prims key [] [] =
      .error (.signatureEncoding "secp256k1: signature error") := by decide +kernel
  refine ⟨hturns, (hlaw (zeros 15)).1 (by decide), h16, h32, hmore, ?_⟩
  intro digest
  exact ((digest_length_law .secp256k1 prims hturns key [] []).2.2.2.2 _ digest).mp herror

end Signet.Ecdsa
