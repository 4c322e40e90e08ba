import Mathlib
import Signet.Proofs.Crypto.Signatures

/-! # What is an error and what merely does not verify

With primitives that read the encodings of keys and signatures and no others, an error is told by key
and signature alone, and by the key first; the message matters only if both are what they should be,
and then only to the answer yes or no. -/
namespace Signet

namespace Ecdsa.Curve

variable {prims : Primitives} {curve : Curve} {key digest signature : Bytes} {e : CryptoError}

/-- The bytes are the encoding of two numbers in range. -/
def IsSignature (curve : Curve) (signature : Bytes) : Prop :=
  ∃ r s, (0 < r ∧ r < curve.order) ∧ (0 < s ∧ s < curve.order) ∧ signature = Der.encodePair r s

/-- What is wrong with bytes that are no key. -/
inductive KeyFault : Curve → (key : Bytes) → CryptoError → Prop
  | shape {key : Bytes} : ¬ IsCompressed key →
      KeyFault .secp256r1 key (.invalidKey
        ("secp256r1: expected a 33-byte compressed point, got " ++ toString key.length ++ " bytes"))
  | point {key : Bytes} : IsCompressed key → ¬ Sec1.IsAbscissa Signet.secp256r1 key.tail →
      KeyFault .secp256r1 key (.invalidKey "secp256r1: point is not on the curve")
  | sec1 {key : Bytes} : ¬ Sec1.IsPoint Signet.secp256k1 key →
      KeyFault .secp256k1 key
        (.invalidKey ("secp256k1: malformed SEC1 point 0x" ++ Hex.encode key))

theorem KeyFault.not_isKey (h : curve.KeyFault key e) : ¬ curve.IsKey key := by
  cases h with
  | shape hshape => exact fun hkey => hshape hkey.1
  | point _ hpoint => exact fun hkey => hpoint hkey.2
  | sec1 hpoint => exact hpoint

theorem KeyFault.unique {e' : CryptoError} (h : curve.KeyFault key e)
    (h' : curve.KeyFault key e') : e = e' := by
  cases h with
  | shape hshape =>
    cases h' with
    | shape _ => rfl
    | point hshape' _ => exact absurd hshape' hshape
  | point hshape _ =>
    cases h' with
    | shape hshape' => exact absurd hshape hshape'
    | point _ _ => rfl
  | sec1 _ =>
    cases h' with
    | sec1 _ => rfl

/-- Reading gives a key, and the bytes are one, or it tells what is wrong with them. -/
theorem readKey_cases (h : prims.ReadsKeys curve) (key : Bytes) :
    (∃ point, curve.readKey prims key = .ok point ∧ curve.IsKey key) ∨
      ∃ e, curve.readKey prims key = .error e ∧ curve.KeyFault key e := by
  cases curve with
  | secp256r1 =>
    by_cases hshape : IsCompressed key
    · have hkey := h key hshape
      cases hpoint : prims.key? key with
      | none =>
        rw [hpoint, Option.isSome_none, Bool.false_eq_true, false_iff] at hkey
        refine .inr ⟨_, ?_, .point hshape fun hx => hkey ⟨hshape, hx⟩⟩
        simp [readKey, hshape, hpoint]
      | some point =>
        refine .inl ⟨point, ?_, hkey.mp (by rw [hpoint, Option.isSome_some])⟩
        simp [readKey, hshape, hpoint]
    · exact .inr ⟨_, if_neg hshape, .shape hshape⟩
  | secp256k1 =>
    have hkey := h key trivial
    cases hpoint : prims.key? key with
    | none =>
      rw [hpoint, Option.isSome_none, Bool.false_eq_true, false_iff] at hkey
      refine .inr ⟨_, ?_, .sec1 hkey⟩
      simp [readKey, hpoint]
    | some point =>
      refine .inl ⟨point, ?_, hkey.mp (by rw [hpoint, Option.isSome_some])⟩
      simp [readKey, hpoint]

theorem isSignature_iff (h : prims.ReadsPairs curve.order) :
    curve.IsSignature signature ↔ ∃ sig, prims.signature signature = .ok sig :=
  (h.exists_signature_iff curve.order_le).symm

theorem verify_error_iff (hkeys : prims.ReadsKeys curve) (hpairs : prims.ReadsPairs curve.order) :
    curve.verify prims key digest signature = .error e ↔
      curve.KeyFault key e ∨
        curve.IsKey key ∧ ¬ curve.IsSignature signature ∧
          ∃ reason, prims.signature signature = .error reason ∧
            curve.unreadable reason = .error e := by
  rw [verify_eq, isSignature_iff hpairs]
  rcases readKey_cases hkeys key with ⟨point, hread, hkey⟩ | ⟨e', hread, hfault⟩
  · rw [hread]
    have hno : ∀ e', ¬ curve.KeyFault key e' := fun e' h => h.not_isKey hkey
    cases hsig : prims.signature signature with
    | error reason => simp [hno, hkey]
    | ok sig => simp [hno]
  · rw [hread]
    dsimp only
    rw [Except.error.injEq]
    constructor
    · rintro rfl
      exact .inl hfault
    · rintro (h | ⟨hkey, -⟩)
      · exact hfault.unique h
      · exact absurd hkey hfault.not_isKey

theorem readable_of_verify (hkeys : prims.ReadsKeys curve) (hpairs : prims.ReadsPairs curve.order)
    (h : curve.verify prims key digest signature = .ok true) :
    curve.IsKey key ∧ curve.IsSignature signature := by
  obtain ⟨point, sig, hread, hsig⟩ := exists_signature_of_verify h
  refine ⟨?_, (isSignature_iff hpairs).mpr ⟨sig, hsig⟩⟩
  rcases readKey_cases hkeys key with ⟨_, _, hkey⟩ | ⟨e, herror, _⟩
  · exact hkey
  · cases hread.symm.trans herror

end Ecdsa.Curve

namespace Ed25519

variable {prims : Primitives} {key message signature : Bytes}

/-- There are 64 bytes, and the number in the second half is below the order of the base point. -/
def IsSignature (signature : Bytes) : Prop :=
  signature.length = 64 ∧ Bytes.toNatLE (signature.drop 32) < Edwards.order

theorem verify_error_iff {e : CryptoError} :
    verify prims key message signature = .error e ↔
      key.length ≠ 32 ∧ e = .keyLength 32 key.length := by
  unfold verify
  split
  · rename_i hlen
    rw [Except.error.injEq, eq_comm (a := e)]
    exact ⟨fun h => ⟨hlen, h⟩, fun h => h.2⟩
  · rename_i hlen
    split
    · simp [not_not.mp hlen]
    · split <;> simp [not_not.mp hlen]

theorem readable_of_verify (hreads : prims.ReadsEncodings)
    (h : verify prims key message signature = .ok true) : IsKey key ∧ IsSignature signature := by
  unfold verify at h
  split at h
  · cases h
  · rename_i hlen
    rw [not_not] at hlen
    split at h
    · cases h
    · rename_i point hpoint
      split at h
      · cases h
      · rename_i sig hsig
        exact ⟨(hreads.key key hlen).mp (Option.isSome_of_mem hpoint),
          (hreads.signature signature).mp (Option.isSome_of_mem hsig),
          hreads.reduced hsig (Except.ok.inj h)⟩

end Ed25519

namespace Algorithm

def IsKey : Algorithm → Bytes → Prop
  | .ed25519 => Ed25519.IsKey
  | .secp256r1 => Ecdsa.Curve.secp256r1.IsKey
  | .secp256k1 => Ecdsa.Curve.secp256k1.IsKey

def IsSignature : Algorithm → Bytes → Prop
  | .ed25519 => Ed25519.IsSignature
  | .secp256r1 => Ecdsa.Curve.secp256r1.IsSignature
  | .secp256k1 => Ecdsa.Curve.secp256k1.IsSignature

/-- What is wrong with a key that is an error. -/
inductive KeyFault : Algorithm → (key : Bytes) → CryptoError → Prop
  | length {key : Bytes} : key.length ≠ 32 → KeyFault .ed25519 key (.keyLength 32 key.length)
  | secp256r1 {key : Bytes} {e : CryptoError} :
      Ecdsa.Curve.secp256r1.KeyFault key e → KeyFault .secp256r1 key e
  | secp256k1 {key : Bytes} {e : CryptoError} :
      Ecdsa.Curve.secp256k1.KeyFault key e → KeyFault .secp256k1 key e

/-- What is wrong with a key and a signature, the key first. Why a signature cannot be read is told by
the primitives. -/
inductive Fault (prims : Primitives) : Algorithm → (key signature : Bytes) → CryptoError → Prop
  | key {algorithm : Algorithm} {key signature : Bytes} {e : CryptoError} :
      algorithm.KeyFault key e → Fault prims algorithm key signature e
  | signature {key signature : Bytes} {reason : String} :
      secp256k1.IsKey key → ¬ secp256k1.IsSignature signature →
      prims.secp256k1.signature signature = .error reason →
      Fault prims .secp256k1 key signature (.signatureEncoding ("secp256k1: " ++ reason))

variable {prims : Primitives} {algorithm : Algorithm} {key message signature : Bytes}

theorem verify_error_iff (h : prims.ReadsEncodings) {e : CryptoError} :
    (Provider.standard prims).verify algorithm key message signature = .error e ↔
      Fault prims algorithm key signature e := by
  cases algorithm with
  | ed25519 =>
    refine Ed25519.verify_error_iff.trans ⟨?_, ?_⟩
    · rintro ⟨hlen, rfl⟩
      exact .key (.length hlen)
    · intro h
      cases h with
      | key h =>
        cases h with
        | length hlen => exact ⟨hlen, rfl⟩
  | secp256r1 =>
    refine (@Ecdsa.Curve.verify_error_iff prims.secp256r1 .secp256r1 key message signature e
      h.secp256r1Keys h.secp256r1Pairs).trans ⟨?_, ?_⟩
    · rintro (h | ⟨-, -, _, -, h⟩)
      · exact .key (.secp256r1 h)
      · cases h
    · intro h
      cases h with
      | key h =>
        cases h with
        | secp256r1 h => exact .inl h
  | secp256k1 =>
    refine (@Ecdsa.Curve.verify_error_iff prims.secp256k1 .secp256k1 key message signature e
      h.secp256k1Keys h.secp256k1Pairs).trans ⟨?_, ?_⟩
    · rintro (h | ⟨hkey, hsig, reason, hreason, h⟩)
      · exact .key (.secp256k1 h)
      · cases h
        exact .signature hkey hsig hreason
    · intro h
      cases h with
      | key h =>
        cases h with
        | secp256k1 h => exact .inl h
      | signature hkey hsig hreason => exact .inr ⟨hkey, hsig, _, hreason, rfl⟩

theorem readable_of_verify (h : prims.ReadsEncodings)
    (hverify : (Provider.standard prims).verify algorithm key message signature = .ok true) :
    algorithm.IsKey key ∧ algorithm.IsSignature signature := by
  cases algorithm with
  | ed25519 => exact Ed25519.readable_of_verify h.ed25519 hverify
  | secp256r1 =>
    exact @Ecdsa.Curve.readable_of_verify prims.secp256r1 .secp256r1 key message signature
      h.secp256r1Keys h.secp256r1Pairs hverify
  | secp256k1 =>
    exact @Ecdsa.Curve.readable_of_verify prims.secp256k1 .secp256k1 key message signature
      h.secp256k1Keys h.secp256k1Pairs hverify

/-- The signature tells an error only for secp256k1. -/
theorem Fault.of_ne {e : CryptoError} (h : Fault prims algorithm key signature e)
    (hne : algorithm ≠ .secp256k1) : algorithm.KeyFault key e := by
  cases h with
  | key h => exact h
  | signature _ _ _ => exact absurd rfl hne

end Algorithm

/-- With primitives that read the encodings of keys and signatures: an error is one of those told by
key and signature. A fault of the key comes first, whatever the signature; the message has no part in
any error, and for the algorithms other than secp256k1 neither has the signature. Only a key that is a
point and a signature of the right form verify; without them there is either an error or the answer
no. -/
theorem Provider.standard_verdict (prims : Primitives) (h : prims.ReadsEncodings)
    (algorithm : Algorithm) (key message signature : Bytes) :
    let verify := (standard prims).verify
    (∀ e, verify algorithm key message signature = .error e ↔
      algorithm.Fault prims key signature e) ∧
    (∀ e, algorithm.KeyFault key e → ∀ message signature,
      verify algorithm key message signature = .error e) ∧
    (∀ e other, verify algorithm key message signature = .error e ↔
      verify algorithm key other signature = .error e) ∧
    (algorithm ≠ .secp256k1 → ∀ e message' signature',
      verify algorithm key message signature = .error e ↔
        verify algorithm key message' signature' = .error e) ∧
    (verify algorithm key message signature = .ok true →
      algorithm.IsKey key ∧ algorithm.IsSignature signature) ∧
    ((∀ e, ¬ algorithm.Fault prims key signature e) →
      ¬ (algorithm.IsKey key ∧ algorithm.IsSignature signature) →
      verify algorithm key message signature = .ok false) := by
  intro verify
  have herror : ∀ {message signature e}, verify algorithm key message signature = .error e ↔
      algorithm.Fault prims key signature e := Algorithm.verify_error_iff h
  refine ⟨fun e => herror, ?_, ?_, ?_, Algorithm.readable_of_verify h, ?_⟩
  · intro e hfault message signature
    exact herror.mpr (.key hfault)
  · intro e other
    rw [herror, herror]
  · intro hne e message' signature'
    rw [herror, herror]
    exact ⟨fun h => .key (h.of_ne hne), fun h => .key (h.of_ne hne)⟩
  · intro hfault hreadable
    cases hverify : verify algorithm key message signature with
    | error e => exact absurd (herror.mp hverify) (hfault e)
    | ok answer =>
      cases answer with
      | true => exact absurd (Algorithm.readable_of_verify h hverify) hreadable
      | false => rfl

/-- No bytes are a key of secp256k1, whatever the signature; the base point is one, and then an empty
signature is an error. For Ed25519 a key of the right length that is no point is no error. The
abscissa of the base point of secp256r1, as both numbers of a signature, verifies for zeros. -/
theorem Provider.standard_verdict_stages :
    let prims := Primitives.computed
    let verify := (standard prims).verify
    let point (tag : UInt8) (x : Nat) : Bytes := tag :: Bytes.ofNatBE 32 x
    let x := secp256r1.baseX.val
    prims.ReadsEncodings ∧
    (∀ message signature, verify .secp256k1 [] message signature =
      .error (.invalidKey "secp256k1: malformed SEC1 point 0x")) ∧
    (∀ message, verify .secp256k1 (point 2 secp256k1.baseX.val) message [] =
      .error (.signatureEncoding "secp256k1: signature error")) ∧
    verify .ed25519 (2 :: List.replicate 31 0) [] [] = .ok false ∧
    (∀ message signature e,
      verify .ed25519 (2 :: List.replicate 31 0) message signature ≠ .error e) ∧
    Algorithm.secp256r1.IsKey (point 3 x) ∧
    Algorithm.secp256r1.IsSignature (Der.encodePair x x) := by
  intro prims verify point x
  have hreads : prims.ReadsEncodings := Primitives.readsEncodings_computed
  have hnone : Algorithm.secp256k1.KeyFault []
      (.invalidKey "secp256k1: malformed SEC1 point 0x") := by
    refine .secp256k1 (.sec1 ?_)
    intro h
    cases h
  have herror : verify .secp256k1 (point 2 secp256k1.baseX.val) [] [] =
      .error (.signatureEncoding "secp256k1: signature error") := by decide +kernel
  have hnopoint : ¬ Algorithm.ed25519.IsKey (2 :: List.replicate 31 0) := by
    rintro ⟨hlen, hpoint⟩
    rw [← Edwards.isSome_decode?_iff hlen] at hpoint
    exact absurd hpoint (by decide +kernel)
  have hfault : ∀ signature e,
      ¬ Algorithm.ed25519.Fault prims (2 :: List.replicate 31 0) signature e := by
    intro signature e h
    cases h.of_ne (by decide) with
    | length hlen => exact hlen rfl
  have htrue : verify .secp256r1 (point 3 x) (List.replicate 32 0) (Der.encodePair x x) =
      .ok true := by decide +kernel
  obtain ⟨-, -, -, -, hreadable, -⟩ := standard_verdict prims hreads .secp256r1 (point 3 x)
    (List.replicate 32 0) (Der.encodePair x x)
  obtain ⟨herrors, -, -, hsame, -, hfalse⟩ :=
    standard_verdict prims hreads .ed25519 (2 :: List.replicate 31 0) [] []
  refine ⟨hreads, ?_, ?_, hfalse (hfault []) (fun h => hnopoint h.1), ?_, hreadable htrue⟩
  · exact (standard_verdict prims hreads .secp256k1 [] [] []).2.1 _ hnone
  · intro message
    exact ((standard_verdict prims hreads .secp256k1 _ [] []).2.2.1 _ message).mp herror
  · intro message signature e h
    exact hfault [] e ((herrors e).mp ((hsame (by decide) e message signature).mpr h))

end Signet
