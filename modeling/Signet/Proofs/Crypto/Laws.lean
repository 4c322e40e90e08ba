import Signet.Crypto.Standard
import Signet.Proofs.Crypto.Distinguished
import Signet.Proofs.Crypto.Points

/-! # What is taken for granted of the primitives

The primitives are somebody else's. What is relied on is named here, each law apart, so that a result
asks only for those that it needs: which bytes are read as keys and as signatures, and what of a
digest counts. -/
namespace Signet

namespace Ecdsa

/-- The two curves. -/
inductive Curve where
  | secp256r1
  | secp256k1

namespace Curve

def order : Curve → Nat
  | .secp256r1 => Secp256r1.order
  | .secp256k1 => Secp256k1.order

theorem order_le (curve : Curve) : curve.order ≤ 2 ^ 256 := by
  cases curve <;> decide

/-- Verification on the curve, of a digest and a signature by a key. -/
def verify : Curve → Primitives → (key digest signature : Bytes) → Except CryptoError Bool
  | .secp256r1 => verifySecp256r1
  | .secp256k1 => verifySecp256k1

/-- The shape of a compressed point. -/
def IsCompressed (key : Bytes) : Prop :=
  key.length = 33 ∧ (key.head? = some 2 ∨ key.head? = some 3)

instance (key : Bytes) : Decidable (IsCompressed key) :=
  inferInstanceAs (Decidable (_ ∧ _))

/-- What a key has to look like before it is read. -/
def HasShape : Curve → Bytes → Prop
  | .secp256r1, key => IsCompressed key
  | .secp256k1, _ => True

/-- The bytes are a key: a point, which for secp256r1 has to be compressed. -/
def IsKey : Curve → Bytes → Prop
  | .secp256r1, key => IsCompressed key ∧ Sec1.IsAbscissa Signet.secp256r1 key.tail
  | .secp256k1, key => Sec1.IsPoint Signet.secp256k1 key

end Curve

namespace Primitives

variable (prims : Primitives)

/-- Of the bytes in shape those are read as a key that encode a point. -/
def ReadsKeys (curve : Curve) : Prop :=
  ∀ key, curve.HasShape key → ((prims.key? key).isSome = true ↔ curve.IsKey key)

/-- Signatures are read from the distinguished encoding of two integers, lengths and integers in
their shortest form and nothing behind. Both have to be from 1 to below `n`, and of such an
encoding none is refused. -/
structure ReadsPairs (n : Nat) : Prop where
  strict {bytes : Bytes} {sig : prims.Signature} : prims.signature bytes = .ok sig →
    Der.IsPair (prims.numbers sig).1 (prims.numbers sig).2 bytes
  inRange {bytes : Bytes} {sig : prims.Signature} : prims.signature bytes = .ok sig →
    (0 < (prims.numbers sig).1 ∧ (prims.numbers sig).1 < n) ∧
      (0 < (prims.numbers sig).2 ∧ (prims.numbers sig).2 < n)
  accepted {bytes : Bytes} {r s : Nat} : Der.IsPair r s bytes → 0 < r ∧ r < n → 0 < s ∧ s < n →
    ∃ sig, prims.signature bytes = .ok sig

end Primitives

/-- The 32 bytes that a digest is turned into: a short one gets zeros in front, and the end of a
long one is cut off. One of less than 16 bytes is refused. -/
def field? (digest : Bytes) : Option Bytes :=
  if digest.length < 16 then none
  else some (List.replicate (32 - digest.length) 0 ++ digest.take 32)

/-- A digest is first turned into 32 bytes, and all else is done with these. -/
def Primitives.TurnsDigests (prims : Primitives) : Prop :=
  ∃ test : prims.Key → Bytes → prims.Signature → Bool, ∀ key digest sig,
    prims.verifies key digest sig = (field? digest).any (test key · sig)

end Ecdsa

namespace Ed25519

/-- The bytes are the ordinate of some point. -/
def IsKey (key : Bytes) : Prop :=
  key.length = 32 ∧ ∃ x, Edwards.Contains x (Edwards.ordinate key)

/-- Keys are read from the ordinates of points, signatures from any 64 bytes. Those do not verify
whose second half is not below the order of the base point. -/
structure Primitives.ReadsEncodings (prims : Primitives) : Prop where
  key (bytes : Bytes) : bytes.length = 32 → ((prims.key? bytes).isSome = true ↔ IsKey bytes)
  signature (bytes : Bytes) : (prims.signature? bytes).isSome = true ↔ bytes.length = 64
  reduced {bytes message : Bytes} {key : prims.Key} {sig : prims.Signature} :
    prims.signature? bytes = some sig → prims.verifies key message sig = true →
      Bytes.toNatLE (bytes.drop 32) < Edwards.order

end Ed25519

/-- The primitives read the encodings of keys and signatures, and no others. -/
structure Primitives.ReadsEncodings (prims : Primitives) : Prop where
  ed25519 : prims.ed25519.ReadsEncodings
  secp256r1Keys : prims.secp256r1.ReadsKeys .secp256r1
  secp256r1Pairs : prims.secp256r1.ReadsPairs Secp256r1.order
  secp256k1Keys : prims.secp256k1.ReadsKeys .secp256k1
  secp256k1Pairs : prims.secp256k1.ReadsPairs Secp256k1.order

end Signet
