import Signet.Bytes.Hex
import Signet.Crypto.Error

/-! ECDSA over a message digest. What bytes are a key or a signature, and which signatures are
valid, is up to the primitives of a curve. The two curves differ in what a malformed key or
signature is: for secp256r1 a malformed signature does not verify, for secp256k1 it is an
error. -/

namespace Signet.Ecdsa

/-- The operations on one curve. -/
structure Primitives where
  Key : Type
  Signature : Type
  /-- The key that the bytes encode. -/
  key? (bytes : Bytes) : Option Key
  /-- The signature that the bytes encode, or the reason why they encode none. -/
  signature (bytes : Bytes) : Except String Signature
  /-- The two numbers that make up a signature. -/
  numbers (sig : Signature) : Nat × Nat
  /-- Whether the signature is one over the digest by the holder of the key. -/
  verifies (key : Key) (digest : Bytes) (sig : Signature) : Bool

/-- Verification on secp256r1. The key is a compressed point of 33 bytes. -/
def verifySecp256r1 (prims : Primitives) (key digest signature : Bytes) :
    Except CryptoError Bool :=
  if key.length ≠ 33 ∨ (key.head? ≠ some 2 ∧ key.head? ≠ some 3) then
    .error (.invalidKey
      ("secp256r1: expected a 33-byte compressed point, got " ++ toString key.length ++ " bytes"))
  else
    match prims.key? key with
    | none => .error (.invalidKey "secp256r1: point is not on the curve")
    | some point =>
      match prims.signature signature with
      | .error _ => .ok false
      | .ok sig => .ok (prims.verifies point digest sig)

/-- Verification on secp256k1. The key is any encoding of a point. -/
def verifySecp256k1 (prims : Primitives) (key digest signature : Bytes) :
    Except CryptoError Bool :=
  match prims.key? key with
  | none => .error (.invalidKey ("secp256k1: malformed SEC1 point 0x" ++ Hex.encode key))
  | some point =>
    match prims.signature signature with
    | .error reason => .error (.signatureEncoding ("secp256k1: " ++ reason))
    | .ok sig => .ok (prims.verifies point digest sig)

end Signet.Ecdsa
