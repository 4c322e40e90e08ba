import Signet.Bytes.Hex
import Signet.Crypto.Error

/-! Ed25519 over the message itself. A key that is no point and a signature that is none do not
verify; only a key of a wrong length is an error. -/

namespace Signet.Ed25519

/-- The operations of the scheme. -/
structure Primitives where
  Key : Type
  Signature : Type
  /-- The key that 32 bytes encode. -/
  key? (bytes : Bytes) : Option Key
  /-- The signature in the bytes. -/
  signature? (bytes : Bytes) : Option Signature
  /-- Whether the signature is one over the message by the holder of the key. -/
  verifies (key : Key) (message : Bytes) (sig : Signature) : Bool

def verify (prims : Primitives) (key message signature : Bytes) : Except CryptoError Bool :=
  if key.length ≠ 32 then .error (.keyLength 32 key.length)
  else
    match prims.key? key with
    | none => .ok false
    | some point =>
      match prims.signature? signature with
      | none => .ok false
      | some sig => .ok (prims.verifies point message sig)

end Signet.Ed25519
