import Signet.Crypto.Ecdsa
import Signet.Crypto.Ed25519
import Signet.Crypto.Provider

/-! The standard provider, which leaves the cryptography itself to its primitives. -/

namespace Signet

structure Primitives where
  sha256 (data : Bytes) : Digest
  ed25519 : Ed25519.Primitives
  secp256r1 : Ecdsa.Primitives
  secp256k1 : Ecdsa.Primitives

def Provider.standard (prims : Primitives) : Provider where
  hash := prims.sha256
  verify
    | .ed25519 => Ed25519.verify prims.ed25519
    | .secp256r1 => Ecdsa.verifySecp256r1 prims.secp256r1
    | .secp256k1 => Ecdsa.verifySecp256k1 prims.secp256k1

end Signet
