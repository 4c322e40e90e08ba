import Signet.Bytes.Hex
import Signet.Crypto.Algorithm

/-! What the predicates ask of cryptography: a hash and a signature check. A provider is a
pair of functions, so it answers equal questions alike. -/

namespace Signet

/-- A SHA-256 digest. -/
abbrev Digest := Vector UInt8 32

structure Provider where
  hash (data : Bytes) : Digest
  /-- Whether `signature` over `data` is by the holder of `key`; an error if the inputs
  cannot be interpreted for the algorithm. -/
  verify (algorithm : Algorithm) (key data signature : Bytes) : Except CryptoError Bool

namespace Provider

/-- A provider that gives one answer to every signature, and digests of zeros. -/
def constant (answer : Except CryptoError Bool) : Provider where
  hash _ := Vector.replicate 32 0
  verify _ _ _ _ := answer

/-- A question to a provider. -/
inductive Call where
  | hash (data : Bytes)
  | verify (algorithm : Algorithm) (key data signature : Bytes)

end Provider

end Signet
