/-! Why a key or a signature cannot be interpreted at all. A signature that merely does not
verify is no error. -/

namespace Signet

inductive CryptoError where
  | unsupportedAlgorithm (name : String)
  | keyLength (expected actual : Nat)
  | invalidKey (reason : String)
  | signatureEncoding (reason : String)
  deriving DecidableEq

def CryptoError.message : CryptoError → String
  | .unsupportedAlgorithm name => "Unsupported algorithm: " ++ name
  | .keyLength expected actual =>
    "Invalid public key length: expected " ++ toString expected ++ ", got " ++ toString actual
  | .invalidKey reason => "Invalid public key: " ++ reason
  | .signatureEncoding reason => "Invalid signature encoding: " ++ reason

end Signet
