import Signet.Crypto.Error

/-! The signature algorithms, known by their lowercase names. -/

namespace Signet

inductive Algorithm where
  | ed25519
  | secp256r1
  | secp256k1
  deriving DecidableEq

namespace Algorithm

def all : List Algorithm := [.ed25519, .secp256r1, .secp256k1]

def name : Algorithm → String
  | .ed25519 => "ed25519"
  | .secp256r1 => "secp256r1"
  | .secp256k1 => "secp256k1"

def ofName (name : String) : Except CryptoError Algorithm :=
  match all.find? (·.name == name) with
  | some algorithm => .ok algorithm
  | none => .error (.unsupportedAlgorithm name)

end Algorithm

end Signet
