import Signet.Codec

/-! Signature verification, shared by every family of algorithms. A family names its members,
its default, and how keys and signatures are written. Only the data honours the option
`encoding(E)`. -/

namespace Signet

structure Family where
  /-- The predicate named in errors and logs. -/
  functor : String
  algorithms : List Algorithm
  default : Algorithm
  keyEncoding : Encoding
  signatureEncoding : Encoding

structure Request where
  key : Term
  data : Term
  signature : Term
  options : Term

namespace Family

def eddsa : Family where
  functor := "eddsa_verify/4"
  algorithms := [.ed25519]
  default := .ed25519
  keyEncoding := .octet
  signatureEncoding := .octet

def ecdsa : Family where
  functor := "ecdsa_verify/4"
  algorithms := [.secp256r1, .secp256k1]
  default := .secp256r1
  keyEncoding := .octet
  signatureEncoding := .octet

def names (family : Family) : List String := family.algorithms.map Algorithm.name

/-- The member with the given name. -/
def select (family : Family) (name : String) : Except ErrorKind Algorithm :=
  match family.algorithms.find? (·.name == name) with
  | some algorithm => .ok algorithm
  | none => .error (.domain "type" (.atom name) family.names)

/-- The member named by the option `type(T)`, or by the family's default. -/
def algorithmOf (family : Family) (options : Term) (E : Env) : Traced ErrorKind Algorithm :=
  Options.named "type" options (.atom family.default.name) E family.select

def event (level : Log.Level) (message : String) (fields : List (String × Log.Value)) :
    Traced ε Unit :=
  Traced.emit { level, target := "termcrypt_logic::verify", message, fields }

/-- Puts decoded material to the provider. -/
def check (family : Family) (provider : Provider) (algorithm : Algorithm)
    (key data signature : Bytes) : Traced PredicateError Bool := do
  event .debug "verifying signature" [
    ("predicate", .text family.functor), ("algorithm", .text algorithm.name),
    ("key_len", .count key.length), ("data_len", .count data.length),
    ("signature_len", .count signature.length)]
  Traced.perform (.call (.verify algorithm key data signature))
  match provider.verify algorithm key data signature with
  | .ok verified =>
    event .debug "signature checked" [
      ("predicate", .text family.functor), ("verified", .flag verified)]
    return verified
  | .error e =>
    event .warn (family.functor ++ ": provider rejected inputs: " ++ e.message) []
    Traced.fail ⟨family.functor, .verify, .provider e⟩

/-- Reads the options and the material, then asks the provider. `false` is a signature that
does not verify; an error names the first stage that failed. -/
def verify (family : Family) (request : Request) (provider : Provider) (codec : Codec)
    (E : Env) : Traced PredicateError Bool := do
  let fault (stage : Stage) (kind : ErrorKind) : PredicateError := ⟨family.functor, stage, kind⟩
  let algorithm ← (family.algorithmOf request.options E).mapError (fault .options)
  let key ← (Traced.lift (codec.decode request.key family.keyEncoding E)).mapError
    (fault .publicKey)
  let data ← (codec.decodeBy request.data request.options E).mapError (fault .data)
  let signature ← (Traced.lift (codec.decode request.signature family.signatureEncoding E)).mapError
    (fault .signature)
  family.check provider algorithm key data signature

end Family

end Signet
