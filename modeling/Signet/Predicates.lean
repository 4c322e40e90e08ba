import Signet.Env.Unify
import Signet.Verify

/-! The predicates.

* `sha_hash(+Data, ?Hash)`: the digest of the text of an atom, as a byte list.
* `hex_bytes(?Hex, ?Bytes)`: an atom of hexadecimal digits and the list of the bytes it spells.
* `eddsa_verify(+Key, +Data, +Signature, +Options)` and `ecdsa_verify`, with the same arguments:
  whether a signature verifies.

Each is evaluated to the bindings of its one solution, or to `none` when it fails. -/

namespace Signet

inductive Determinism where
  /-- Exactly one solution, or an error. -/
  | det
  /-- At most one solution. -/
  | semidet

def Determinism.name : Determinism → String
  | .det => "Det"
  | .semidet => "SemiDet"

structure PredicateInfo where
  name : String
  arity : Nat
  determinism : Determinism

def PredicateInfo.indicator (info : PredicateInfo) : String :=
  info.name ++ "/" ++ toString info.arity

structure Predicates where
  provider : Provider
  codec : Codec

namespace Predicates

def table : List PredicateInfo := [
  ⟨"sha_hash", 2, .det⟩,
  ⟨"hex_bytes", 2, .det⟩,
  ⟨"eddsa_verify", 4, .semidet⟩,
  ⟨"ecdsa_verify", 4, .semidet⟩]

/-- A short description. The provider is not shown. -/
def text (preds : Predicates) : String :=
  "CryptoPredicates \x7b codec: TermCodec \x7b max_bytes: " ++ toString preds.codec.maxBytes ++
    " \x7d, .. \x7d"

def shaHash (preds : Predicates) (data hash : Term) (E : Env) :
    Traced PredicateError (Option Env) := do
  let text ← (Traced.lift (E.atomName data)).mapError (⟨"sha_hash/2", .arguments, ·⟩)
  let bytes := utf8 text
  Traced.perform (.call (.hash bytes))
  Traced.emit {
    level := .debug
    target := "termcrypt_logic::predicates"
    message := "sha_hash/2: hashed " ++ toString bytes.length ++ " bytes"
    fields := [] }
  return E.unify hash (.ofBytes (preds.provider.hash bytes).toList)

/-- With `hex` bound its bytes are unified with `bytes`; otherwise the digits of `bytes` are
unified with `hex`. -/
def hexBytes (preds : Predicates) (hex bytes : Term) (E : Env) :
    Except PredicateError (Option Env) :=
  let fault (stage : Stage) (kind : ErrorKind) : PredicateError := ⟨"hex_bytes/2", stage, kind⟩
  match E.resolve hex with
  | .atom text => do
    let decoded ← (preds.codec.hexDigits text).mapError (fault .hex)
    let target := E.resolve bytes
    if target.isVar || target.isListLike then return E.unify bytes (.ofBytes decoded)
    else throw (fault .arguments (.type .list target))
  | .var _ =>
    match E.resolve bytes with
    | .var v => throw (fault .arguments (.instantiation (.var v)))
    | list => do
      if list.isListLike then
        let decoded ← (preds.codec.octets list E).mapError (fault .bytes)
        return E.unify hex (.ofHex decoded)
      else throw (fault .arguments (.type .list list))
  | other => throw (fault .arguments (.type .atom other))

/-- Succeeds with the bindings unchanged if the signature verifies. -/
def verifies (preds : Predicates) (family : Family) (request : Request) (E : Env) :
    Traced PredicateError (Option Env) := do
  let verified ← family.verify request preds.provider preds.codec E
  return if verified then some E else none

/-- The evaluation of a call; `none` for an unknown name or a wrong number of arguments. -/
def call? (preds : Predicates) (name : String) (args : List Term) :
    Option (Env → Traced PredicateError (Option Env)) :=
  match name, args with
  | "sha_hash", [data, hash] => some (preds.shaHash data hash)
  | "hex_bytes", [hex, bytes] => some fun E => Traced.lift (preds.hexBytes hex bytes E)
  | "eddsa_verify", [key, data, signature, options] =>
    some (preds.verifies .eddsa ⟨key, data, signature, options⟩)
  | "ecdsa_verify", [key, data, signature, options] =>
    some (preds.verifies .ecdsa ⟨key, data, signature, options⟩)
  | _, _ => none

end Predicates

end Signet
