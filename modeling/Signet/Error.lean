import Signet.Term.Error
import Signet.Crypto.Error

/-! The errors of predicates: what went wrong, at which step of which predicate. -/

namespace Signet

/-- What went wrong, whichever predicate was running. -/
inductive ErrorKind where
  | instantiation (culprit : Term)
  | type (expected : TermType) (culprit : Term)
  | domain (name : String) (culprit : Term) (permitted : List String)
  | malformed (detail : String)
  | resource (name : String) (limit : Nat)
  | provider (cause : CryptoError)

namespace ErrorKind

def message : ErrorKind → String
  | .instantiation t => TermError.instantiationMessage t
  | .type expected t => TermError.typeMessage expected t
  | .domain name t permitted =>
    "domain error: invalid " ++ name ++ " " ++ t.text ++
      if permitted.isEmpty then "" else ". Possible values: " ++ ", ".intercalate permitted
  | .malformed detail => "syntax error: " ++ detail
  | .resource name limit => "resource error: " ++ name ++ " exceeds " ++ toString limit
  | .provider cause => "provider error: " ++ cause.message

def isInstantiation : ErrorKind → Bool
  | .instantiation _ => true
  | _ => false

def isType : ErrorKind → Bool
  | .type .. => true
  | _ => false

def isDomain : ErrorKind → Bool
  | .domain .. => true
  | _ => false

def isMalformed : ErrorKind → Bool
  | .malformed _ => true
  | _ => false

end ErrorKind

/-- A list that is too long is a resource that ran out. -/
def TermError.kind : TermError → ErrorKind
  | .instantiation t => .instantiation t
  | .type expected t => .type expected t
  | .tooLong limit => .resource "list length" limit

/-- The step of a predicate at which an error arose. -/
inductive Stage where
  | arguments
  | options
  | publicKey
  | data
  | signature
  | verify
  | hex
  | bytes
  deriving DecidableEq

def Stage.message : Stage → String
  | .arguments => "invalid arguments"
  | .options => "failed to resolve options"
  | .publicKey => "failed to decode public key"
  | .data => "failed to decode data"
  | .signature => "failed to decode signature"
  | .verify => "failed to verify signature"
  | .hex => "failed to decode hexadecimal"
  | .bytes => "failed to convert list into bytes"

structure PredicateError where
  predicate : String
  stage : Stage
  kind : ErrorKind

def PredicateError.message (e : PredicateError) : String :=
  e.predicate ++ ": " ++ e.stage.message ++ ": " ++ e.kind.message

end Signet
