import Signet.Term.Text

/-! What can be wrong with a term that is walked under bindings. -/

namespace Signet

/-- The kinds of term that an operation may ask for. -/
inductive TermType where
  | atom
  | integer
  | byte
  | compound
  | list
  deriving DecidableEq

def TermType.name : TermType → String
  | .atom => "atom"
  | .integer => "integer"
  | .byte => "byte"
  | .compound => "compound"
  | .list => "list"

inductive TermError where
  | instantiation (culprit : Term)
  | type (expected : TermType) (culprit : Term)
  | tooLong (limit : Nat)

namespace TermError

def instantiationMessage (culprit : Term) : String :=
  "instantiation error: " ++ culprit.text ++ " is not sufficiently instantiated"

def typeMessage (expected : TermType) (culprit : Term) : String :=
  "type error: expected " ++ expected.name ++ ", found " ++ culprit.text

def message : TermError → String
  | .instantiation t => instantiationMessage t
  | .type expected t => typeMessage expected t
  | .tooLong limit => "list exceeds " ++ toString limit ++ " elements"

end TermError

end Signet
