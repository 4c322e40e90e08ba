import Signet.Term.Basic

/-! The text of a term. An atom stands as it is when it is `[]` or begins with a lowercase
ASCII letter and goes on in ASCII letters, digits and underscores; any other atom is put
between quotes, where a quote and a backslash are escaped. List cells are written in
brackets, with a bar before a last tail other than `[]`. -/

namespace Signet

namespace Atom

def isPlain (name : String) : Bool :=
  name == "[]" ||
    match name.toList with
    | c :: cs => c.isLower && cs.all fun c => c.isAlphanum || c == '_'
    | [] => false

/-- One character of a quoted atom. -/
def escape (c : Char) : List Char := if c = '\'' ∨ c = '\\' then ['\\', c] else [c]

def text (name : String) : String :=
  if isPlain name then name else String.ofList ('\'' :: name.toList.flatMap escape ++ ['\''])

end Atom

namespace Term

/-- What stands before and after a term that is no list cell. Inside an open bracket it is the
last tail: it follows a bar, and the bracket is closed behind it. -/
def around (inTail : Bool) (text : String) : String :=
  if inTail then "|" ++ text ++ "]" else text

mutual

/-- Writes a term behind `acc`. With `inTail` the term is the tail of the cells written since
the last open bracket. -/
def write (inTail : Bool) (acc : String) : Term → String
  | .var v => acc ++ around inTail ("_G" ++ toString v)
  | .atom a => acc ++ if inTail && a == "[]" then "]" else around inTail (Atom.text a)
  | .int i => acc ++ around inTail (toString i.toInt)
  | .compound "." [head, tail] =>
    write true (write false (acc ++ if inTail then "," else "[") head) tail
  | .compound f args =>
    writeArgs true (acc ++ (if inTail then "|" else "") ++ Atom.text f ++ "(") args ++
      if inTail then ")]" else ")"

/-- Writes the arguments of a compound, with a comma between two of them. -/
def writeArgs (first : Bool) (acc : String) : List Term → String
  | [] => acc
  | t :: ts => writeArgs false (write false (if first then acc else acc ++ ",") t) ts

end

def text (t : Term) : String := write false "" t

/-- The text of a term, marked as one. -/
def label (t : Term) : String := "Term(" ++ t.text ++ ")"

/-- The text of what a term holds, marked with its kind. An integer is not marked. -/
def contentLabel? (t : Term) : Option String :=
  match t with
  | .var v => some ("Variable(" ++ toString v ++ ")")
  | .atom a => some ("Atom(" ++ Atom.text a ++ ")")
  | .int _ => none
  | .compound .. => some ("Compound(" ++ t.text ++ ")")

end Term

end Signet
