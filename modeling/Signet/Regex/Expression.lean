import Signet.Regex.Brackets
import Signet.Text.Alphanumeric

/-! Whether a text is a regular expression for which an automaton can be built. Nothing is
matched here, so all that is kept of an expression is its depth, which is limited, and
whether it has a boundary between words in the sense of Unicode, which no automaton can
find. Braces are never complete in the texts that are checked, so an opening brace outside
brackets is an error. -/

namespace Signet.Regex

inductive Fault where
  | malformed
  | wordBoundary
  deriving DecidableEq

def Fault.message : Fault → String
  | .malformed => "error building NFA"
  | .wordBoundary =>
    "unsupported regex feature for DFAs: cannot build DFAs for regexes with Unicode word " ++
      "boundaries; switch to ASCII word boundaries, or heuristically enable Unicode word " ++
      "boundaries or use a different regex engine"

/-- The greatest depth of an expression. -/
def maxDepth : Nat := 250

inductive Piece where
  /-- A change of flags, which cannot be repeated. -/
  | flags
  | term (depth : Nat)

def Piece.depth : Piece → Nat
  | .flags => 0
  | .term depth => depth

/-- The part of an expression between the parentheses of one group. -/
structure Level where
  /-- The depths of the alternatives that are complete. -/
  branches : List Nat
  /-- The pieces of the alternative that is being read, the last one first. -/
  pieces : List Piece

namespace Level

def empty : Level := ⟨[], []⟩

def add (l : Level) (p : Piece) : Level := { l with pieces := p :: l.pieces }

def nextBranch (l : Level) : Level :=
  ⟨sideBySide (l.pieces.map Piece.depth) :: l.branches, []⟩

def depth (l : Level) : Nat := sideBySide l.nextBranch.branches

/-- Repeats the last piece. -/
def repeat? (l : Level) : Option Level :=
  match l.pieces with
  | .term depth :: rest => some { l with pieces := .term (1 + depth) :: rest }
  | _ => none

end Level

/-- An expression of which a part has been read. -/
structure Draft where
  flags : Flags
  /-- The names of groups. -/
  names : List (List Char)
  /-- Whether there was a boundary between words. -/
  boundary : Bool
  level : Level
  /-- The levels around it and their flags, the innermost first. -/
  outer : List (Level × Flags)

namespace Draft

def start : Draft := ⟨.standard, [], false, .empty, []⟩

def add (d : Draft) (p : Piece) : Draft := { d with level := d.level.add p }

def enter (d : Draft) (flags : Flags) : Draft :=
  { d with flags, level := .empty, outer := (d.level, d.flags) :: d.outer }

/-- Leaves a group. -/
def leave? (d : Draft) : Option Draft :=
  match d.outer with
  | [] => none
  | (level, flags) :: outer =>
    some { d with flags, level := level.add (.term (1 + d.level.depth)), outer }

def isNameChar (c : Char) : Bool :=
  c == '_' || c == '.' || c == '[' || c == ']' || Text.isAlphanumeric c

/-- A name begins with a letter or an underscore. -/
def isName : List Char → Bool
  | [] => false
  | c :: rest => (c == '_' || Text.isLetter c) && rest.all isNameChar

/-- Enters a group with a name that no other group has. -/
def named? (d : Draft) (cs : List Char) : Option (Draft × List Char) :=
  let name := cs.takeWhile (· != '>')
  match cs.drop name.length with
  | _ :: rest =>
    if isName name && !d.names.contains name then
      some ({ d with names := name :: d.names }.enter d.flags, rest)
    else none
  | [] => none

/-- Changes the flags from here on, or in a group. -/
def flagged? (d : Draft) (cs : List Char) : Option (Draft × List Char) :=
  let written := cs.takeWhile fun c => c != ':' && c != ')'
  if Flags.isWritten written then
    match cs.drop written.length with
    | ':' :: rest => some (d.enter (d.flags.change written), rest)
    | _ :: rest =>
      if written.isEmpty then none
      else some ({ d with flags := d.flags.change written }.add .flags, rest)
    | [] => none
  else none

/-- Reads on behind an opening parenthesis. What would look ahead or back is refused, as its mark
is neither a flag nor a name. -/
def group? (d : Draft) (cs : List Char) : Option (Draft × List Char) :=
  match d.flags.skip cs with
  | '?' :: 'P' :: '<' :: rest => d.named? rest
  | '?' :: '<' :: rest => d.named? rest
  | '?' :: rest => d.flagged? rest
  | rest => some (d.enter d.flags, rest)

/-- Reads a symbol. -/
def symbol? (d : Draft) (cs : List Char) : Option (Draft × List Char) := do
  let (symbol, rest) ← Symbol.read? d.flags cs
  guard (symbol.admits d.flags)
  let boundary :=
    match symbol with
    | .wordBoundary => d.flags.unicode
    | _ => false
  some ({ d with boundary := d.boundary || boundary }.add (.term 0), rest)

/-- Reads on to the end in at most `bound` rounds. -/
def read? (d : Draft) : Nat → List Char → Option Draft
  | 0, _ => none
  | bound + 1, cs =>
    match d.flags.skip cs with
    | [] => if d.outer.isEmpty then some d else none
    | c :: rest => do
      if c = '(' then
        let (d, rest) ← d.group? rest
        read? d bound rest
      else if c = ')' then read? (← d.leave?) bound rest
      else if c = '|' then read? { d with level := d.level.nextBranch } bound rest
      else if c = '[' then
        let (depth, rest) ← Brackets.class? d.flags rest
        read? (d.add (.term depth)) bound rest
      else if c = '?' ∨ c = '*' ∨ c = '+' then
        let level ← d.level.repeat?
        -- a question mark behind the sign asks for the shortest match
        let rest :=
          match rest with
          | '?' :: behind => behind
          | _ => rest
        read? { d with level } bound rest
      else if c = '{' then none
      else
        let (d, rest) ← d.symbol? (c :: rest)
        read? d bound rest

end Draft

/-- Checks an expression. -/
def check (cs : List Char) : Except Fault Unit :=
  match Draft.start.read? (cs.length + 1) cs with
  | none => .error .malformed
  | some d =>
    if maxDepth < d.level.depth then .error .malformed
    else if d.boundary then .error .wordBoundary
    else .ok ()

end Signet.Regex
