import Signet.Regex.Symbol

/-! Classes of characters in brackets, such as `[^a-z[:digit:]--[x]]`. What is read is the depth of
a class: brackets, several items side by side, and each of the operations `&&`, `--` and `~~`
count one. -/

namespace Signet.Regex

/-- The depth of several things side by side; a single one adds nothing. -/
def sideBySide : List Nat → Nat
  | [] => 0
  | [depth] => depth
  | depths => 1 + depths.foldl max 0

namespace Brackets

/-- A class that is being read. -/
structure Draft where
  /-- Nothing but hyphens so far: a hyphen, or a closing bracket in front, is a character. -/
  fresh : Bool
  /-- The depth of what stands before the last operation. -/
  left : Option Nat
  /-- The depths of the items behind it, the last one first. -/
  items : List Nat

namespace Draft

def add (d : Draft) (depth : Nat) : Draft := { d with items := depth :: d.items }

/-- The depth without the brackets. -/
def depth (d : Draft) : Nat :=
  match d.left with
  | none => sideBySide d.items
  | some left => 1 + max left (sideBySide d.items)

/-- The draft behind an operation. -/
def operate (d : Draft) : Draft := ⟨false, some d.depth, []⟩

end Draft

def names : List String := ["alnum", "alpha", "ascii", "blank", "cntrl", "digit", "graph",
  "lower", "print", "punct", "space", "upper", "word", "xdigit"]

/-- Reads a class such as `[:alpha:]` behind its bracket; says whether it is negated. -/
def named? : List Char → Option (Bool × List Char)
  | ':' :: cs =>
    let (negated, cs) :=
      match cs with
      | '^' :: rest => (true, rest)
      | _ => (false, cs)
    let name := cs.takeWhile (· != ':')
    match cs.drop name.length with
    | ':' :: ']' :: rest => if names.contains (String.ofList name) then some (negated, rest) else none
    | _ => none
  | _ => none

/-- Begins a class behind its bracket. -/
def open? (f : Flags) (cs : List Char) : Option (Draft × List Char) :=
  let cs := f.skip cs
  let (negated, rest) :=
    match cs with
    | '^' :: rest => (true, rest)
    | _ => (false, cs)
  if Symbol.admitsNegation f negated then some (⟨true, none, []⟩, rest) else none

/-- Reads a character, a named class or a range. -/
def item? (f : Flags) (cs : List Char) : Option (List Char) := do
  let (first, rest) ← Symbol.readInside? f cs
  guard (first.admitsInside f)
  match f.skip rest with
  | '-' :: behind =>
    if f.peek behind = some ']' ∨ f.peek behind = some '-' then some ('-' :: behind)
    else
      let (last, rest) ← Symbol.readInside? f (f.skip behind)
      guard (last.admitsInside f)
      match first, last with
      | .char a _, .char b _ => if a ≤ b then some rest else none
      | _, _ => none
  | rest => some rest

/-- Whether two characters are an operation. -/
def isOperation (c d : Char) : Bool := c == d && (c == '&' || c == '-' || c == '~')

/-- Reads on with the classes that are open, the innermost first, in at most `bound` rounds: the
depth of the outermost class, and what follows it. -/
def read? (f : Flags) (d : Draft) (outer : List Draft) : Nat → List Char → Option (Nat × List Char)
  | 0, _ => none
  | bound + 1, cs =>
    match f.skip cs with
    | [] => none
    | c :: rest =>
      let isChar := d.fresh && (c == '-' || (c == ']' && d.items.isEmpty))
      let inner := { d with fresh := d.fresh && c == '-' }
      if isChar then
        if Symbol.admitsInside f (.char c false) then read? f (inner.add 0) outer bound rest else none
      else if c = ']' then
        match outer with
        | [] => some (1 + d.depth, rest)
        | parent :: outer => read? f (parent.add (1 + d.depth)) outer bound rest
      else if c = '[' then
        match named? rest with
        | some (negated, rest) =>
          if Symbol.admitsNegation f negated && Symbol.admitsInside f (.char 'a' false) then
            read? f (inner.add 0) outer bound rest
          else none
        | none => do
          let (nested, rest) ← open? f rest
          read? f nested (inner :: outer) bound rest
      else
        match rest with
        | e :: behind =>
          if isOperation c e then read? f inner.operate outer bound behind
          else do read? f (inner.add 0) outer bound (← item? f (c :: rest))
        | [] => none

/-- Reads a class behind its opening bracket. -/
def class? (f : Flags) (cs : List Char) : Option (Nat × List Char) := do
  let (d, rest) ← open? f cs
  read? f d [] (rest.length + 1) rest

end Brackets

end Signet.Regex
