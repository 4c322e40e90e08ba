import Signet.Regex.Flags

/-! The single symbols of a regular expression. Neither the case of characters nor Unicode
properties are known here, and only whole characters may be matched: `admits` says which
symbols can be built under given flags, and `admitsInside` which of them in brackets. -/

namespace Signet.Regex

inductive Symbol where
  /-- A character; `byte` if it was written as two hexadecimal digits. -/
  | char (c : Char) (byte : Bool)
  | dot
  /-- A class of characters named by a letter: digits, blanks, word characters. -/
  | named (negated : Bool)
  /-- The beginning or the end of a line or of the text. -/
  | anchor
  | wordBoundary

namespace Symbol

def isAscii (c : Char) : Bool := c.toNat < 128

/-- Whether a class of characters can be negated: the rest of the bytes is no text. -/
def admitsNegation (f : Flags) (negated : Bool) : Bool := f.unicode || !negated

/-- Without regard to case no character can be matched, unless as a byte. -/
def admits (f : Flags) : Symbol → Bool
  | .char c byte => if f.unicode then !f.caseless else !byte || isAscii c
  | .dot => f.unicode
  | .named negated => !f.unicode && !negated
  | .anchor | .wordBoundary => true

def admitsInside (f : Flags) : Symbol → Bool
  | .char c _ => if f.unicode then !f.caseless else isAscii c
  | .named negated => !f.unicode && !negated
  | .dot | .anchor | .wordBoundary => false

/-- The value of a hexadecimal digit. -/
def hexValue? (c : Char) : Option Nat :=
  if c.isDigit then some (c.toNat - 48)
  else if 'a' ≤ c ∧ c ≤ 'f' then some (c.toNat - 87)
  else if 'A' ≤ c ∧ c ≤ 'F' then some (c.toNat - 55)
  else none

/-- Reads so many hexadecimal digits behind those that make up `n`. -/
def hexDigits? (f : Flags) (n : Nat) : Nat → List Char → Option (Nat × List Char)
  | 0, cs => some (n, f.skip cs)
  | count + 1, cs =>
    match f.skip cs with
    | [] => none
    | c :: rest => do hexDigits? f (n * 16 + (← hexValue? c)) count rest

/-- A character by its number, which takes so many digits. -/
def numbered? (f : Flags) (digits : Nat) (cs : List Char) : Option (Symbol × List Char) := do
  let (n, rest) ← hexDigits? f 0 digits cs
  if n.isValidChar then some (.char (Char.ofNat n) (digits == 2), rest) else none

/-- The control characters that have a letter. -/
def control? (c : Char) : Option Char :=
  [('a', '\x07'), ('f', '\x0c'), ('t', '\t'), ('n', '\n'), ('r', '\r'), ('v', '\x0b')].lookup c

/-- Reads behind a backslash. A backslash before an ASCII character other than a letter, a digit
or an angle bracket stands for that character. There are no back references, and no
properties. -/
def escaped? (f : Flags) : List Char → Option (Symbol × List Char)
  | [] => none
  | c :: rest =>
    if c = 'x' then numbered? f 2 rest
    else if c = 'u' then numbered? f 4 rest
    else if c = 'U' then numbered? f 8 rest
    else if ['d', 's', 'w'].contains c then some (.named false, rest)
    else if ['D', 'S', 'W'].contains c then some (.named true, rest)
    else if c = 'A' ∨ c = 'z' then some (.anchor, rest)
    else if ['b', 'B', '<', '>'].contains c then some (.wordBoundary, rest)
    else if c.isAlphanum then (control? c).map fun c => (.char c false, rest)
    else if isAscii c then some (.char c false, rest)
    else none

/-- Reads a symbol outside brackets. -/
def read? (f : Flags) : List Char → Option (Symbol × List Char)
  | [] => none
  | c :: rest =>
    if c = '\\' then escaped? f rest
    else if c = '.' then some (.dot, rest)
    else if c = '^' ∨ c = '$' then some (.anchor, rest)
    else some (.char c false, rest)

/-- Reads a symbol in brackets, where only the backslash is special. -/
def readInside? (f : Flags) : List Char → Option (Symbol × List Char)
  | [] => none
  | c :: rest => if c = '\\' then escaped? f rest else some (.char c false, rest)

end Symbol

end Signet.Regex
