import Signet.Text.Blank

/-! The settings of a regular expression that decide how it is read. They change in mid
expression, as by `(?i-u)`, and a group restores them at its end. -/

namespace Signet.Regex

structure Flags where
  /-- Case does not count. -/
  caseless : Bool
  /-- Characters are matched, not bytes. -/
  unicode : Bool
  /-- Blanks and comments stand for nothing. -/
  verbose : Bool

namespace Flags

def standard : Flags := ⟨false, true, false⟩

/-- The letters that flags are written by. -/
def letters : List Char := ['i', 'm', 's', 'U', 'u', 'R', 'x']

/-- Whether flags are well written: no letter twice, and at most one hyphen, which stands before
the letters it negates. -/
def isWritten (cs : List Char) : Bool :=
  cs.all (fun c => (c == '-' || letters.contains c) && cs.count c == 1) && cs.getLast? != some '-'

/-- The flags after those written in `cs`: set before the hyphen, cleared behind it. -/
def change (f : Flags) (cs : List Char) : Flags :=
  let on := cs.takeWhile (· != '-')
  let off := cs.drop on.length
  let now (c : Char) (old : Bool) : Bool := on.contains c || (old && !off.contains c)
  ⟨now 'i' f.caseless, now 'u' f.unicode, now 'x' f.verbose⟩

/-- What follows blanks and comments; a comment ends with its line. -/
def skipBlank (inComment : Bool) : List Char → List Char
  | [] => []
  | c :: rest =>
    if inComment then skipBlank (c != '\n') rest
    else if Text.isBlank c then skipBlank false rest
    else if c = '#' then skipBlank true rest
    else c :: rest

/-- What comes next. -/
def skip (f : Flags) (cs : List Char) : List Char := if f.verbose then skipBlank false cs else cs

/-- The character that decides whether a hyphen in brackets makes a range, looked up behind the
hyphen. The first mark of a comment counts as a blank here, but not the comment itself. -/
def peek (f : Flags) (cs : List Char) : Option Char :=
  if f.verbose then
    match cs.dropWhile Text.isBlank with
    | '#' :: rest => (rest.dropWhile Text.isBlank).head?
    | rest => rest.head?
  else cs.head?

end Flags

end Signet.Regex
