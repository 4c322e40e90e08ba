import Signet.Toml.Scalar

/-! Strings between quotes: basic strings, with escapes, and literal strings, without; each on
one line or, between triple quotes, on several. The writer prefers a basic string without
escapes, then a literal one, then the forms for several lines, and escapes only what no form
can hold. -/

namespace Signet.Toml.Quoted

/-- Tab, or any character but the other control characters. -/
def isPlain (c : Char) : Bool := c == '\t' || (32 ≤ c.toNat && c.toNat ≠ 127)

/-- The character with the number written by exactly so many digits. -/
def numbered? (size : Nat) (digits : List Char) : Option Char :=
  if digits.length = size ∧ digits.all Scalar.isHexDigit then
    let n := Scalar.ofDigits 16 digits
    if n.isValidChar then some (Char.ofNat n) else none
  else none

def lettered? (c : Char) : Option Char :=
  if c = 'b' then some '\x08'
  else if c = 't' then some '\t'
  else if c = 'n' then some '\n'
  else if c = 'f' then some '\x0c'
  else if c = 'r' then some '\r'
  else if c = '"' ∨ c = '\\' then some c
  else none

/-- The character of an escape, read behind its backslash, and what follows. -/
def unescape? : List Char → Option (Char × List Char)
  | [] => none
  | c :: rest =>
    if c = 'u' then (numbered? 4 (rest.take 4)).map (·, rest.drop 4)
    else if c = 'U' then (numbered? 8 (rest.take 8)).map (·, rest.drop 8)
    else (lettered? c).map (·, rest)

theorem length_of_unescape? {cs rest : List Char} {c : Char}
    (h : unescape? cs = some (c, rest)) : rest.length < cs.length := by
  cases cs with
  | nil => cases h
  | cons d ds =>
    simp only [unescape?] at h
    split at h
    · obtain ⟨_, _, e⟩ := Option.map_eq_some_iff.mp h
      cases e
      simp only [List.length_drop, List.length_cons]
      omega
    · split at h
      · obtain ⟨_, _, e⟩ := Option.map_eq_some_iff.mp h
        cases e
        simp only [List.length_drop, List.length_cons]
        omega
      · obtain ⟨_, _, e⟩ := Option.map_eq_some_iff.mp h
        cases e
        simp

/-- A character in front of what was read behind it. -/
def push (c : Char) (read : Option (List Char × List Char)) : Option (List Char × List Char) :=
  read.map fun (text, rest) => (c :: text, rest)

/-- The rest of a basic string on one line. -/
def basic (cs : List Char) : Option (List Char × List Char) :=
  match cs with
  | [] => none
  | c :: rest =>
    if c = '"' then some ([], rest)
    else if c = '\\' then
      match _h : unescape? rest with
      | some (d, behind) => push d (basic behind)
      | none => none
    else if isPlain c then push c (basic rest)
    else none
termination_by cs.length
decreasing_by
  · have := length_of_unescape? _h
    simp only [List.length_cons]
    omega
  · simp

/-- The rest of a literal string on one line. -/
def literal : List Char → Option (List Char × List Char)
  | [] => none
  | c :: rest =>
    if c = '\'' then some ([], rest)
    else if isPlain c then push c (literal rest)
    else none

/-- The number of leading `quote` characters, five at most, and what follows them. -/
def leading (quote : Char) (cs : List Char) : Nat × List Char :=
  let n := ((cs.take 5).takeWhile (· == quote)).length
  (n, cs.drop n)

/-- What follows a line break and any blanks and line breaks behind it. -/
def skipLines : List Char → List Char
  | [] => []
  | c :: rest => if c = ' ' ∨ c = '\t' ∨ c = '\n' then skipLines rest else c :: rest

/-- The text with each carriage return that stands before a line feed left out. -/
def unixLines : List Char → List Char
  | '\r' :: '\n' :: rest => '\n' :: unixLines rest
  | c :: rest => c :: unixLines rest
  | [] => []

/-- What follows a backslash at the end of a line: the text of the next line that has any. -/
def continueLine? (cs : List Char) : Option (List Char) :=
  match cs.dropWhile fun c => c == ' ' || c == '\t' with
  | '\n' :: rest => some (skipLines rest)
  | _ => none

theorem length_skipLines (cs : List Char) : (skipLines cs).length ≤ cs.length := by
  induction cs with
  | nil => simp [skipLines]
  | cons c rest ih =>
    simp only [skipLines]
    split
    · simp only [List.length_cons]
      omega
    · exact Nat.le_refl _

theorem length_of_continueLine? {cs rest : List Char} (h : continueLine? cs = some rest) :
    rest.length < cs.length := by
  unfold continueLine? at h
  split at h
  · rename_i behind e
    cases h
    have h1 := length_skipLines behind
    have h2 := (List.dropWhile_sublist (l := cs) fun c => c == ' ' || c == '\t').length_le
    rw [e, List.length_cons] at h2
    omega
  · cases h

/-- The rest of a basic string on several lines. Line breaks are line feeds here; up to two
quotes may stand before the closing ones. -/
def basicLines (cs : List Char) : Option (List Char × List Char) :=
  match cs with
  | [] => none
  | c :: rest =>
    if c = '"' then
      let (n, behind) := leading '"' cs
      if 3 ≤ n then some (List.replicate (n - 3) '"', behind)
      else push c (basicLines rest)
    else if c = '\\' then
      match _h : continueLine? rest with
      | some behind => basicLines behind
      | none =>
        match _h' : unescape? rest with
        | some (d, behind) => push d (basicLines behind)
        | none => none
    else if isPlain c || c == '\n' then push c (basicLines rest)
    else none
termination_by cs.length
decreasing_by
  · simp
  · have := length_of_continueLine? _h
    simp only [List.length_cons]
    omega
  · have := length_of_unescape? _h'
    simp only [List.length_cons]
    omega
  · simp

/-- The rest of a literal string on several lines. -/
def literalLines (cs : List Char) : Option (List Char × List Char) :=
  match cs with
  | [] => none
  | c :: rest =>
    if c = '\'' then
      let (n, behind) := leading '\'' cs
      if 3 ≤ n then some (List.replicate (n - 3) '\'', behind)
      else push c (literalLines rest)
    else if isPlain c || c == '\n' then push c (literalLines rest)
    else none

/-- What follows opening triple quotes: a line break right behind them is not part of the
string. -/
def opened : List Char → List Char
  | '\n' :: rest => rest
  | cs => cs

/-- Reads a string of any form. -/
def read? (cs : List Char) : Option (String × List Char) :=
  let body : Option (List Char × List Char) :=
    match cs with
    | '"' :: '"' :: '"' :: rest => basicLines (opened rest)
    | '"' :: rest => basic rest
    | '\'' :: '\'' :: '\'' :: rest => literalLines (opened rest)
    | '\'' :: rest => literal rest
    | _ => none
  body.map fun (text, rest) => (String.ofList text, rest)

/-- The longest run of `quote`, behind a run of `n` of them. -/
def longestRun (quote : Char) (n : Nat) : List Char → Nat
  | [] => n
  | c :: rest => if c = quote then longestRun quote (n + 1) rest else max n (longestRun quote 0 rest)

inductive Form where
  | basic
  | literal
  | basicLines
  | literalLines
  deriving DecidableEq

/-- The form that a text is written in. -/
def form (text : List Char) : Form :=
  let controls := text.any fun c => !isPlain c && c != '\n'
  let newline := text.contains '\n'
  let backslash := text.contains '\\'
  let quotes := longestRun '"' 0 text
  let apostrophes := longestRun '\'' 0 text
  if !controls && !backslash && quotes == 0 && !newline then .basic
  else if !controls && apostrophes == 0 && !newline then .literal
  else if !controls && !backslash && quotes ≤ 2 then .basicLines
  else if !controls && apostrophes ≤ 2 then .literalLines
  else if newline then .basicLines
  else .basic

def hexDigit (n : Nat) : Char := if n < 10 then Char.ofNat (48 + n) else Char.ofNat (55 + n)

/-- A character in a basic string. -/
def escape (c : Char) : List Char :=
  if c = '\x08' then ['\\', 'b']
  else if c = '\t' then ['\\', 't']
  else if c = '\n' then ['\\', 'n']
  else if c = '\x0c' then ['\\', 'f']
  else if c = '\r' then ['\\', 'r']
  else if c = '"' ∨ c = '\\' then ['\\', c]
  else if isPlain c then [c]
  else ['\\', 'u', '0', '0', hexDigit (c.toNat / 16), hexDigit (c.toNat % 16)]

/-- The inside of a basic string on several lines, behind a run of `n` quotes: the third quote
of a run is escaped. -/
def escapeLines (n : Nat) : List Char → List Char
  | [] => []
  | c :: rest =>
    if c = '"' then
      if n < 2 then c :: escapeLines (n + 1) rest else '\\' :: c :: escapeLines 0 rest
    else (if c = '\n' then [c] else escape c) ++ escapeLines 0 rest

def write (text : String) : String :=
  let cs := text.toList
  let break' := if cs.contains '\n' then ['\n'] else []
  String.ofList <|
    match form cs with
    | .basic => '"' :: cs.flatMap escape ++ ['"']
    | .literal => '\'' :: cs ++ ['\'']
    | .basicLines => ['"', '"', '"'] ++ break' ++ escapeLines 0 cs ++ ['"', '"', '"']
    | .literalLines => ['\'', '\'', '\''] ++ break' ++ cs ++ ['\'', '\'', '\'']

end Signet.Toml.Quoted
