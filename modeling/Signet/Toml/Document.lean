import Signet.Toml.Quoted

/-! Reading TOML documents. Only acceptance and the value matter here, so a text that is no
document gives `none`. Arrays and inline tables nest less than eighty deep; a loop over
parts, items or lines takes the length of the text as its bound, and each round uses up at
least one character. -/

namespace Signet.Toml

/-- Eighty nested arrays, inline tables or parts of a key are too many. -/
def maxDepth : Nat := 80

def skipSpace (cs : List Char) : List Char := cs.dropWhile fun c => c == ' ' || c == '\t'

/-- What follows blanks, line breaks and comments; `none` if a comment holds a control
character. -/
def skipBlank (inComment : Bool) : List Char → Option (List Char)
  | [] => if inComment then none else some []
  | c :: rest =>
    if c = '\n' then skipBlank false rest
    else if inComment then if Quoted.isPlain c then skipBlank true rest else none
    else if c = ' ' ∨ c = '\t' then skipBlank false rest
    else if c = '#' then skipBlank true rest
    else some (c :: rest)

/-- What follows the rest of a line that holds nothing but blanks and a comment. -/
def endLine? (cs : List Char) : Option (List Char) :=
  let behind :=
    match skipSpace cs with
    | '#' :: rest => rest.dropWhile Quoted.isPlain
    | rest => rest
  match behind with
  | [] => some []
  | '\n' :: rest => some rest
  | _ => none

/-- Consumes one given character. -/
def expect (c : Char) : List Char → Option (List Char)
  | d :: rest => if d = c then some rest else none
  | [] => none

namespace Key

def isBareChar (c : Char) : Bool := c.isAlphanum || c == '_' || c == '-'

def part? (cs : List Char) : Option (String × List Char) :=
  match cs with
  | '"' :: rest => (Quoted.basic rest).map fun (text, rest) => (String.ofList text, rest)
  | '\'' :: rest => (Quoted.literal rest).map fun (text, rest) => (String.ofList text, rest)
  | _ =>
    let bare := cs.takeWhile isBareChar
    if bare.isEmpty then none else some (String.ofList bare, cs.drop bare.length)

/-- The parts of a dotted key, of which there are at most `bound`. -/
def parts? : Nat → List Char → Option (List String × List Char)
  | 0, _ => none
  | bound + 1, cs => do
    let (part, rest) ← part? (skipSpace cs)
    match skipSpace rest with
    | '.' :: rest =>
      let (more, rest) ← parts? bound rest
      some (part :: more, rest)
    | rest => some ([part], rest)

/-- A key as the path to a table and the name in it. -/
def read? (cs : List Char) : Option ((List String × String) × List Char) := do
  let (parts, rest) ← parts? (maxDepth - 1) cs
  let last ← parts.getLast?
  some ((parts.dropLast, last), rest)

end Key

abbrev ReadItem := List Char → Option (Item × List Char)

/-- The items of an array, read behind its bracket or a comma. -/
def arrayItems (item : ReadItem) : Nat → List Char → Option (List Item × List Char)
  | 0, _ => none
  | bound + 1, cs => do
    match ← skipBlank false cs with
    | ']' :: rest => some ([], rest)
    | cs =>
      let (first, rest) ← item cs
      match ← skipBlank false rest with
      | ',' :: rest =>
        let (more, rest) ← arrayItems item bound rest
        some (first :: more, rest)
      | rest => do
        let rest ← expect ']' rest
        some ([first], rest)

/-- The pairs of an inline table, read behind its brace or a comma. -/
def inlinePairs (item : ReadItem) (entries : Entries) : Nat → List Char →
    Option (Entries × List Char)
  | 0, _ => none
  | bound + 1, cs => do
    let ((path, key), rest) ← Key.read? cs
    let rest ← expect '=' rest
    let (value, rest) ← item (skipSpace rest)
    let entries ← entries.insert path key value
    match skipSpace rest with
    | ',' :: rest => inlinePairs item entries bound rest
    | rest => do
      let rest ← expect '}' rest
      some (entries, rest)

/-- A value with less than `depth` arrays and inline tables inside one another. -/
def item? : Nat → ReadItem
  | 0, cs => leaf cs
  | depth + 1, cs =>
    match cs with
    | '[' :: rest =>
      if depth = 0 then none
      else (arrayItems (item? depth) cs.length rest).map fun (items, rest) =>
        (.array false items, rest)
    | '{' :: rest =>
      if depth = 0 then none
      else
        match skipSpace rest with
        | '}' :: rest => some (.table .inline [], rest)
        | rest => (inlinePairs (item? depth) [] cs.length rest).map fun (entries, rest) =>
          (.table .inline entries, rest)
    | _ => leaf cs
where
  leaf (cs : List Char) : Option (Item × List Char) :=
    match cs with
    | '"' :: _ | '\'' :: _ => (Quoted.read? cs).map fun (text, rest) => (.text text, rest)
    | _ => Scalar.read? cs

/-- A document of which some lines have been read: the tables closed so far, and the one that
lines go to, with its place. -/
structure Draft where
  closed : Entries
  current : Entries
  /-- The header of the current table: path, key, and whether it is one of an array. -/
  header : Option (List String × String × Bool)

namespace Draft

def start : Draft := ⟨[], [], none⟩

/-- Puts the current table into its place. -/
def close (d : Draft) : Option Entries :=
  match d.header with
  | none => some d.current
  | some (path, key, false) =>
    d.closed.change path fun parent => some (parent.put key (.table .header d.current))
  | some (path, key, true) =>
    d.closed.change path fun parent =>
      match parent.lookup key with
      | none => some (parent.put key (.array true [.table .header d.current]))
      | some (.array true items) =>
        some (parent.put key (.array true (items ++ [.table .header d.current])))
      | some _ => none

/-- Goes on with the table of a header. A table that was only implied keeps its entries. -/
def openTable (d : Draft) (path : List String) (key : String) : Option Draft := do
  let closed ← d.close
  match ← closed.find? path key with
  | none => some ⟨closed, [], some (path, key, false)⟩
  | some (.table .implied entries) => some ⟨closed, entries, some (path, key, false)⟩
  | some _ => none

/-- Goes on with a new table of an open array. -/
def openArray (d : Draft) (path : List String) (key : String) : Option Draft := do
  let closed ← d.close
  match ← closed.find? path key with
  | none => some ⟨closed, [], some (path, key, true)⟩
  | some (.array true _) => some ⟨closed, [], some (path, key, true)⟩
  | some _ => none

/-- Reads a line that is not blank. -/
def line? (d : Draft) (cs : List Char) : Option (Draft × List Char) :=
  match cs with
  | '[' :: '[' :: rest => do
    let ((path, key), rest) ← Key.read? rest
    let rest ← expect ']' (← expect ']' rest)
    some (← d.openArray path key, ← endLine? rest)
  | '[' :: rest => do
    let ((path, key), rest) ← Key.read? rest
    let rest ← expect ']' rest
    some (← d.openTable path key, ← endLine? rest)
  | _ => do
    let ((path, key), rest) ← Key.read? cs
    let rest ← expect '=' rest
    let (value, rest) ← item? maxDepth (skipSpace rest)
    let current ← d.current.insert path key value
    some ({ d with current }, ← endLine? rest)

/-- Reads up to `bound` lines. -/
def lines? (d : Draft) : Nat → List Char → Option Draft
  | 0, _ => none
  | bound + 1, cs =>
    match skipSpace cs with
    | [] => some d
    | '\n' :: rest => lines? d bound rest
    | '#' :: rest => do lines? d bound (← endLine? ('#' :: rest))
    | cs => do
      let (d, rest) ← d.line? cs
      lines? d bound rest

end Draft

/-- The entries of a document. A byte order mark in front of it is skipped. -/
def read? (text : String) : Option Entries := do
  let cs :=
    match text.toList with
    | '\ufeff' :: rest => rest
    | cs => cs
  let cs := Quoted.unixLines cs
  let draft ← Draft.start.lines? (cs.length + 1) cs
  draft.close

end Signet.Toml
