import Signet.Toml.Item

/-! Numbers, booleans and dates: the values that are one run of letters, digits and signs. -/

namespace Signet.Toml.Scalar

/-- The characters of such a run. -/
def isTokenChar (c : Char) : Bool :=
  c.isAlphanum || c == '+' || c == '-' || c == '_' || c == '.' || c == ':'

/-- Digits with single underscores between them, without the underscores. -/
def digits? (isDigit : Char → Bool) : List Char → Option (List Char)
  | [] => none
  | [c] => if isDigit c then some [c] else none
  | c :: '_' :: rest => if isDigit c then (digits? isDigit rest).map (c :: ·) else none
  | c :: rest => if isDigit c then (digits? isDigit rest).map (c :: ·) else none

def isHexDigit (c : Char) : Bool :=
  c.isDigit || ('a' ≤ c && c ≤ 'f') || ('A' ≤ c && c ≤ 'F')

def digitValue (c : Char) : Nat :=
  if c.isDigit then c.toNat - 48 else if 'a' ≤ c then c.toNat - 87 else c.toNat - 55

def ofDigits (base : Nat) (digits : List Char) : Nat :=
  digits.foldl (fun n c => n * base + digitValue c) 0

/-- A leading sign, and what stands behind it. -/
def sign : List Char → Bool × List Char
  | '-' :: rest => (true, rest)
  | '+' :: rest => (false, rest)
  | cs => (false, cs)

/-- Decimal digits without a leading zero, except for zero itself. -/
def decimal? (cs : List Char) : Option Nat := do
  let digits ← digits? Char.isDigit cs
  if digits.head? = some '0' ∧ digits.length ≠ 1 then none else some (ofDigits 10 digits)

/-- An integer of 64 bits. -/
def integer? (cs : List Char) : Option Int := do
  let value : Int ← match cs with
    | '0' :: 'x' :: rest => (digits? isHexDigit rest).map fun d => (ofDigits 16 d : Int)
    | '0' :: 'o' :: rest =>
      (digits? (fun c => '0' ≤ c && c ≤ '7') rest).map fun d => (ofDigits 8 d : Int)
    | '0' :: 'b' :: rest =>
      (digits? (fun c => c == '0' || c == '1') rest).map fun d => (ofDigits 2 d : Int)
    | _ =>
      let (negative, rest) := sign cs
      (decimal? rest).map fun n => if negative then -(n : Int) else n
  if -0x8000000000000000 ≤ value ∧ value < 0x8000000000000000 then some value else none

/-- Whether `n * 10 ^ e` rounds to a finite double. -/
def isFinite (n : Nat) (e : Int) : Bool :=
  let size : Int := (Nat.toDigits 10 n).length + e
  n == 0 || size < 300 ||
    (size < 400 &&
      n * Nat.pow 10 e.toNat < ((1 <<< 1024) - (1 <<< 970)) * Nat.pow 10 (-e).toNat)

/-- Whether a run of characters is a float. One that is too large for a double is refused,
though not one below the range. -/
def isFloat (cs : List Char) : Bool :=
  let (negative, rest) := sign cs
  if rest = ['i', 'n', 'f'] ∨ rest = ['n', 'a', 'n'] then true
  else
    let whole := rest.takeWhile fun c => c.isDigit || c == '_'
    let behind := rest.drop whole.length
    let (fraction, behind) : Option (List Char) × List Char :=
      match behind with
      | '.' :: more =>
        let run := more.takeWhile fun c => c.isDigit || c == '_'
        (digits? Char.isDigit run, more.drop run.length)
      | _ => (some [], behind)
    let exponent : Option Int :=
      match behind with
      | [] => some 0
      | c :: more =>
        if c = 'e' ∨ c = 'E' then
          let (below, run) := sign more
          (digits? Char.isDigit run).map fun d =>
            if below then -(ofDigits 10 d : Int) else ofDigits 10 d
        else none
    match decimal? whole, fraction, exponent with
    | some n, some f, some e =>
      (!f.isEmpty || !behind.isEmpty) &&
        (negative || isFinite (n * Nat.pow 10 f.length + ofDigits 10 f) (e - f.length))
    | _, _, _ => false

/-- A number of exactly so many digits. -/
def fixed? (size : Nat) (cs : List Char) : Option Nat :=
  if cs.length = size ∧ cs.all Char.isDigit then some (ofDigits 10 cs) else none

def daysIn (year month : Nat) : Nat :=
  if month = 2 then
    if year % 4 = 0 ∧ (year % 100 ≠ 0 ∨ year % 400 = 0) then 29 else 28
  else if month = 4 ∨ month = 6 ∨ month = 9 ∨ month = 11 then 30
  else 31

/-- Whether the characters are a date such as `1979-05-27`. -/
def isDate (cs : List Char) : Bool :=
  match fixed? 4 (cs.take 4), fixed? 2 ((cs.drop 5).take 2), fixed? 2 (cs.drop 8) with
  | some year, some month, some day =>
    cs[4]? == some '-' && cs[7]? == some '-' && 1 ≤ month && month ≤ 12 && 1 ≤ day &&
      day ≤ daysIn year month
  | _, _, _ => false

/-- Hours and minutes such as `07:32`. -/
def isHourMinute (cs : List Char) : Bool :=
  match fixed? 2 (cs.take 2), fixed? 2 (cs.drop 3) with
  | some hour, some minute => cs[2]? == some ':' && hour ≤ 23 && minute ≤ 59
  | _, _ => false

/-- What stands behind a time such as `07:32:00.5`. -/
def afterTime? (cs : List Char) : Option (List Char) :=
  match fixed? 2 ((cs.drop 6).take 2) with
  | some second =>
    if isHourMinute (cs.take 5) ∧ cs[5]? = some ':' ∧ second ≤ 60 then
      match cs.drop 8 with
      | '.' :: rest =>
        let behind := rest.dropWhile Char.isDigit
        if behind.length < rest.length then some behind else none
      | rest => some rest
    else none
  | none => none

def isTime (cs : List Char) : Bool := afterTime? cs == some []

/-- A time with an optional distance from universal time. -/
def isTimeWithOffset (cs : List Char) : Bool :=
  match afterTime? cs with
  | some [] => true
  | some (c :: rest) =>
    ((c == 'Z' || c == 'z') && rest.isEmpty) || ((c == '+' || c == '-') && isHourMinute rest)
  | none => false

def isDateTime (cs : List Char) : Bool :=
  isDate cs || isTime cs ||
    (isDate (cs.take 10) && (cs[10]? == some 'T' || cs[10]? == some 't') &&
      isTimeWithOffset (cs.drop 11))

/-- Reads a value that is one run of characters. A date may be followed by a blank and a time. -/
def read? (cs : List Char) : Option (Item × List Char) :=
  let token := cs.takeWhile isTokenChar
  let rest := cs.drop token.length
  if token = ['t', 'r', 'u', 'e'] then some (.boolean true, rest)
  else if token = ['f', 'a', 'l', 's', 'e'] then some (.boolean false, rest)
  else
    match integer? token with
    | some value => some (.integer value, rest)
    | none =>
      if isFloat token then some (.float, rest)
      else if isDateTime token then
        match rest with
        | ' ' :: more =>
          let time := more.takeWhile isTokenChar
          if isDate token && isTimeWithOffset time then
            some (.dateTime, more.drop time.length)
          else some (.dateTime, rest)
        | _ => some (.dateTime, rest)
      else none

end Signet.Toml.Scalar
