import Signet.Regex.Expression
import Signet.Text.Numeral

/-! Log filters: directives between commas, such as `info`, `codec=debug` or
`codec[span{field=value}]=trace`. A directive is a level or a target alone, or a target or a
span, or both, with an optional level behind an equals sign. A target alone is any text, so a
misspelt level is taken for one. The value of a field is a number or a regular expression. -/

namespace Signet

inductive FilterError where
  | directive
  | field (cause : Regex.Fault)
  | level
  deriving DecidableEq

def FilterError.message : FilterError → String
  | .directive => "invalid filter directive"
  | .field cause => "invalid field filter: " ++ cause.message
  | .level =>
    "error parsing level filter: expected one of \"off\", \"error\", \"warn\", \"info\", " ++
      "\"debug\", \"trace\", or a number 0-5"

namespace LogFilter

def levelNames : List String := ["off", "error", "warn", "info", "debug", "trace"]

/-- A level is a name in any case or a number up to five. The empty text stands for the
lowest level. -/
def isLevel (cs : List Char) : Bool :=
  let digits :=
    match cs with
    | '+' :: rest => rest
    | _ => cs
  cs.isEmpty || levelNames.contains (String.ofList (cs.map Char.toLower)) ||
    (!digits.isEmpty && digits.all Char.isDigit &&
      digits.foldl (fun n c => n * 10 + (c.toNat - 48)) 0 ≤ 5)

/-- Checks a field: a name, and a value if there is an equals sign. A second equals sign ends the
value. -/
def checkField (cs : List Char) : Except FilterError Unit :=
  match Text.splitAt '=' cs with
  | _ :: value :: _ =>
    if Text.isNumeral value then .ok () else (Regex.check value).mapError .field
  | _ => .ok ()

/-- What the characters of a directive so far are part of. -/
inductive Scan where
  | start
  | name
  | span
  /-- A field that begins at a byte offset. -/
  | field (offset : Nat)
  | fieldsEnd
  | spanEnd
  /-- A level that begins at a byte offset. -/
  | level (offset : Nat)

/-- One more character, at byte offset `i`. A field is cut out of the directive `whole`. -/
def Scan.step (whole : List Char) (i : Nat) (c : Char) : Scan → Except FilterError Scan
  | .start =>
    if c = '[' then .ok .span
    else if c = '-' ∨ c = ':' ∨ c = '_' ∨ Text.isAlphanumeric c then .ok .name
    else .error .directive
  | .name => .ok (if c = '=' then .level (i + 1) else if c = '[' then .span else .name)
  | .span =>
    .ok (if c = ']' then .spanEnd else if c = '\x7b' then .field (i + 1) else .span)
  | .field offset =>
    if c ≠ '\x7d' then .ok (.field offset)
    else if i = offset then .error .directive
    else do
      checkField (Text.takeBytes (i - offset) (Text.dropBytes offset whole))
      return .fieldsEnd
  | .fieldsEnd => if c = ']' then .ok .spanEnd else .error .directive
  | .spanEnd => if c = '=' then .ok (.level (i + 1)) else .error .directive
  | .level offset => .ok (.level offset)

def Scan.run (whole : List Char) (i : Nat) (s : Scan) : List Char → Except FilterError Scan
  | [] => .ok s
  | c :: rest => do (← s.step whole i c).run whole (i + c.utf8Size) rest

/-- Checks one directive. It is scanned without the blanks around it, but fields and level are
taken from the text as it stands, at the offsets found by the scan. -/
def checkDirective (cs : List Char) : Except FilterError Unit := do
  match ← Scan.start.run cs 0 (Text.trim cs) with
  | .name | .spanEnd => return
  | .level offset => if isLevel (Text.dropBytes offset cs) then return else throw .level
  | _ => throw .directive

/-- Checks a filter: the first directive in error decides. Empty directives are skipped. -/
def check (filter : String) : Except FilterError Unit :=
  ((Text.splitAt ',' filter.toList).filter (!·.isEmpty)).forM checkDirective

/-- The same check, with the error in words. -/
def computed (filter : String) : Except String Unit := (check filter).mapError (·.message)

end LogFilter

end Signet
