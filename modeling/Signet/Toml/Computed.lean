import Signet.Toml.Document
import Signet.Toml.Library

/-! A library that computes, for documents such as configurations are: values that are strings,
booleans and integers that are not negative, then tables of these, one below the other, under bare
keys. Anything is read, but no other document is written, and no error gives a reason. -/

namespace Signet.Toml

mutual

def Item.value : Item → Value
  | .text s => .text s
  | .integer n => .integer n
  | .float => .float
  | .boolean b => .boolean b
  | .dateTime => .dateTime
  | .array _ items => .array (itemValues items)
  | .table _ entries => .table (entryValues entries)

def itemValues : List Item → List Value
  | [] => []
  | item :: rest => item.value :: itemValues rest

def entryValues : Entries → Table
  | [] => []
  | entry :: rest => entryValue entry :: entryValues rest

def entryValue : String × Item → String × Value
  | (key, item) => (key, item.value)

end

/-- The text of a value behind an equals sign. -/
def Value.write? : Value → Option String
  | .text s => some (Quoted.write s)
  | .integer n => if 0 ≤ n ∧ n < 0x8000000000000000 then some (toString n.toNat) else none
  | .boolean b => some (toString b)
  | _ => none

namespace Table

/-- A line for each value. -/
def lines? : Table → Option String
  | [] => some ""
  | (key, value) :: rest => do
    return key ++ " = " ++ (← value.write?) ++ "\n" ++ (← lines? rest)

/-- The lines of each table behind a blank line and a header. -/
def sections? : Table → Option String
  | [] => some ""
  | (key, .table entries) :: rest => do
    return "\n[" ++ key ++ "]\n" ++ (← lines? entries) ++ (← sections? rest)
  | _ :: _ => none

/-- The lines of the values up to the first table, then the tables. -/
def write? : Table → Option String
  | [] => some ""
  | (key, .table entries) :: rest => sections? ((key, .table entries) :: rest)
  | (key, value) :: rest => do
    return key ++ " = " ++ (← value.write?) ++ "\n" ++ (← write? rest)

end Table

def Library.computed : Library where
  read of? text :=
    match (Toml.read? text).bind fun entries => of? (entryValues entries) with
    | some a => .ok a
    | none => .error ""
  write table :=
    match Table.write? table with
    | some text => .ok text
    | none => .error ""

end Signet.Toml
