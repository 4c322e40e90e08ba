/-! What a TOML document holds. A table remembers how it came about, because that decides
whether a later line may add to it: a table given by its own header or written inline is
complete, one that dotted keys made takes further dotted keys, and one that only a longer
header implied may still get a header of its own. An array made by `[[…]]` headers is open
to more tables; lines in between go to its last one. -/

namespace Signet.Toml

inductive Origin where
  | inline
  | header
  | implied
  | dotted
  deriving DecidableEq

/-- The value of a float or a date-time is not kept: nothing is read from it. -/
inductive Item where
  | text (value : String)
  | integer (value : Int)
  | float
  | boolean (value : Bool)
  | dateTime
  | array (isOpen : Bool) (items : List Item)
  | table (origin : Origin) (entries : List (String × Item))

abbrev Entries := List (String × Item)

namespace Entries

/-- Replaces the entry of `key`, or adds one at the end. -/
def put (entries : Entries) (key : String) (item : Item) : Entries :=
  if (entries.lookup key).isSome then entries.map fun e => if e.1 == key then (key, item) else e
  else entries ++ [(key, item)]

/-- Changes the entries of the last table of an open array. -/
def changeLast (items : List Item) (f : Entries → Option Entries) : Option Item :=
  match items.getLast? with
  | some (.table origin sub) =>
    (f sub).map fun sub => .array true (items.dropLast ++ [.table origin sub])
  | _ => none

/-- Adds the item of a dotted key `path.key`; `none` if the key is taken or the path leads
into something complete. -/
def insert (entries : Entries) (path : List String) (key : String) (item : Item) :
    Option Entries :=
  match path with
  | [] => if (entries.lookup key).isSome then none else some (entries ++ [(key, item)])
  | k :: rest =>
    match entries.lookup k with
    | none => (insert [] rest key item).map fun sub => entries ++ [(k, .table .dotted sub)]
    | some (.table .dotted sub) =>
      (insert sub rest key item).map fun sub => entries.put k (.table .dotted sub)
    | some (.table .implied sub) =>
      if rest.isEmpty then none
      else (insert sub rest key item).map fun sub => entries.put k (.table .implied sub)
    | some (.array true items) =>
      if rest.isEmpty then none
      else (changeLast items fun sub => insert sub rest key item).map (entries.put k)
    | some _ => none

/-- Changes the table that a header path leads to; tables on the way are implied. -/
def change (entries : Entries) (path : List String) (f : Entries → Option Entries) :
    Option Entries :=
  match path with
  | [] => f entries
  | k :: rest =>
    match entries.lookup k with
    | none => (change [] rest f).map fun sub => entries ++ [(k, .table .implied sub)]
    | some (.table .inline _) => none
    | some (.table origin sub) => (change sub rest f).map fun sub => entries.put k (.table origin sub)
    | some (.array true items) =>
      (changeLast items fun sub => change sub rest f).map (entries.put k)
    | some _ => none

/-- Whether a header path is free to be followed, and what stands at its key. -/
def find? (entries : Entries) (path : List String) (key : String) : Option (Option Item) :=
  match path with
  | [] => some (entries.lookup key)
  | k :: rest =>
    match entries.lookup k with
    | none => some none
    | some (.table .inline _) => none
    | some (.table _ sub) => find? sub rest key
    | some (.array true items) =>
      match items.getLast? with
      | some (.table _ sub) => find? sub rest key
      | _ => none
    | some _ => none

end Entries

end Signet.Toml
