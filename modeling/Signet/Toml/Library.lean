/-! What TOML documents hold, and a library that reads and writes them. -/

namespace Signet.Toml

/-- The value of a float or a date-time is not kept: nothing is read from it. -/
inductive Value where
  | text (value : String)
  | integer (value : Int)
  | float
  | boolean (value : Bool)
  | dateTime
  | array (items : List Value)
  | table (entries : List (String × Value))

/-- The entries of a table, in order. -/
abbrev Table := List (String × Value)

structure Library where
  /-- What `of?` makes of the document in a text; an error tells what is wrong with the text, or
  with the document. -/
  read {α : Type} (of? : Table → Option α) (text : String) : Except String α
  /-- The text of a document, or the reason why it has none. -/
  write (table : Table) : Except String String

end Signet.Toml
