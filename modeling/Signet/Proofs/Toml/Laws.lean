import Mathlib
import Signet.Toml.Document
import Signet.Toml.Library

/-! # What is taken for granted of a library

A library keeps a document if it reads the text that it writes as this document. It keeps single
strings, booleans and integers, in whatever form it writes them, and what can be put together from
documents that it keeps: entries one after the other, and tables in tables. -/
namespace Signet.Toml

/-- A key that needs no quotes. -/
def Key.IsBare (key : String) : Prop := key.toList ≠ [] ∧ ∀ c ∈ key.toList, isBareChar c = true

instance (key : String) : Decidable (Key.IsBare key) :=
  decidable_of_iff (key.toList ≠ [] ∧ key.toList.all Key.isBareChar = true)
    (by rw [Key.IsBare, List.all_eq_true])

/-- The value takes up a single entry. -/
def Value.IsPlain : Value → Prop
  | .text _ | .integer _ | .boolean _ => True
  | _ => False

namespace Table

def IsPlain (table : Table) : Prop := ∀ e ∈ table, e.2.IsPlain

/-- Keys are bare, and none stands twice. -/
structure HasKeys (table : Table) : Prop where
  bare : ∀ e ∈ table, Key.IsBare e.1
  distinct : (table.map Prod.fst).Nodup

/-- The keys are in order, those in the tables within too. -/
structure IsProper (table : Table) : Prop where
  keys : table.HasKeys
  inner {key : String} {entries : Table} : (key, .table entries) ∈ table → entries.HasKeys

end Table

namespace Library

variable (toml : Library)

/-- The table has a text, and whatever is made of it is read from this text. -/
def Keeps (table : Table) : Prop :=
  ∃ text, toml.write table = .ok text ∧
    ∀ {α : Type} (of? : Table → Option α) a, of? table = some a → toml.read of? text = .ok a

/-- Single entries are kept, an integer if it takes no more than 63 bits, and so are plain entries
in front of others and plain entries in a table of their own. -/
structure KeepsEntries : Prop where
  text {key : String} (s : String) : Key.IsBare key → toml.Keeps [(key, .text s)]
  boolean {key : String} (b : Bool) : Key.IsBare key → toml.Keeps [(key, .boolean b)]
  integer {key : String} {n : Nat} : Key.IsBare key → n ≤ 2 ^ 63 - 1 →
    toml.Keeps [(key, .integer n)]
  append {front back : Table} : Table.IsProper (front ++ back) → front.IsPlain →
    toml.Keeps front → toml.Keeps back → toml.Keeps (front ++ back)
  table {key : String} {entries : Table} : Table.IsProper [(key, .table entries)] →
    entries.IsPlain → toml.Keeps entries → toml.Keeps [(key, .table entries)]

end Library

end Signet.Toml
