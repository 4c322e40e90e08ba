import Signet.Env.Items
import Signet.Error
import Signet.Traced

/-! Option lists, such as `[encoding(octet), type(secp256k1)]`. The first entry whose functor
is the key gives the value; entries with another functor are skipped whatever their arity.
An entry that is no compound, and a `key` entry whose arity is not one, are errors, unless
an earlier entry has decided. -/

namespace Signet.Options

def decide? (key : String) : List Term → Option (Except ErrorKind Term)
  | [] => none
  | .compound f args :: rest =>
    if f = key then
      match args with
      | [value] => some (.ok value)
      | _ => some (.error (.domain "option" (.compound f args) []))
    else decide? key rest
  | .var v :: _ => some (.error (.instantiation (.var v)))
  | other :: _ => some (.error (.type .compound other))

def found (how key : String) (value : Term) : Traced ErrorKind Term := do
  Traced.emit {
    level := .trace
    target := "termcrypt_logic::options"
    message := how
    fields := [("option", .text key), ("value", .text value.text)] }
  return value

/-- The value of option `key`, not resolved, or `default` when no entry gives one. -/
def get (key : String) (options default : Term) (E : Env) : Traced ErrorKind Term :=
  let (entries, stop) := E.items defaultListLimit options
  match decide? key entries, stop with
  | some (.ok value), _ => found "option resolved" key value
  | some (.error e), _ => .fail e
  | none, some e => .fail e.kind
  | none, none => found "option defaulted" key default

end Signet.Options

namespace Signet

/-- The name of the atom that a term resolves to. -/
def Env.atomName (E : Env) (t : Term) : Except ErrorKind String :=
  match E.resolve t with
  | .atom name => .ok name
  | other => .error (.type .atom other)

/-- The member that option `key` names, or `default` when no entry gives one. -/
def Options.named (key : String) (options default : Term) (E : Env)
    (member : String → Except ErrorKind α) : Traced ErrorKind α := do
  let value ← get key options default E
  let name ← Traced.lift (E.atomName value)
  Traced.lift (member name)

end Signet
