import Signet.Options

/-! Byte strings as terms. There are two encodings: `hex`, an atom of hexadecimal digits, and
`octet`, a proper list of integers from 0 to 255. Reading is bounded by a number of bytes. -/

namespace Signet

inductive Encoding where
  | hex
  | octet
  deriving DecidableEq

namespace Encoding

def all : List Encoding := [.hex, .octet]

def name : Encoding → String
  | .hex => "hex"
  | .octet => "octet"

instance : Inhabited Encoding := ⟨.hex⟩

def ofName (name : String) : Except ErrorKind Encoding :=
  match all.find? (·.name == name) with
  | some encoding => .ok encoding
  | none => .error (.domain "encoding" (.atom name) (all.map Encoding.name))

/-- The encoding named by the option `encoding(E)`; `hex` when there is none. -/
def ofOptions (options : Term) (E : Env) : Traced ErrorKind Encoding :=
  Options.named "encoding" options (.atom hex.name) E ofName

end Encoding

namespace Term

/-- The list of the byte values, in order. -/
def ofBytes (bytes : Bytes) : Term := ofList (bytes.map fun b => .int (Int64.ofNat b.toNat))

/-- The atom of the lowercase digits. -/
def ofHex (bytes : Bytes) : Term := .atom (Hex.encode bytes)

def byte (t : Term) : Except ErrorKind UInt8 :=
  match t with
  | .int i =>
    if 0 ≤ i.toInt ∧ i.toInt ≤ 255 then .ok (UInt8.ofNat i.toInt.toNat)
    else .error (.type .byte (.int i))
  | .var v => .error (.instantiation (.var v))
  | other => .error (.type .byte other)

end Term

structure Codec where
  /-- The longest byte string that is read from a term. -/
  maxBytes : Nat

namespace Codec

def defaultMaxBytes : Nat := 1048576

/-- The bytes of a proper list; the first offence along the list is the error. -/
def octets (codec : Codec) (t : Term) (E : Env) : Except ErrorKind Bytes := do
  let (items, stop) := E.items codec.maxBytes t
  let bytes ← items.mapM Term.byte
  match stop with
  | some e => .error e.kind
  | none => .ok bytes

/-- The bytes spelled by the text of an atom. The limit is checked before the digits. -/
def hexDigits (codec : Codec) (text : String) : Except ErrorKind Bytes :=
  if text.utf8ByteSize / 2 > codec.maxBytes then .error (.resource "byte length" codec.maxBytes)
  else
    match Hex.decode (utf8 text) with
    | .ok bytes => .ok bytes
    | .error e =>
      .error (.malformed ("invalid hexadecimal " ++ Atom.text text ++ ": " ++ e.message))

/-- Reads a term in a given encoding. -/
def decode (codec : Codec) (t : Term) (encoding : Encoding) (E : Env) :
    Except ErrorKind Bytes :=
  match encoding, E.resolve t with
  | .hex, .atom text => codec.hexDigits text
  | .hex, other => .error (.type .atom other)
  | .octet, list =>
    if list.isListLike then codec.octets list E else .error (.type .list list)

/-- Reads a term in the encoding that the options name. -/
def decodeBy (codec : Codec) (t options : Term) (E : Env) : Traced ErrorKind Bytes := do
  let encoding ← Encoding.ofOptions options E
  Traced.lift (codec.decode t encoding E)

end Codec

end Signet
