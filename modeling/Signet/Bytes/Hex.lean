/-! Hexadecimal text. Writing gives two lowercase digits per byte. Reading works on the
bytes of the text: an odd number of them is refused first, then the first byte that is no
digit of either case. -/

namespace Signet

abbrev Bytes := List UInt8

/-- The bytes of a text in UTF-8. -/
def utf8 (text : String) : Bytes := text.toUTF8.data.toList

namespace Hex

/-- The digit of a value below 16. -/
def digit (value : UInt8) : Char :=
  if value < 10 then Char.ofNat (48 + value.toNat) else Char.ofNat (87 + value.toNat)

def encode (bytes : Bytes) : String :=
  String.ofList (bytes.flatMap fun b => [digit (b / 16), digit (b % 16)])

/-- The value of a digit in either case. -/
def value? (c : UInt8) : Option UInt8 :=
  if 48 ≤ c && c ≤ 57 then some (c - 48)
  else if 97 ≤ c && c ≤ 102 then some (c - 87)
  else if 65 ≤ c && c ≤ 70 then some (c - 55)
  else none

end Hex

inductive HexError where
  | oddLength
  | badDigit (byte : UInt8) (index : Nat)

namespace HexError

/-- Lowercase hexadecimal digits without leading zeros, for a value below 256. -/
def shortHex (value : UInt8) : List Char :=
  if value < 16 then [Hex.digit value] else [Hex.digit (value / 16), Hex.digit (value % 16)]

/-- The character numbered `byte`, between quotes. Control characters, the no-break space and
the soft hyphen are written by their number. -/
def quoteByte (byte : UInt8) : String :=
  let c := Char.ofNat byte.toNat
  let body :=
    if byte = 0 then ['\\', '0']
    else if c = '\t' then ['\\', 't']
    else if c = '\n' then ['\\', 'n']
    else if c = '\r' then ['\\', 'r']
    else if c = '\'' ∨ c = '\\' then ['\\', c]
    else if byte < 32 ∨ (127 ≤ byte ∧ byte ≤ 160) ∨ byte = 173 then
      ['\\', 'u', '\x7b'] ++ shortHex byte ++ ['\x7d']
    else [c]
  String.ofList ('\'' :: body ++ ['\''])

def message : HexError → String
  | .oddLength => "Odd number of digits"
  | .badDigit byte index =>
    "Invalid character " ++ quoteByte byte ++ " at position " ++ toString index

end HexError

namespace Hex

/-- Reads the digits that begin at `index`, behind the bytes in `done` (last first). -/
def decodeFrom (index : Nat) (done : Bytes) : Bytes → Except HexError Bytes
  | [] => .ok done.reverse
  | [_] => .error .oddLength
  | hi :: lo :: rest =>
    match value? hi, value? lo with
    | some h, some l => decodeFrom (index + 2) ((h * 16 + l) :: done) rest
    | none, _ => .error (.badDigit hi index)
    | some _, none => .error (.badDigit lo (index + 1))

def decode (digits : Bytes) : Except HexError Bytes :=
  if digits.length % 2 = 1 then .error .oddLength else decodeFrom 0 [] digits

end Hex

end Signet
