import Signet.Bytes.Number

/-! The distinguished encoding of a sequence of two integers that are not negative, each below
`2^256`. Such a sequence takes at most 70 bytes, so every length is one byte below 128.
Reading refuses an integer that is negative, empty or padded, and bytes left over. -/

namespace Signet.Der

/-- The bytes of a number without leading zeros. -/
def minimal (n : Nat) : Bytes :=
  if n = 0 then [] else minimal (n / 256) ++ [UInt8.ofNat n]
termination_by n

/-- The contents of an integer: a zero byte goes before a first byte with the top bit set. -/
def contents (n : Nat) : Bytes :=
  match minimal n with
  | [] => [0]
  | b :: bytes => if b < 128 then b :: bytes else 0 :: b :: bytes

def element (tag : UInt8) (contents : Bytes) : Bytes :=
  tag :: UInt8.ofNat contents.length :: contents

def encodePair (r s : Nat) : Bytes :=
  element 0x30 (element 0x02 (contents r) ++ element 0x02 (contents s))

/-- The contents of the leading element with the given tag, and the bytes behind it. -/
def element? (tag : UInt8) : Bytes → Option (Bytes × Bytes)
  | t :: length :: rest =>
    if t = tag ∧ length < 128 ∧ length.toNat ≤ rest.length then
      some (rest.take length.toNat, rest.drop length.toNat)
    else none
  | _ => none

/-- Reads the contents of an integer. -/
def unsigned? : Bytes → Option Nat
  | [] => none
  | [0] => some 0
  | 0 :: b :: bytes => if b < 128 then none else some (Bytes.toNatBE (b :: bytes))
  | b :: bytes => if b < 128 then some (Bytes.toNatBE (b :: bytes)) else none

def decodePair? (bytes : Bytes) : Option (Nat × Nat) := do
  let (body, trailing) ← element? 0x30 bytes
  let (first, rest) ← element? 0x02 body
  let (second, rest) ← element? 0x02 rest
  guard (trailing.isEmpty && rest.isEmpty)
  return (← unsigned? first, ← unsigned? second)

end Signet.Der
