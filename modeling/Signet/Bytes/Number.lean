import Signet.Bytes.Hex

/-! Byte strings as numbers, the most significant byte first or last. -/

namespace Signet.Bytes

def toNatBE (bytes : Bytes) : Nat := bytes.foldl (fun n b => n * 256 + b.toNat) 0

def toNatLE (bytes : Bytes) : Nat := bytes.foldr (fun b n => b.toNat + n * 256) 0

/-- The `size` low bytes of a number, the most significant one first. -/
def ofNatBE (size n : Nat) : Bytes :=
  (List.range size).reverse.map fun i => UInt8.ofNat (n >>> (8 * i))

/-- The `size` low bytes of a number, the least significant one first. -/
def ofNatLE (size n : Nat) : Bytes := (List.range size).map fun i => UInt8.ofNat (n >>> (8 * i))

end Signet.Bytes
