/-! White space, as Unicode counts it. -/

namespace Signet.Text

def isBlank (c : Char) : Bool :=
  let n := c.toNat
  (9 ≤ n && n ≤ 13) || n == 0x20 || n == 0x85 || n == 0xa0 || n == 0x1680 ||
    (0x2000 ≤ n && n ≤ 0x200a) || n == 0x2028 || n == 0x2029 || n == 0x202f || n == 0x205f ||
    n == 0x3000

/-- The characters without those blank at either end. -/
def trim (cs : List Char) : List Char :=
  ((cs.dropWhile isBlank).reverse.dropWhile isBlank).reverse

/-- What stands behind the first `n` bytes of the characters' UTF-8. -/
def dropBytes (n : Nat) : List Char → List Char
  | [] => []
  | c :: rest => if n = 0 then c :: rest else dropBytes (n - c.utf8Size) rest

/-- What stands in the first `n` bytes of the characters' UTF-8. -/
def takeBytes (n : Nat) : List Char → List Char
  | [] => []
  | c :: rest => if n = 0 then [] else c :: takeBytes (n - c.utf8Size) rest

/-- The runs between the characters equal to `separator`. -/
def splitAt (separator : Char) : List Char → List (List Char)
  | [] => [[]]
  | c :: rest =>
    let parts := splitAt separator rest
    if c = separator then [] :: parts
    else (c :: parts.headD []) :: parts.tail

end Signet.Text
