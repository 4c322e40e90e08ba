/-! Numbers as text: a decimal number with an optional fraction and an optional exponent, or one
of the words for infinity and for no number, in any case. A sign may go before any of them. -/

namespace Signet.Text

/-- The characters without a leading sign. -/
def unsigned : List Char → List Char
  | '+' :: rest => rest
  | '-' :: rest => rest
  | cs => cs

def isDigits (cs : List Char) : Bool := !cs.isEmpty && cs.all Char.isDigit

/-- Whether the characters are an exponent, or nothing. -/
def isExponent : List Char → Bool
  | [] => true
  | c :: rest => (c == 'e' || c == 'E') && isDigits (unsigned rest)

def isNumeral (cs : List Char) : Bool :=
  let body := unsigned cs
  let whole := body.takeWhile Char.isDigit
  let behind := body.drop whole.length
  ["inf", "infinity", "nan"].contains (String.ofList (body.map Char.toLower)) ||
    match behind with
    | '.' :: rest =>
      let fraction := rest.takeWhile Char.isDigit
      !(whole.isEmpty && fraction.isEmpty) && isExponent (rest.drop fraction.length)
    | _ => !whole.isEmpty && isExponent behind

end Signet.Text
