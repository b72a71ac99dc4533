/-! Address URIs such as `tel:555-0100`, and the type of a telephone number. -/

namespace HandsFree.Address

/-- The characters at which a scheme can end. Only `:` closes a scheme; `/` and `?` show that the
    address has none. -/
def endsScheme (c : Char) : Bool := c == ':' || c == '/' || c == '?'

/-- The address without its fragment, which runs from the first `#`. -/
def withoutFragment (u : List Char) : List Char := u.takeWhile (· != '#')

/-- What follows the scheme of `w`; all of `w` if it has no scheme. A scheme is not empty. -/
def afterScheme (w : List Char) : List Char :=
  match w.takeWhile (!endsScheme ·), w.dropWhile (!endsScheme ·) with
  | _ :: _, ':' :: r => r
  | _, _ => w

/-- The part of `uri` after its scheme, without any fragment: `tel:555-0100` gives `555-0100`, and
    `//example.com/1` stays whole. -/
def schemeSpecificPart (uri : String) : String :=
  String.ofList (afterScheme (withoutFragment uri.toList))

/-- The type of an international number, one that starts with `+`. -/
def internationalType : Int := 0x91

/-- The type of every other number. -/
def unknownType : Int := 0x81

def numberType (number : String) : Int :=
  if number.toList.head? = some '+' then internationalType else unknownType

end HandsFree.Address
