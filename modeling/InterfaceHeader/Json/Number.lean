/-!
# JSON numbers

The literals of numbers: an optional minus, digits without a needless leading zero, an optional
fraction, an optional exponent.
-/

namespace InterfaceHeader.Json

/-- Characters of which number literals are made. -/
def isNumberChar (c : Char) : Bool :=
  c.isDigit || c == '-' || c == '+' || c == '.' || c == 'e' || c == 'E'

/-- The text behind one or more digits. -/
def afterDigits? (cs : List Char) : Option (List Char) :=
  if cs.head?.any Char.isDigit then some (cs.dropWhile Char.isDigit) else none

/-- The text behind the whole part of a literal: a zero, or digits that start with another one. -/
def afterWhole? : List Char → Option (List Char)
  | '0' :: cs => some cs
  | cs => afterDigits? cs

/-- The text behind an optional fraction. -/
def afterFraction? : List Char → Option (List Char)
  | '.' :: cs => afterDigits? cs
  | cs => some cs

/-- A text without the sign it may start with. -/
def dropSign : List Char → List Char
  | '+' :: cs => cs
  | '-' :: cs => cs
  | cs => cs

/-- The text behind an optional exponent. -/
def afterExponent? : List Char → Option (List Char)
  | 'e' :: cs => afterDigits? (dropSign cs)
  | 'E' :: cs => afterDigits? (dropSign cs)
  | cs => some cs

/-- A text without the minus it may start with. -/
def dropMinus : List Char → List Char
  | '-' :: cs => cs
  | cs => cs

/-- A text is the literal of a number. -/
def isNumber (cs : List Char) : Bool :=
  (afterWhole? (dropMinus cs)).bind afterFraction? |>.bind afterExponent? |>.any (·.isEmpty)

end InterfaceHeader.Json
