/-!
# JSON values

A value as its text spells it. Numbers are kept as their literals and the members of an object in
their order, repeated keys included. A string literal spells a text, unless its escapes name half
a surrogate pair; such a literal is still JSON, so it is kept as a string without a text.
-/

namespace InterfaceHeader.Json

/-- The text of a string literal, if its escapes make one. -/
abbrev Text := Option String

/-- A JSON value. -/
inductive Value where
  | null
  | bool (b : Bool)
  | number (literal : String)
  | string (text : Text)
  | array (items : List Value)
  | object (members : List (Text × Value))

end InterfaceHeader.Json
