import InterfaceHeader.Json.Lexeme

/-!
# Reading JSON

A value is read word by word with a stack of what is open around the current place. Nothing
bounds the nesting. `parse?` reads a text that holds exactly one value.
-/

namespace InterfaceHeader.Json

/-- What is open around a place: the part that has been read of an array or an object. -/
inductive Frame where
  | array (items : List Value)
  | object (members : List (Text × Value))
  /-- An object whose next member has only its key. -/
  | member (members : List (Text × Value)) (key : Text)

/-- What may come next. -/
inductive Demand where
  /-- A value. -/
  | value
  /-- The first item of an array, or its end. -/
  | item
  /-- The first member of an object, or its end. -/
  | member
  /-- A further member. -/
  | key
  /-- The colon behind a key. -/
  | colon
  /-- What may follow a value that has been read. -/
  | after (value : Value)

/-- A place in a JSON text. -/
structure Place where
  stack : List Frame
  demand : Demand

namespace Place

/-- The place in front of a text. -/
def start : Place := ⟨[], .value⟩

/-- A value starts. -/
def enter (stack : List Frame) : Lexeme → Option Place
  | .openBracket => some ⟨.array [] :: stack, .item⟩
  | .openBrace => some ⟨.object [] :: stack, .member⟩
  | .null => some ⟨stack, .after .null⟩
  | .bool b => some ⟨stack, .after (.bool b)⟩
  | .number literal => some ⟨stack, .after (.number literal)⟩
  | .string text => some ⟨stack, .after (.string text)⟩
  | _ => none

/-- A member starts with its key. -/
def enterMember : List Frame → Lexeme → Option Place
  | .object members :: stack, .string key => some ⟨.member members key :: stack, .colon⟩
  | _, _ => none

/-- A value has been read. -/
def leave (value : Value) : List Frame → Lexeme → Option Place
  | .array items :: stack, .comma => some ⟨.array (items ++ [value]) :: stack, .value⟩
  | .array items :: stack, .closeBracket => some ⟨stack, .after (.array (items ++ [value]))⟩
  | .member members key :: stack, .comma =>
    some ⟨.object (members ++ [(key, value)]) :: stack, .key⟩
  | .member members key :: stack, .closeBrace =>
    some ⟨stack, .after (.object (members ++ [(key, value)]))⟩
  | _, _ => none

/-- The place behind one more word. -/
def step (p : Place) (lexeme : Lexeme) : Option Place :=
  match p.demand, p.stack, lexeme with
  | .value, stack, lexeme => enter stack lexeme
  | .item, .array _ :: stack, .closeBracket => some ⟨stack, .after (.array [])⟩
  | .item, stack, lexeme => enter stack lexeme
  | .member, .object _ :: stack, .closeBrace => some ⟨stack, .after (.object [])⟩
  | .member, stack, lexeme => enterMember stack lexeme
  | .key, stack, lexeme => enterMember stack lexeme
  | .colon, stack, .colon => some ⟨stack, .value⟩
  | .colon, _, _ => none
  | .after value, stack, lexeme => leave value stack lexeme

/-- The value that has been read, if nothing is open. -/
def result? : Place → Option Value
  | ⟨[], .after value⟩ => some value
  | _ => none

end Place

/-- The value that a text spells. -/
def parse? (text : List Char) : Option Value := do
  let lexemes ← lexemes? text
  let place ← lexemes.foldlM Place.step Place.start
  place.result?

end InterfaceHeader.Json
