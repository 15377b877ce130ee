import InterfaceHeader.Json.Quoting

/-!
# Writing JSON

The text of a value over several lines: each item and each member on a line of its own, two
spaces deeper than the brackets around it. Empty arrays and objects stay on one line.
-/

namespace InterfaceHeader.Json

/-- A line break and the blanks in front of a line of a given depth. -/
def newline (depth : Nat) : String :=
  String.ofList ('\n' :: List.replicate (2 * depth) ' ')

/-- Pieces on lines of their own, with commas between them, inside brackets. -/
def bracketed (opening closing : String) (depth : Nat) : List String → String
  | [] => opening ++ closing
  | pieces =>
    opening ++ newline (depth + 1) ++ String.intercalate ("," ++ newline (depth + 1)) pieces
      ++ newline depth ++ closing

mutual

/-- The text of a value whose last line has a given depth. -/
def Value.write (depth : Nat) : Value → String
  | .null => "null"
  | .bool b => if b then "true" else "false"
  | .number literal => literal
  | .string text => quote text
  | .array items => bracketed "[" "]" depth (writeItems (depth + 1) items)
  | .object members => bracketed "\x7b" "\x7d" depth (writeMembers (depth + 1) members)

/-- The texts of the items of an array. -/
def writeItems (depth : Nat) : List Value → List String
  | [] => []
  | item :: rest => item.write depth :: writeItems depth rest

/-- The texts of the members of an object. -/
def writeMembers (depth : Nat) : List (Text × Value) → List String
  | [] => []
  | (key, value) :: rest =>
    (quote key ++ ": " ++ value.write depth) :: writeMembers depth rest

end

end InterfaceHeader.Json
