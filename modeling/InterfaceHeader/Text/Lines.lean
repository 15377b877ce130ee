import InterfaceHeader.Text.Pieces

/-!
# Physical lines

A text is a sequence of lines, each ended by a newline. A carriage return directly before a
newline belongs to the line end. The last line need not be ended, and then it keeps its carriage
return; there is no empty line after a final newline.

`lines` reads the pieces of a text between its newlines as lines, and `unlines` writes lines with
their newlines.
-/

namespace InterfaceHeader.Text

/-- A line that a newline ended, without the carriage return that belongs to the line end. -/
def dropReturn (line : List Char) : List Char :=
  if line.getLast? = some '\r' then line.dropLast else line

/-- What pieces between newlines say about lines: all but the last are ended by a newline, and
    the last is a line only if there is something in it. -/
def linesOfPieces : List (List Char) → List (List Char)
  | [] => []
  | [last] => if last = [] then [] else [last]
  | piece :: next :: rest => dropReturn piece :: linesOfPieces (next :: rest)

/-- The physical lines of a text. -/
def lines (cs : List Char) : List (List Char) :=
  linesOfPieces (pieces '\n' cs)

/-- The text with these lines, each ended by a newline. -/
def unlines (ls : List String) : String :=
  String.join (ls.map fun line => line ++ "\n")

@[simp] theorem unlines_nil : unlines [] = "" := rfl

@[simp] theorem unlines_cons (l : String) (ls : List String) :
    unlines (l :: ls) = l ++ "\n" ++ unlines ls := by
  simp [unlines]

theorem unlines_append (ls ms : List String) : unlines (ls ++ ms) = unlines ls ++ unlines ms := by
  simp [unlines, String.join_append]

end InterfaceHeader.Text
