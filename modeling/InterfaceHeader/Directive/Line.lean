import InterfaceHeader.Directive.Comment
import InterfaceHeader.Text.Blank

/-!
# Logical lines

A line whose first character that is not blank is a hash mark, and that does not start inside a
block comment, is a directive. A backslash at the end of a directive continues it on the next
line: the backslash goes and a space joins the two. All other lines stay as they are.

`logicalLines` numbers the logical lines by the physical line they start on, counts the physical
lines they take, and records whether they start inside a block comment.
-/

namespace InterfaceHeader

/-- A line as directives see it. -/
structure LogicalLine where
  text : List Char
  /-- The number of its first physical line, from one. -/
  number : Nat
  /-- How many physical lines it takes. -/
  span : Nat
  /-- Whether it starts inside a block comment. -/
  inComment : Bool
deriving DecidableEq

/-- A line that starts with a hash mark after blanks. -/
def startsDirective (line : List Char) : Bool :=
  (Text.trimStart line).head? == some '#'

/-- A line ends in a backslash. -/
def isContinued (line : List Char) : Bool :=
  line.getLast? == some '\\'

/-- A directive joined with the lines that continue it, and how many of them there are. -/
def joinContinued (line : List Char) : List (List Char) → List Char × Nat
  | [] => (if isContinued line then line.dropLast else line, 0)
  | next :: rest =>
    if isContinued line then
      let (text, further) := joinContinued (line.dropLast ++ ' ' :: next) rest
      (text, further + 1)
    else (line, 0)

/-- The logical lines of physical lines of which the first has a given number and may start
    inside a comment, after `skip` lines that already belong to a directive. -/
def logicalFrom (number : Nat) (inComment : Bool) : Nat → List (List Char) → List LogicalLine
  | _, [] => []
  | skip + 1, _ :: rest => logicalFrom (number + 1) inComment skip rest
  | 0, line :: rest =>
    if !inComment && startsDirective line then
      let (text, further) := joinContinued line rest
      ⟨text, number, further + 1, false⟩
        :: logicalFrom (number + 1) (endsInComment false text) further rest
    else
      ⟨line, number, 1, inComment⟩
        :: logicalFrom (number + 1) (endsInComment inComment line) 0 rest

/-- The logical lines of a text that is given by its physical lines. -/
def logicalLines (physical : List (List Char)) : List LogicalLine :=
  logicalFrom 1 false 0 physical

end InterfaceHeader
