/-!
# Positions

Where a character stands in a text: the bytes of UTF-8 before it, its line and its column. Lines
and columns count from one, columns in characters, and only a newline starts a new line.
-/

namespace InterfaceHeader

/-- A place in a text. -/
structure Position where
  /-- Bytes of UTF-8 before the place. -/
  offset : Nat
  /-- Line, from one. -/
  line : Nat
  /-- Column in characters, from one. -/
  column : Nat
deriving DecidableEq, Inhabited

namespace Position

/-- The first place of every text. -/
def start : Position := ⟨0, 1, 1⟩

/-- The place after one more character. -/
def next (p : Position) (c : Char) : Position :=
  if c = '\n' then ⟨p.offset + c.utf8Size, p.line + 1, 1⟩
  else ⟨p.offset + c.utf8Size, p.line, p.column + 1⟩

/-- The place after a whole text. -/
def advance (p : Position) (cs : List Char) : Position :=
  cs.foldl next p

/-- Line and column, as messages name a place. -/
def describe (p : Position) : String :=
  String.ofList (Nat.toDigits 10 p.line ++ ':' :: Nat.toDigits 10 p.column)

@[simp] theorem advance_nil (p : Position) : p.advance [] = p := rfl

@[simp] theorem advance_cons (p : Position) (c : Char) (cs : List Char) :
    p.advance (c :: cs) = (p.next c).advance cs := rfl

/-- Walking over a text is walking over its parts. -/
theorem advance_append (p : Position) (cs ds : List Char) :
    p.advance (cs ++ ds) = (p.advance cs).advance ds := by
  simp [advance, List.foldl_append]

/-- Every character moves the place forward. -/
theorem offset_lt_next (p : Position) (c : Char) : p.offset < (p.next c).offset := by
  have nonempty := c.utf8Size_pos
  unfold next
  split <;> simp <;> omega

end Position

end InterfaceHeader
