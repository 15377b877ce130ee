import InterfaceHeader.Declaration.SyntaxError
import InterfaceHeader.Token.Basic

/-!
# A cursor over tokens

Reading a header walks over its tokens. A cursor is a place among them: the tokens ahead, the
number of significant tokens behind, and where the last of those started. Comments are stepped
over on the way to a significant token; they are taken on their own only where they mean
something, and then they do not count as significant.
-/

namespace InterfaceHeader

/-- A place among tokens. -/
structure Cursor where
  ahead : List Token
  /-- How many significant tokens have been consumed. -/
  consumed : Nat
  /-- Where the last significant token consumed starts. -/
  previous : Option Position
deriving DecidableEq

namespace Cursor

/-- The cursor in front of tokens. Blank space among them is nothing to read. -/
def ofTokens (tokens : List Token) : Cursor :=
  ⟨tokens.filter (·.kind != .blank), 0, none⟩

/-- The tokens from the next significant one on. -/
def significant (c : Cursor) : List Token :=
  c.ahead.dropWhile Token.isComment

/-- The next significant token. -/
def next? (c : Cursor) : Option Token :=
  c.significant.head?

/-- The next significant token is of a kind. -/
def isAt (c : Cursor) (kind : TokenKind) : Bool :=
  c.next?.any fun t => t.kind == kind

/-- Consumes the next significant token if it is of a kind. -/
def take? (c : Cursor) (kind : TokenKind) : Option (Token × Cursor) :=
  match c.significant with
  | [] => none
  | t :: rest =>
    if t.kind = kind then some (t, ⟨rest, c.consumed + 1, some t.position⟩) else none

/-- Takes the comment directly ahead. -/
def takeComment? (c : Cursor) : Option (String × Cursor) :=
  match c.ahead with
  | [] => none
  | t :: rest => if t.isComment then some (t.lexeme, { c with ahead := rest }) else none

/-- The comment directly ahead starts on the line of the last significant token. -/
def hasTrailingComment (c : Cursor) : Bool :=
  match c.previous, c.ahead with
  | some p, t :: _ => t.isComment && t.position.line == p.line
  | _, _ => false

/-- The error that something else was expected here. -/
def failure (c : Cursor) (expected : List String) : SyntaxError :=
  match c.next? with
  | none => ⟨none, "end of input", expected⟩
  | some t => ⟨some t.position, t.describe, expected⟩

end Cursor

/-- A reader of tokens. It leaves the cursor where it came to, also when it fails. -/
abbrev Reader := EStateM SyntaxError Cursor

namespace Reader

/-- The next significant token is of a kind. -/
def isAt (kind : TokenKind) : Reader Bool := do
  return (← get).isAt kind

/-- Consumes a token of a kind, if it comes next. -/
def accept (kind : TokenKind) : Reader (Option Token) := fun c =>
  match c.take? kind with
  | some (t, c) => .ok (some t) c
  | none => .ok none c

/-- Consumes a token of a kind, which has to come next. -/
def expect (kind : TokenKind) : Reader Token := fun c =>
  match c.take? kind with
  | some (t, c) => .ok t c
  | none => .error (c.failure [kind.describe]) c

/-- Takes the comment directly ahead, if there is one. -/
def comment : Reader (Option String) := fun c =>
  match c.takeComment? with
  | some (text, c) => .ok (some text) c
  | none => .ok none c

/-- Takes the comment directly ahead if it starts on the line of the last significant token. -/
def trailingComment : Reader (Option String) := fun c =>
  if c.hasTrailingComment then comment c else .ok none c

/-- Fails here, where something else was expected. -/
def fail (expected : List String) : Reader α := fun c =>
  .error (c.failure expected) c

/-- Consumes an identifier, which has to come next. -/
def identifier : Reader String := do
  return (← expect .identifier).lexeme

/-- Consumes a punctuation mark, which has to come next. -/
def punct (mark : Punct) : Reader Unit := do
  let _ ← expect (.punct mark)

/-- Consumes a reserved word, which has to come next. -/
def keyword (word : Keyword) : Reader Unit := do
  let _ ← expect (.keyword word)

/-- Consumes an integer, which has to come next and to fit a 64-bit word. -/
def integer : Reader Int64 := do
  let t ← expect .integer
  match Decimal.readWord? t.lexeme.toList with
  | some value => return value
  | none => throw ⟨some t.position, t.describe, ["64-bit integer"]⟩

end Reader

end InterfaceHeader
