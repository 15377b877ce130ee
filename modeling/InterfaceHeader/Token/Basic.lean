import InterfaceHeader.Text.Position

/-!
# Tokens

The words of a header: reserved words, identifiers, punctuation, integers, comments and the blank
space between them. A token keeps its text and the place where it starts. `TokenKind.describe` is
the name of a kind in diagnostics, `Token.describe` that of one token.
-/

namespace InterfaceHeader

/-- The reserved words. -/
inductive Keyword where
  | typedef
  | enum
  | struct
  | const
deriving DecidableEq

/-- The punctuation characters. -/
inductive Punct where
  | leftBrace
  | rightBrace
  | semicolon
  | comma
  | quote
  | leftParen
  | rightParen
  | star
  | equals
deriving DecidableEq

/-- The kinds of token. -/
inductive TokenKind where
  | keyword (word : Keyword)
  | identifier
  | punct (mark : Punct)
  | integer
  | comment
  | blank
deriving DecidableEq

/-- The spelling of a reserved word. -/
def Keyword.text : Keyword → String
  | .typedef => "typedef"
  | .enum => "enum"
  | .struct => "struct"
  | .const => "const"

/-- The character of a punctuation mark. -/
def Punct.char : Punct → Char
  | .leftBrace => '{'
  | .rightBrace => '}'
  | .semicolon => ';'
  | .comma => ','
  | .quote => '"'
  | .leftParen => '('
  | .rightParen => ')'
  | .star => '*'
  | .equals => '='

/-- The name of a kind in diagnostics: a fixed spelling in single quotes, or the class. -/
def TokenKind.describe : TokenKind → String
  | .keyword word => "'" ++ word.text ++ "'"
  | .identifier => "identifier"
  | .punct mark => "'" ++ String.singleton mark.char ++ "'"
  | .integer => "integer"
  | .comment => "comment"
  | .blank => "whitespace"

/-- A piece of text that belongs together, with the place where it starts. -/
structure Token where
  kind : TokenKind
  lexeme : String
  position : Position
deriving DecidableEq

namespace Token

/-- Comments are kept among the tokens but mean nothing to most of the grammar. -/
def isComment (t : Token) : Bool :=
  t.kind == .comment

/-- The tokens the grammar is about: all but comments. -/
def isSignificant (t : Token) : Bool :=
  !t.isComment

/-- A token as a diagnostic names it: with its text where the kind leaves that open. -/
def describe (t : Token) : String :=
  match t.kind with
  | .identifier => "identifier '" ++ t.lexeme ++ "'"
  | .integer => "integer '" ++ t.lexeme ++ "'"
  | kind => kind.describe

end Token

end InterfaceHeader
