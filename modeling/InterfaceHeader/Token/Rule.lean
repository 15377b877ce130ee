import InterfaceHeader.Text.Blank
import InterfaceHeader.Text.Identifier
import InterfaceHeader.Token.Basic

/-!
# Token rules

A rule pairs a kind of token with the pattern of its texts. A pattern looks at a text that is not
empty and says how far its token reaches beyond the first character. Rules are tried in order and
the first whose pattern fits makes the token; `rules` is the list for headers, in which the
reserved words come before the identifiers that would include them.
-/

namespace InterfaceHeader

/-- What the texts of a rule look like. -/
inductive Pattern where
  /-- One word, not followed by a character that would continue it. -/
  | word (text : String)
  /-- One character. -/
  | char (c : Char)
  /-- An identifier, as long as it goes. -/
  | identifier
  /-- Digits, after at most one sign, as many as there are. -/
  | integer
  /-- A line comment up to the end of its line, or a block comment up to its first close. -/
  | comment
  /-- A run of blanks. -/
  | blank
deriving DecidableEq

/-- How many characters lie before the end of the first close mark of a block comment, counted
    from `seen`; none if there is no close mark. -/
def blockEnd? (seen : Nat) : List Char → Option Nat
  | [] => none
  | '*' :: '/' :: _ => some (seen + 2)
  | _ :: cs => blockEnd? (seen + 1) cs

/-- The number of further characters of a comment that starts with `c`. -/
def commentReach? (c : Char) (cs : List Char) : Option Nat :=
  if c ≠ '/' then none
  else
    match cs with
    | '/' :: body => some (1 + (body.takeWhile (· ≠ '\n')).length)
    | '*' :: body => blockEnd? 1 body
    | _ => none

namespace Pattern

/-- How many characters after the first one belong to the pattern's token at the start of
    `c :: cs`; none if the pattern does not fit there. -/
def reach? (p : Pattern) (c : Char) (cs : List Char) : Option Nat :=
  match p with
  | .word text =>
    if text.toList.isPrefixOf (c :: cs)
        && !((c :: cs).drop text.length).head?.any Text.isWordChar then
      some (text.length - 1)
    else none
  | .char d => if c = d then some 0 else none
  | .identifier =>
    if Text.isWordStart c then some (cs.takeWhile Text.isWordChar).length else none
  | .integer =>
    let digits := (cs.takeWhile Char.isDigit).length
    if c.isDigit then some digits
    else if (c = '+' ∨ c = '-') ∧ 0 < digits then some digits
    else none
  | .comment => commentReach? c cs
  | .blank => if Text.isBlank c then some (cs.takeWhile Text.isBlank).length else none

end Pattern

/-- A kind of token and the pattern of its texts. -/
structure Rule where
  kind : TokenKind
  pattern : Pattern
deriving DecidableEq

/-- The rule of a reserved word. -/
def Rule.keyword (word : Keyword) : Rule :=
  ⟨.keyword word, .word word.text⟩

/-- The rule of a punctuation mark. -/
def Rule.punct (mark : Punct) : Rule :=
  ⟨.punct mark, .char mark.char⟩

/-- The rules of headers, in the order in which they are tried. -/
def rules : List Rule :=
  [.keyword .typedef, .keyword .enum, .keyword .struct, .keyword .const,
    .punct .leftBrace, .punct .rightBrace, .punct .semicolon, .punct .comma, .punct .quote,
    .punct .leftParen, .punct .rightParen, .punct .star, .punct .equals,
    ⟨.identifier, .identifier⟩, ⟨.integer, .integer⟩, ⟨.comment, .comment⟩, ⟨.blank, .blank⟩]

/-- The kind of the first rule that fits at the start of `c :: cs`, and its reach. -/
def firstMatch? (rs : List Rule) (c : Char) (cs : List Char) : Option (TokenKind × Nat) :=
  rs.findSome? fun rule => (rule.pattern.reach? c cs).map fun reach => (rule.kind, reach)

end InterfaceHeader
