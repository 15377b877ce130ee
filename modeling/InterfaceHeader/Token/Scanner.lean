import InterfaceHeader.Text.Quoted
import InterfaceHeader.Token.Rule

/-!
# Scanning a text

A scanner is what is still to be read of a text and the place where that starts. `scan` cuts off
tokens, blank space included, until the text ends or no rule fits; nothing is lost on the way.
`tokenize` keeps the tokens that are not blank space, and fails where no rule fits. A scanner
stays where a scan ended, so a failure repeats and a success leaves nothing for the next scan.
-/

namespace InterfaceHeader

/-- No rule fits at a place. -/
structure LexError where
  position : Position
  /-- The character that stands there. -/
  found : Char
deriving DecidableEq

/-- The text of the error. -/
def LexError.message (e : LexError) : String :=
  "unexpected character " ++ Text.quoted e.found ++ " at " ++ e.position.describe

/-- A text from a place on. -/
structure Scanner where
  rest : List Char
  position : Position
deriving DecidableEq

namespace Scanner

/-- A scanner in front of a whole text. -/
def ofText (text : List Char) : Scanner :=
  ⟨text, .start⟩

/-- All tokens that the rules find from here on, and the scanner where they end. -/
def scan (rs : List Rule) (s : Scanner) : List Token × Scanner :=
  match _h : s.rest with
  | [] => ([], s)
  | c :: cs =>
    match firstMatch? rs c cs with
    | none => ([], s)
    | some (kind, reach) =>
      let lexeme := c :: cs.take reach
      let (tokens, stop) := scan rs ⟨cs.drop reach, s.position.advance lexeme⟩
      (⟨kind, String.ofList lexeme, s.position⟩ :: tokens, stop)
termination_by s.rest.length
decreasing_by
  simp only [_h, List.length_drop, List.length_cons]
  omega

/-- The tokens of the text that are not blank space, and the scanner where they end. -/
def tokenize (s : Scanner) : Except LexError (List Token) × Scanner :=
  let (tokens, stop) := s.scan rules
  match stop.rest with
  | [] => (.ok (tokens.filter (·.kind != .blank)), stop)
  | c :: _ => (.error ⟨stop.position, c⟩, stop)

end Scanner

/-- The tokens of a whole text. -/
def tokenize (text : List Char) : Except LexError (List Token) :=
  (Scanner.ofText text).tokenize.1

end InterfaceHeader
