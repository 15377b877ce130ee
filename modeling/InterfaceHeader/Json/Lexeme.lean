import InterfaceHeader.Json.Number
import InterfaceHeader.Json.Quoting

/-!
# JSON lexemes

The words of a JSON text: brackets, separators and scalar values. Blank space between them is
space, tab, line feed and carriage return.
-/

namespace InterfaceHeader.Json

/-- A word of a JSON text. -/
inductive Lexeme where
  | openBracket
  | closeBracket
  | openBrace
  | closeBrace
  | comma
  | colon
  | null
  | bool (b : Bool)
  | number (literal : String)
  | string (text : Text)
deriving DecidableEq

/-- The blank characters between words. -/
def isSpace (c : Char) : Bool :=
  c == ' ' || c == '\t' || c == '\n' || c == '\r'

/-- The words that are a single character. -/
def mark? : Char → Option Lexeme
  | '[' => some .openBracket
  | ']' => some .closeBracket
  | '{' => some .openBrace
  | '}' => some .closeBrace
  | ',' => some .comma
  | ':' => some .colon
  | _ => none

/-- The words that are names. -/
def name? (cs : List Char) : Option Lexeme :=
  if cs = ['n', 'u', 'l', 'l'] then some .null
  else if cs = ['t', 'r', 'u', 'e'] then some (.bool true)
  else if cs = ['f', 'a', 'l', 's', 'e'] then some (.bool false)
  else none

/-- The word that starts with `c`, and how many of the characters after it belong to it. -/
def lexeme? (c : Char) (cs : List Char) : Option (Lexeme × Nat) :=
  match mark? c with
  | some lexeme => some (lexeme, 0)
  | none =>
    if c = '"' then (unquote? cs).map fun (text, count) => (.string text, count)
    else if isNumberChar c then
      let more := cs.takeWhile isNumberChar
      if isNumber (c :: more) then some (.number (String.ofList (c :: more)), more.length)
      else none
    else
      let more := cs.takeWhile Char.isAlpha
      (name? (c :: more)).map fun lexeme => (lexeme, more.length)

/-- The words of a text; none if something in it is no word. -/
def lexemes? (text : List Char) : Option (List Lexeme) :=
  match text with
  | [] => some []
  | c :: cs =>
    if isSpace c then lexemes? cs
    else
      match lexeme? c cs with
      | none => none
      | some (lexeme, count) => (lexemes? (cs.drop count)).map (lexeme :: ·)
termination_by text.length

end InterfaceHeader.Json
