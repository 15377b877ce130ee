import InterfaceHeader.Text.Blank

/-!
# Words of a condition

The text of a condition is read word by word. The operators are words wherever they stand, blanks
separate words, and everything else is a plain word, as long as it goes. Half an operator is no
operator: a single bar or ampersand is part of a plain word.
-/

namespace InterfaceHeader

/-- A word of a condition. -/
inductive Word where
  | openParen
  | closeParen
  | bang
  | bars
  | ampersands
  | plain (text : String)
deriving DecidableEq

namespace Word

/-- The spelling of a word. -/
def text : Word → String
  | .openParen => "("
  | .closeParen => ")"
  | .bang => "!"
  | .bars => "||"
  | .ampersands => "&&"
  | .plain text => text

/-- The words of a single character. -/
def ofChar? : Char → Option Word
  | '(' => some .openParen
  | ')' => some .closeParen
  | '!' => some .bang
  | _ => none

/-- Puts the plain characters at the front of a text, if there are any, before its other words. -/
def join : List Char × List Word → List Word
  | ([], words) => words
  | (c :: front, words) => .plain (String.ofList (c :: front)) :: words

/-- The plain characters at the very front of a text, and the words after them. -/
def split : List Char → List Char × List Word
  | [] => ([], [])
  | '|' :: '|' :: cs => ([], .bars :: join (split cs))
  | '&' :: '&' :: cs => ([], .ampersands :: join (split cs))
  | c :: cs =>
    match ofChar? c with
    | some word => ([], word :: join (split cs))
    | none =>
      if Text.isBlank c then ([], join (split cs))
      else
        let (front, words) := split cs
        (c :: front, words)

end Word

/-- The words of a condition's text. -/
def words (text : List Char) : List Word :=
  Word.join (Word.split text)

end InterfaceHeader
