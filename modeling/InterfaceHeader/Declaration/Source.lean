import InterfaceHeader.Declaration.Reader
import InterfaceHeader.Outline.Flatten
import InterfaceHeader.Token.Scanner

/-!
# From text to header

The way from the text of a header to its declarations: conditional compilation makes it flat,
scanning cuts the flat text into tokens, and reading finds the declarations. Each step can fail
with an error of its own.
-/

namespace InterfaceHeader

/-- Why a text is no header. -/
inductive HeaderError where
  | lexical (error : LexError)
  | grammatical (error : SyntaxError)
  | directive (error : DirectiveError)
deriving DecidableEq

/-- The text of the error, which names the step that failed. -/
def HeaderError.message : HeaderError → String
  | .lexical error => "lexer error: " ++ error.message
  | .grammatical error => "syntax error: " ++ error.message
  | .directive error => "preprocessor error: " ++ error.message

/-- The tokens of a text. -/
def tokensOf? (text : String) : Except HeaderError (List Token) :=
  (tokenize text.toList).mapError .lexical

/-- The header that a text without directives spells. -/
def Header.ofText? (text : String) : Except HeaderError Header := do
  (Header.ofTokens? (← tokensOf? text)).mapError .grammatical

/-- A text is scanned, then its tokens are read. -/
theorem Header.ofText?_eq (text : String) :
    Header.ofText? text =
      match tokenize text.toList with
      | .error error => .error (.lexical error)
      | .ok tokens =>
        match Header.ofTokens? tokens with
        | .error error => .error (.grammatical error)
        | .ok h => .ok h := by
  unfold Header.ofText? tokensOf?
  cases tokenize text.toList with
  | error error => rfl
  | ok tokens =>
      show (Header.ofTokens? tokens).mapError HeaderError.grammatical =
        match Header.ofTokens? tokens with
        | .error error => .error (HeaderError.grammatical error)
        | .ok h => .ok h
      cases Header.ofTokens? tokens <;> rfl

/-- The header that a text spells under a configuration. -/
def Header.ofSource? (text : String) (config : Configuration) : Except HeaderError Header := do
  Header.ofText? (← (preprocess text config).mapError .directive)

/-- The type that a text spells. -/
def CType.ofText? (text : String) : Except HeaderError CType := do
  (CType.ofTokens? (← tokensOf? text)).mapError .grammatical

theorem CType.ofText?_eq (text : String) :
    CType.ofText? text =
      match tokenize text.toList with
      | .error error => .error (.lexical error)
      | .ok tokens =>
        match CType.ofTokens? tokens with
        | .error error => .error (.grammatical error)
        | .ok t => .ok t := by
  unfold CType.ofText? tokensOf?
  cases tokenize text.toList with
  | error error => rfl
  | ok tokens =>
      show (CType.ofTokens? tokens).mapError HeaderError.grammatical =
        match CType.ofTokens? tokens with
        | .error error => .error (HeaderError.grammatical error)
        | .ok t => .ok t
      cases CType.ofTokens? tokens <;> rfl

end InterfaceHeader
