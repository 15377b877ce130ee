import InterfaceHeader.Condition.Basic
import InterfaceHeader.Condition.Word
import InterfaceHeader.Text.Identifier

/-!
# Reading conditions

The grammar of conditions over words: alternatives joined by bars, each of them a conjunction
joined by ampersands, both grouped to the left, over negations, parentheses, `defined` questions,
decimal constants and symbols. A reader consumes words from the front and keeps what it has
consumed even when it fails, so that the place of a failure is known to whoever reads on.

Parentheses nest. A level of nesting consumes a word, so as many levels as there are words are
enough, and when no level is left there is no word left either.
-/

namespace InterfaceHeader

/-- Where a symbol was expected. -/
inductive SymbolPlace where
  | defined
  | expression
deriving DecidableEq

/-- Why a text is no condition. -/
inductive ConditionError where
  /-- The text holds no word at all. -/
  | missing
  /-- A word is left over behind a whole condition. -/
  | unexpected (word : Word)
  /-- A parenthesis is not closed. -/
  | unclosed
  /-- The parenthesis of a `defined` question is not closed. -/
  | unclosedDefined
  /-- A word starts with a digit but is no constant. -/
  | invalidInteger (text : String)
  /-- A word stands where a symbol has to stand. -/
  | notASymbol (place : SymbolPlace) (word : Word)
  /-- The text ends where a symbol has to stand. -/
  | noSymbol (place : SymbolPlace)
  /-- The text ends where an operand has to stand. -/
  | endOfExpression
deriving DecidableEq

/-- The name of a place in messages. -/
def SymbolPlace.text : SymbolPlace → String
  | .defined => "defined"
  | .expression => "expression"

/-- The text of the error. -/
def ConditionError.message : ConditionError → String
  | .missing => "missing expression"
  | .unexpected word => "unexpected '" ++ word.text ++ "'"
  | .unclosed => "expected ')'"
  | .unclosedDefined => "expected ')' after defined("
  | .invalidInteger text => "invalid integer '" ++ text ++ "'"
  | .notASymbol place word =>
    "expected symbol in " ++ place.text ++ ", found '" ++ word.text ++ "'"
  | .noSymbol place => "expected symbol in " ++ place.text
  | .endOfExpression => "unexpected end of expression"

namespace Condition

/-- A reader of words. -/
abbrev Reader := EStateM ConditionError (List Word)

/-- The next word, which stays where it is. -/
def peek? : Reader (Option Word) := do
  return (← get).head?

/-- Consumes one word. -/
def skip : Reader Unit :=
  modify List.tail

/-- Consumes a word that has to be a symbol. -/
def symbolAt (place : SymbolPlace) : Reader String := do
  match ← peek? with
  | none => throw (.noSymbol place)
  | some (.plain text) =>
    skip
    if Text.isIdentifier text.toList then return text
    else throw (.notASymbol place (.plain text))
  | some word =>
    skip
    throw (.notASymbol place word)

/-- The letters that may follow the digits of a constant. -/
def isSuffix (c : Char) : Bool :=
  c == 'u' || c == 'U' || c == 'l' || c == 'L'

/-- The value of a constant: decimal digits in the 64-bit range and then suffix letters. -/
def constant? (text : String) : Option Int64 :=
  Decimal.readWord? (text.toList.reverse.dropWhile isSuffix).reverse

/-- A word that starts with a digit. -/
def startsWithDigit (text : String) : Bool :=
  text.toList.head?.any Char.isDigit

/-- The part of a `defined` question after its first word: a symbol, parenthesised or not. -/
def definedQuestion : Reader Condition := do
  if (← peek?) = some .openParen then
    skip
    let name ← symbolAt .defined
    if (← peek?) = some .closeParen then
      skip
      return .defined name
    else throw .unclosedDefined
  else return .defined (← symbolAt .defined)

/-- An operand, where `inner` reads what stands between parentheses. -/
def operand (inner : Reader Condition) : Reader Condition := do
  match ← peek? with
  | none => throw .endOfExpression
  | some .openParen =>
    skip
    let condition ← inner
    if (← peek?) = some .closeParen then
      skip
      return condition
    else throw .unclosed
  | some (.plain text) =>
    if text = "defined" then
      skip
      definedQuestion
    else if startsWithDigit text then
      match constant? text with
      | some value =>
        skip
        return .constant (decide (value ≠ 0))
      | none => throw (.invalidInteger text)
    else return .symbol (← symbolAt .expression)
  | some _ => return .symbol (← symbolAt .expression)

/-- An operand under at most so many negations. -/
def negation (inner : Reader Condition) : Nat → Reader Condition
  | 0 => operand inner
  | n + 1 => do
    if (← peek?) = some .bang then
      skip
      return .not (← negation inner n)
    else operand inner

/-- At most so many further items, each after its operator, joined to what stands on the left. -/
def chainFrom (operator : Word) (join : Condition → Condition → Condition)
    (item : Reader Condition) : Nat → Condition → Reader Condition
  | 0, left => return left
  | n + 1, left => do
    if (← peek?) = some operator then
      skip
      let right ← item
      chainFrom operator join item n (join left right)
    else return left

/-- One or more items with an operator between them, grouped to the left. -/
def chain (operator : Word) (join : Condition → Condition → Condition) (item : Reader Condition) :
    Reader Condition := do
  let first ← item
  chainFrom operator join item (← get).length first

/-- A whole condition with at most so many levels of parentheses in it. -/
def nested : Nat → Reader Condition
  | 0 => throw .endOfExpression
  | levels + 1 =>
    chain .bars .or <| chain .ampersands .and <| do
      negation (nested levels) (← get).length

/-- The condition that the words start with. -/
def leading : Reader Condition := do
  nested ((← get).length + 1)

end Condition

/-- The text of a condition while it is read: all its words, and those still to be read. -/
structure ConditionSource where
  words : List Word
  rest : List Word
deriving DecidableEq

namespace ConditionSource

/-- A text that is still to be read. -/
def ofText (text : List Char) : ConditionSource :=
  ⟨InterfaceHeader.words text, InterfaceHeader.words text⟩

/-- Reads a condition that has to end where the words end, and says where the reading stopped. -/
def read (s : ConditionSource) : Except ConditionError Condition × ConditionSource :=
  if s.words = [] then (.error .missing, s)
  else
    match Condition.leading s.rest with
    | .ok condition [] => (.ok condition, ⟨s.words, []⟩)
    | .ok _ (word :: rest) => (.error (.unexpected word), ⟨s.words, word :: rest⟩)
    | .error e rest => (.error e, ⟨s.words, rest⟩)

end ConditionSource

/-- The condition that a text spells. -/
def Condition.ofText? (text : List Char) : Except ConditionError Condition :=
  (ConditionSource.ofText text).read.1

end InterfaceHeader
