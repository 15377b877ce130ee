import InterfaceHeader.Declaration.Basic
import InterfaceHeader.Declaration.Choice

/-!
# Reading types

A primitive type is a name with an optional `const` before it and an optional star behind it. A
function type is a primitive type, a name in the form of a pointer, and arguments; an argument is
a type and perhaps a name. Both forms of type start with a primitive one, so the longer form is
tried first.

Function types nest. Each level takes several tokens, so as many levels as there are tokens ahead
are enough.
-/

namespace InterfaceHeader.Reader

/-- An optional `const`, a name, an optional star. -/
def primitive : Reader Primitive := do
  let const? ← accept (.keyword .const)
  match ← accept .identifier with
  | some t =>
    let star? ← accept (.punct .star)
    return ⟨const?.isSome, t.lexeme, star?.isSome⟩
  | none =>
    if const?.isSome then fail [TokenKind.identifier.describe]
    else fail [(TokenKind.keyword .const).describe, TokenKind.identifier.describe]

/-- The name of a function pointer: a star and an identifier in parentheses. -/
def pointerName : Reader String := do
  punct .leftParen
  punct .star
  let name ← identifier
  punct .rightParen
  return name

/-- At most so many further arguments, a comma before each. -/
def moreArguments (argument : Reader Argument) : Nat → Reader (List Argument)
  | 0 => return []
  | n + 1 => do
    match ← accept (.punct .comma) with
    | none => return []
    | some _ =>
      let first ← argument
      return first :: (← moreArguments argument n)

/-- One or more arguments with commas between them. -/
def argumentList (argument : Reader Argument) : Reader (List Argument) := do
  let first ← argument
  return first :: (← moreArguments argument (← get).ahead.length)

/-- The arguments of a function type, if there are any. -/
def arguments (argument : Reader Argument) : Reader (List Argument) := do
  if ← isAt (.punct .rightParen) then return []
  else argumentList argument

/-- A return type, the name of a pointer, and in parentheses what `arguments` reads. -/
def signature (arguments : Reader (List Argument)) : Reader FunctionType := do
  let returnType ← primitive
  let name ← pointerName
  punct .leftParen
  let arguments ← arguments
  punct .rightParen
  return ⟨returnType, name, arguments⟩

/-- An argument whose type is read by `type`. -/
def argumentOf (type : Reader CType) : Reader Argument := do
  let type ← type
  let name ← accept .identifier
  return ⟨type, name.map Token.lexeme⟩

/-- A type in which function types nest at most so deep. -/
def typeAt : Nat → Reader CType
  | 0 => return .primitive (← primitive)
  | levels + 1 =>
    choose [
      return .function (← signature (arguments (argumentOf (typeAt levels)))),
      return .primitive (← primitive)]

/-- A type. -/
def type : Reader CType := do
  typeAt (← get).ahead.length

/-- An argument. -/
def argument : Reader Argument :=
  argumentOf type

/-- A function type with any number of arguments. -/
def functionType : Reader FunctionType :=
  signature (arguments argument)

/-- A type with nothing behind it but comments. -/
def wholeType : Reader CType := do
  let type ← type
  if (← get).next?.isSome then fail ["end of input"]
  else return type

end InterfaceHeader.Reader
