import InterfaceHeader.Declaration.TypeReader

/-!
# Reading declarations

A header is a sequence of type definitions, each ended by a semicolon, with comments between
them. Comments elsewhere are passed over, but for two places: the comment behind the value of an
enumeration, on the value's line or on its comma's, and the comment behind a function pointer of
a structure, before its semicolon or on the semicolon's line.

The loops are bounded by the number of tokens ahead, since every round consumes a token.
-/

namespace InterfaceHeader.Reader

/-- What an enumeration value is set to, after the equals sign. -/
def initializer : Reader Initializer := do
  if ← isAt .integer then return .int (← integer)
  else if ← isAt .identifier then return .reference (← identifier)
  else fail [TokenKind.integer.describe, TokenKind.identifier.describe]

/-- A name with an optional initializer. -/
def enumValue : Reader EnumValue := do
  let name ← identifier
  match ← accept (.punct .equals) with
  | none => return ⟨name, none, none⟩
  | some _ => return ⟨name, some (← initializer), none⟩

/-- At most so many values, up to the closing brace. A value's comment stands behind it or behind
    its comma. -/
def enumValues : Nat → Reader (List EnumValue)
  | 0 => return []
  | n + 1 => do
    if ← isAt (.punct .rightBrace) then return []
    else
      let value ← enumValue
      let direct ← trailingComment
      match ← accept (.punct .comma) with
      | none => return [{ value with comment := direct }]
      | some _ =>
        let comment ← if direct.isSome then pure direct else trailingComment
        return { value with comment := comment } :: (← enumValues n)

/-- An enumeration. -/
def enumDecl : Reader EnumDecl := do
  keyword .typedef
  keyword .enum
  punct .leftBrace
  let values ← enumValues ((← get).ahead.length + 1)
  punct .rightBrace
  let name ← accept .identifier
  return ⟨name.map Token.lexeme, values⟩

/-- An alias. -/
def aliasDecl : Reader AliasDecl := do
  keyword .typedef
  let type ← primitive
  return ⟨type, ← identifier⟩

/-- A data member. -/
def variableField : Reader Variable := do
  let type ← primitive
  return ⟨type, ← identifier⟩

/-- A function pointer member, which has at least one argument. -/
def methodField : Reader Method := do
  let function ← signature (argumentList argument)
  return ⟨function, ← comment⟩

/-- A member of a structure with its semicolon. -/
def structField : Reader StructField := do
  let field : StructField ←
    choose [return .data (← variableField), return .method (← methodField)]
  punct .semicolon
  match field with
  | .method ⟨function, none⟩ => return .method ⟨function, ← trailingComment⟩
  | field => return field

/-- At most so many members, up to the closing brace. -/
def structFields : Nat → Reader (List StructField)
  | 0 => return []
  | n + 1 => do
    if (← get).next?.isNone || (← isAt (.punct .rightBrace)) then return []
    else
      let field ← structField
      return field :: (← structFields n)

/-- A structure. -/
def structDecl : Reader StructDecl := do
  keyword .typedef
  keyword .struct
  punct .leftBrace
  let fields ← structFields (← get).ahead.length
  punct .rightBrace
  return ⟨← identifier, fields⟩

/-- A function pointer. -/
def functionDecl : Reader FunctionType := do
  keyword .typedef
  functionType

/-- What `decl` reads, and a semicolon. -/
def ended (decl : Reader α) : Reader α := do
  let value ← decl
  punct .semicolon
  return value

/-- One declaration with its semicolon. -/
def declaration : Reader Declaration :=
  choose [
    return .enum (← ended enumDecl),
    return .typeAlias (← ended aliasDecl),
    return .function (← ended functionDecl),
    return .struct (← ended structDecl)]

/-- Adds to an error at `start` that a comment may stand there. -/
def orComment (start : Position) (reader : Reader α) : Reader α := fun c =>
  match reader c with
  | .ok value c => .ok value c
  | .error e c =>
    .error (if e.position = some start then e.expecting [TokenKind.comment.describe] else e) c

/-- At most so many declarations and comments, up to the end. -/
def declarations : Nat → Reader (List Declaration)
  | 0 => return []
  | n + 1 => do
    match ← comment with
    | some text => return .comment text :: (← declarations n)
    | none =>
      match (← get).next? with
      | none => return []
      | some next =>
        let first ← orComment next.position declaration
        return first :: (← declarations n)

/-- A whole header. -/
def header : Reader Header := do
  return ⟨← declarations (← get).ahead.length⟩

end InterfaceHeader.Reader

namespace InterfaceHeader

/-- The outcome of a reader without the cursor. -/
def Reader.outcome (result : EStateM.Result SyntaxError Cursor α) : Except SyntaxError α :=
  match result with
  | .ok value _ => .ok value
  | .error e _ => .error e

/-- The header that tokens spell. -/
def Header.ofTokens? (tokens : List Token) : Except SyntaxError Header :=
  Reader.outcome (Reader.header (Cursor.ofTokens tokens))

/-- The type that tokens spell. -/
def CType.ofTokens? (tokens : List Token) : Except SyntaxError CType :=
  Reader.outcome (Reader.wholeType (Cursor.ofTokens tokens))

end InterfaceHeader
