import InterfaceHeader.SymbolTable

/-!
# Conditions

The conditions under which parts of a header are kept: symbols and constants joined by the
boolean operators, and the question whether a symbol is defined. `Condition.eval` decides one for
a symbol table, `Condition.describe` writes it out for the log.
-/

namespace InterfaceHeader

/-- A condition over symbols. -/
inductive Condition where
  /-- True if the symbol is defined with a true value. -/
  | symbol (name : String)
  | constant (value : Bool)
  | not (operand : Condition)
  | or (left right : Condition)
  | and (left right : Condition)
  /-- True if the symbol is defined with any value. -/
  | defined (name : String)
deriving DecidableEq

namespace Condition

/-- The truth of a condition for a symbol table. -/
def eval (symbols : SymbolTable) : Condition → Bool
  | .symbol name => symbols.holds name
  | .constant value => value
  | .not operand => !operand.eval symbols
  | .or left right => left.eval symbols || right.eval symbols
  | .and left right => left.eval symbols && right.eval symbols
  | .defined name => symbols.isDefined name

/-- A condition as nested terms. -/
def describe : Condition → String
  | .symbol name => "Symbol(\"" ++ name ++ "\")"
  | .constant value => "Constant(" ++ (if value then "true" else "false") ++ ")"
  | .not operand => "Not(" ++ operand.describe ++ ")"
  | .or left right => "Or(" ++ left.describe ++ ", " ++ right.describe ++ ")"
  | .and left right => "And(" ++ left.describe ++ ", " ++ right.describe ++ ")"
  | .defined name => "Defined(\"" ++ name ++ "\")"

/-- The names that a condition asks for the definition of. -/
def definedNames : Condition → List String
  | .symbol _ => []
  | .constant _ => []
  | .not operand => operand.definedNames
  | .or left right => left.definedNames ++ right.definedNames
  | .and left right => left.definedNames ++ right.definedNames
  | .defined name => [name]

/-- The names that a condition asks for the truth of. -/
def symbolNames : Condition → List String
  | .symbol name => [name]
  | .constant _ => []
  | .not operand => operand.symbolNames
  | .or left right => left.symbolNames ++ right.symbolNames
  | .and left right => left.symbolNames ++ right.symbolNames
  | .defined _ => []

end Condition

end InterfaceHeader
