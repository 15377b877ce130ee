import InterfaceHeader.Condition.Reader
import InterfaceHeader.Directive.Line

/-!
# Directives

What a directive line says: it opens a block under a condition, goes on to another branch, closes
the block, changes a symbol, or is none of the program's business. After the hash mark comes the
directive's name and then its arguments, in which comments count as blank space.
-/

namespace InterfaceHeader

/-- The directives that start a branch under a condition. -/
inductive Opener where
  | ifCondition
  | ifDefined
  | ifNotDefined
  /-- Goes on with a further branch of a block. -/
  | elseIf
deriving DecidableEq

/-- The name of the directive. -/
def Opener.text : Opener → String
  | .ifCondition => "if"
  | .ifDefined => "ifdef"
  | .ifNotDefined => "ifndef"
  | .elseIf => "elif"

/-- What is wrong with the directives of a text. -/
inductive DirectiveFault where
  /-- A block is closed that is not open. -/
  | unbalancedEndif
  /-- A branch starts outside every block. -/
  | unbalancedElse (directive : String)
  /-- A branch starts after the last one of its block. -/
  | branchAfterElse (directive : String)
  /-- The text ends inside a block. -/
  | unclosedBlock (directive : String)
  /-- A directive about a symbol names none. -/
  | missingSymbol (directive : String)
  /-- The condition of a directive cannot be read. -/
  | invalidExpression (error : ConditionError)
deriving DecidableEq

/-- A fault and the line it is reported on. -/
structure DirectiveError where
  fault : DirectiveFault
  line : Nat
deriving DecidableEq

/-- The text of the fault. -/
def DirectiveFault.message : DirectiveFault → String
  | .unbalancedEndif => "#endif without matching #if"
  | .unbalancedElse directive => "#" ++ directive ++ " without matching #if"
  | .branchAfterElse directive => "#" ++ directive ++ " after #else"
  | .unclosedBlock directive => "unclosed #" ++ directive ++ " at end of file"
  | .missingSymbol directive => "expected symbol after #" ++ directive
  | .invalidExpression error => "invalid expression: " ++ error.message

/-- The text of the error. -/
def DirectiveError.message (e : DirectiveError) : String :=
  "line " ++ Decimal.count e.line ++ ": " ++ e.fault.message

/-- A directive that has been understood. -/
inductive Directive where
  /-- Starts a branch under a condition. -/
  | branch (opener : Opener) (condition : Condition)
  /-- Starts the last branch of a block. -/
  | otherwise
  /-- Ends a block. -/
  | endif
  | define (name : String) (value : Bool)
  | undef (name : String)
  /-- Any other directive, by its name. -/
  | other (name : String)
deriving DecidableEq

namespace Directive

/-- The name of a directive line and its arguments without comments. -/
def split (line : List Char) : List Char × List Char :=
  let body := Text.trimStart ((Text.trimStart line).drop 1)
  (body.takeWhile Text.isWordChar,
    Text.trim (withoutComments false (body.dropWhile Text.isWordChar)))

/-- The symbol that the arguments start with. -/
def symbol? (directive : String) (arguments : List Char) : Except DirectiveFault String :=
  let name := arguments.takeWhile Text.isWordChar
  if Text.isIdentifier name then .ok (String.ofList name) else .error (.missingSymbol directive)

/-- The value that the rest of a definition gives its symbol. A definition with parameters makes
    its symbol true. -/
def valueOfRest (rest : List Char) : Bool :=
  let text := Text.trimStart rest
  if text.head? = some '(' then true else definitionValue text

/-- The condition that the arguments of a directive spell. -/
def condition? (arguments : List Char) : Except DirectiveFault Condition :=
  (Condition.ofText? arguments).mapError .invalidExpression

/-- The directive of a given name with given arguments. -/
def ofParts? (name : String) (arguments : List Char) : Except DirectiveFault Directive :=
  match name with
  | "if" => return .branch .ifCondition (← condition? arguments)
  | "elif" => return .branch .elseIf (← condition? arguments)
  | "ifdef" => return .branch .ifDefined (.defined (← symbol? name arguments))
  | "ifndef" => return .branch .ifNotDefined (.not (.defined (← symbol? name arguments)))
  | "else" => return .otherwise
  | "endif" => return .endif
  | "define" =>
    return .define (← symbol? name arguments)
      (valueOfRest (arguments.dropWhile Text.isWordChar))
  | "undef" => return .undef (← symbol? name arguments)
  | _ => return .other name

/-- The directive that a directive line spells. -/
def ofText? (line : List Char) : Except DirectiveFault Directive :=
  let (name, arguments) := split line
  ofParts? (String.ofList name) arguments

end Directive

/-- A logical line is a directive if it starts like one outside every comment. -/
def LogicalLine.isDirective (line : LogicalLine) : Bool :=
  !line.inComment && startsDirective line.text

end InterfaceHeader
