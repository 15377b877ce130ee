import InterfaceHeader.Outline.Draft

/-!
# Flattening an outline

A configuration selects branches: walking an outline with a symbol table keeps the text of the
selected branches, and the definitions in them change the table for what follows. The walk tells
what happens line by line as events. The flat text consists of the lines kept; where line numbers
have to survive, an empty line stands for every line that was dropped.
-/

namespace InterfaceHeader

/-- What conditional compilation starts from. -/
structure Configuration where
  symbols : SymbolTable
  /-- Whether dropped lines leave empty lines behind. -/
  preserveLines : Bool
deriving DecidableEq

/-- How a branch was decided: by its opening directive, for it or against it. -/
structure Decision where
  opening : Opening
  taken : Bool
deriving DecidableEq

/-- What a walk over an outline comes across. -/
inductive Event where
  | kept (line : String)
  /-- So many physical lines do not appear in the flat text. -/
  | dropped (count : Nat)
  | decided (decision : Decision)
deriving DecidableEq

mutual

/-- The events of one part, and the symbols after it. In a part that is not active nothing is
    kept, decided or changed. -/
def Node.walk (active : Bool) (symbols : SymbolTable) : Node → List Event × SymbolTable
  | .text line => ([if active then .kept line else .dropped 1], symbols)
  | .define name value site =>
    ([.dropped site.span], if active then symbols.define name value else symbols)
  | .undef name site => ([.dropped site.span], if active then symbols.undefine name else symbols)
  | .other _ site => ([.dropped site.span], symbols)
  | .ifThen opening body endSpan =>
    let taken := active && opening.condition.eval symbols
    let (events, symbols) := walkAll taken symbols body
    ((if active then [.decided ⟨opening, taken⟩] else [])
      ++ .dropped opening.site.span :: events ++ [.dropped endSpan], symbols)
  | .ifElse opening body elseSpan otherwise endSpan =>
    let taken := active && opening.condition.eval symbols
    let (events, symbols) := walkAll taken symbols body
    let (others, symbols) := walkAll (active && !taken) symbols otherwise
    ((if active then [.decided ⟨opening, taken⟩] else [])
      ++ .dropped opening.site.span :: events
      ++ .dropped elseSpan :: others ++ [.dropped endSpan], symbols)

/-- The events of consecutive parts, and the symbols after them. -/
def walkAll (active : Bool) (symbols : SymbolTable) : List Node → List Event × SymbolTable
  | [] => ([], symbols)
  | node :: nodes =>
    let (events, symbols) := node.walk active symbols
    let (later, symbols) := walkAll active symbols nodes
    (events ++ later, symbols)

end

/-- The lines that an event leaves in the flat text. -/
def Event.lines (preserveLines : Bool) : Event → List String
  | .kept line => [line]
  | .dropped count => if preserveLines then List.replicate count "" else []
  | .decided _ => []

/-- The decisions among events. -/
def decisions (events : List Event) : List Decision :=
  events.filterMap fun
    | .decided decision => some decision
    | _ => none

/-- The events of a whole outline. -/
def eventsOf (nodes : List Node) (symbols : SymbolTable) : List Event :=
  (walkAll true symbols nodes).1

/-- The lines of the flat text. -/
def flatLines (nodes : List Node) (config : Configuration) : List String :=
  (eventsOf nodes config.symbols).flatMap (Event.lines config.preserveLines)

/-- The flat text of an outline. -/
def flatten (nodes : List Node) (config : Configuration) : String :=
  Text.unlines (flatLines nodes config)

/-- The flat text of a header, or why its directives cannot be followed. -/
def preprocess (text : String) (config : Configuration) : Except DirectiveError String :=
  (outlineOf? text.toList).map fun nodes => flatten nodes config

/-- A decision as the log shows it. -/
def Decision.describe (d : Decision) : String :=
  "line " ++ Decimal.count d.opening.site.line ++ ": #" ++ d.opening.opener.text ++ " "
    ++ d.opening.condition.describe ++ " -> " ++ (if d.taken then "then" else "else")

end InterfaceHeader
