import InterfaceHeader.Text.Pieces
import InterfaceHeader.Text.Terminal

/-!
# The log

While it works the program tells what it does. A log entry has a level that says how much it
matters, the part of the program that speaks, and a text. Entries below a chosen level are not
shown, and an entry is printed without the control characters that its text may hold.
-/

namespace InterfaceHeader

/-- How much an entry matters, from least to most. -/
inductive LogLevel where
  | detail
  | progress
  | warning
deriving DecidableEq

/-- The parts of the program that speak. -/
inductive LogSource where
  | program
  | directives
  | reader
  | output
deriving DecidableEq

structure LogEntry where
  level : LogLevel
  source : LogSource
  text : String
deriving DecidableEq

/-- The name of the level, padded to a common width. -/
def LogLevel.label : LogLevel → String
  | .detail => "DEBUG"
  | .progress => "INFO "
  | .warning => "WARN "

def LogLevel.rank : LogLevel → Nat
  | .detail => 0
  | .progress => 1
  | .warning => 2

/-- The name under which a part of the program speaks. -/
def LogSource.label : LogSource → String
  | .program => "gdext_header"
  | .directives => "gdext_header::preprocessor::directives"
  | .reader => "gdext_header::parser"
  | .output => "gdext_header::output"

namespace LogEntry

/-- The text of an entry with all lines after the first indented. -/
def indentedText (e : LogEntry) : String :=
  "\n    ".intercalate ((Text.pieces '\n' e.text.toList).map String.ofList)

/-- An entry as it is printed. -/
def printed (e : LogEntry) : String :=
  Terminal.plain
    ("[" ++ e.level.label ++ " " ++ e.source.label ++ "] " ++ e.indentedText ++ "\n")

/-- The entries that matter at least as much as a level. -/
def shown (threshold : LogLevel) (entries : List LogEntry) : List LogEntry :=
  entries.filter fun e => threshold.rank ≤ e.level.rank

end LogEntry

end InterfaceHeader
