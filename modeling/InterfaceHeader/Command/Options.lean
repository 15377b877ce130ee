import InterfaceHeader.SymbolTable
import InterfaceHeader.Text.Identifier
import InterfaceHeader.Text.Lines
import InterfaceHeader.Text.Terminal

/-!
# Options of the command line

What a command line can set: the project, options that take a value, and switches. Every one of
them is at its default, or empty, where the command line says nothing. The errors a command line
can have are listed here with their texts, which are written for a terminal.
-/

namespace InterfaceHeader.Command

/-- The options that take a value. -/
inductive ValueOption where
  | header
  | define
  | undefine
  | output
deriving DecidableEq

/-- The options that take none. -/
inductive Switch where
  | check
  | signatures
  | verbose
  | help
deriving DecidableEq

/-- All that a command line can mention. -/
inductive Parameter where
  | project
  | valued (option : ValueOption)
  | switch (flag : Switch)
deriving DecidableEq

namespace ValueOption

/-- The name behind two dashes. -/
def name : ValueOption → String
  | .header => "header"
  | .define => "define"
  | .undefine => "undefine"
  | .output => "output"

/-- The letter behind one dash. -/
def letter? : ValueOption → Option Char
  | .header => none
  | .define => some 'D'
  | .undefine => some 'U'
  | .output => some 'o'

/-- What stands for the value in messages. -/
def placeholder : ValueOption → String
  | .header => "<REL>"
  | .define => "<NAME[=VALUE]>"
  | .undefine => "<NAME>"
  | .output => "<FILE>"

def all : List ValueOption := [.header, .define, .undefine, .output]

end ValueOption

namespace Switch

/-- The name behind two dashes. -/
def name : Switch → String
  | .check => "check"
  | .signatures => "signatures"
  | .verbose => "verbose"
  | .help => "help"

/-- The letter behind one dash. -/
def letter? : Switch → Option Char
  | .check => none
  | .signatures => none
  | .verbose => some 'v'
  | .help => some 'h'

def all : List Switch := [.check, .signatures, .verbose, .help]

end Switch

/-- A parameter as messages show it. -/
def Parameter.text : Parameter → String
  | .project => "<PROJECT>"
  | .valued option => "--" ++ option.name ++ " " ++ option.placeholder
  | .switch flag => "--" ++ flag.name

/-- The options with a given name. -/
def Parameter.named? (name : String) : Option Parameter :=
  ((ValueOption.all.find? fun option => option.name == name).map .valued).or
    ((Switch.all.find? fun flag => flag.name == name).map .switch)

/-- The options with a given letter. -/
def Parameter.lettered? (letter : Char) : Option Parameter :=
  ((ValueOption.all.find? fun option => option.letter? == some letter).map .valued).or
    ((Switch.all.find? fun flag => flag.letter? == some letter).map .switch)

/-- What is wrong with a command line. -/
inductive UsageError where
  /-- A parameter is mentioned without its value, or with an empty one where that cannot be. -/
  | missingValue (parameter : Parameter)
  /-- A parameter is given twice that can be given only once. -/
  | repeated (parameter : Parameter)
  /-- A switch is given a value. -/
  | unneededValue (flag : Switch) (value : String)
  /-- A definition whose name is no identifier. -/
  | invalidSymbol (definition name : String)
  /-- An option that there is not, or a second project. -/
  | unexpected (argument : String)
  | missingProject
deriving DecidableEq

/-- A text in quotes, in a style. -/
def quotedIn (style : Terminal.Style) (text : String) : String :=
  "'" ++ Terminal.styled style text ++ "'"

namespace UsageError

/-- The text of the error. -/
def message : UsageError → String
  | .missingValue parameter =>
    "a value is required for " ++ quotedIn .literal parameter.text ++ " but none was supplied"
  | .repeated parameter =>
    "the argument " ++ quotedIn .invalid parameter.text ++ " cannot be used multiple times"
  | .unneededValue flag value =>
    "unexpected value " ++ quotedIn .invalid value ++ " for "
      ++ quotedIn .literal (Parameter.switch flag).text ++ " found; no more were expected"
  | .invalidSymbol definition name =>
    "invalid value " ++ quotedIn .invalid definition ++ " for "
      ++ quotedIn .literal (Parameter.valued .define).text ++ ": invalid symbol name '" ++ name
      ++ "'"
  | .unexpected argument => "unexpected argument " ++ quotedIn .invalid argument ++ " found"
  | .missingProject =>
    "the following required arguments were not provided:\n  "
      ++ Terminal.styled .literal Parameter.project.text

/-- All that is said about the error: its text, and where help is to be found. -/
def report (e : UsageError) : String :=
  Terminal.styled .fault "error:" ++ " " ++ e.message ++ "\n\nFor more information, try "
    ++ quotedIn .literal "--help" ++ ".\n"

end UsageError

/-- A symbol that the command line defines. -/
structure Definition where
  name : String
  value : Bool
deriving DecidableEq

/-- The definition that a text spells: a name, and behind an equals sign the text of its value.
    Without one the symbol is true. -/
def Definition.ofText? (text : String) : Except UsageError Definition :=
  let name := text.toList.takeWhile (· != '=')
  let value :=
    match text.toList.dropWhile (· != '=') with
    | [] => true
    | _ :: value => definitionValue value
  if Text.isIdentifier name then .ok ⟨String.ofList name, value⟩
  else .error (.invalidSymbol text (String.ofList name))

/-- What a command line asks for. -/
structure Options where
  /-- The project directory, or the header itself. -/
  project : String
  /-- Where the header is, seen from the project directory. -/
  header : String
  definitions : List Definition
  undefined : List String
  check : Bool
  signatures : Bool
  output : Option String
  verbose : Bool
deriving DecidableEq

/-- Where the header of a project is if the command line does not say. -/
def defaultHeader : String := "godot_headers/godot/gdextension_interface.h"

/-- The symbols that the command line sets: all definitions in their order, and then what is to be
    undefined. -/
def Options.symbols (o : Options) : SymbolTable :=
  o.undefined.foldl SymbolTable.undefine
    (o.definitions.foldl (fun t d => t.define d.name d.value) .empty)

/-- The text that explains the command line. -/
def helpText : String :=
  Text.unlines
    ["Parse the GDExtension interface header into a typed AST",
     "",
     "Usage: gdext-header [OPTIONS] <PROJECT>",
     "",
     "Arguments:",
     "  <PROJECT>  Project directory, or the header file itself",
     "",
     "Options:",
     "      --header <REL>           Header location relative to the project directory [default: "
       ++ defaultHeader ++ "]",
     "  -D, --define <NAME[=VALUE]>  Define a preprocessor symbol (NAME, NAME=0 or NAME=1)",
     "  -U, --undefine <NAME>        Undefine a preprocessor symbol, applied after every -D",
     "      --check                  Check syntax only",
     "      --signatures             Print canonical C declarations to stdout",
     "  -o, --output <FILE>          Write the AST as JSON",
     "  -v, --verbose                Verbose output",
     "  -h, --help                   Print help"]

end InterfaceHeader.Command
