import InterfaceHeader.Command.Arguments
import InterfaceHeader.Declaration.Signatures
import InterfaceHeader.Files.Path
import InterfaceHeader.Loading

/-!
# Running the program

A run reads its options from the command line, loads the header that they name, and prints or
writes what they ask for. It reads one file and replaces at most one, and whatever it has to say
is in its outcome.
-/

namespace InterfaceHeader.Command

/-- How a run ends. -/
inductive Status where
  | success
  | failure
  /-- The command line could not be understood. -/
  | usage
deriving DecidableEq

/-- The number that the machine is told. -/
def Status.code : Status → Nat
  | .success => 0
  | .failure => 1
  | .usage => 2

/-- What a run leaves behind besides files. -/
structure Outcome where
  status : Status
  stdout : String
  /-- What is printed on the error output. It need not be a terminal, so the log and what is said
      about the command line are plain; an error that ends a run is printed as it is. -/
  stderr : String
deriving DecidableEq

/-- What is printed about an error that ends a run. -/
def errorText (message : String) : String :=
  "error: " ++ message ++ "\n"

/-- The outcome of a command line without a run. -/
def Halt.outcome : Halt → Outcome
  | .help => ⟨.success, helpText, ""⟩
  | .usage error => ⟨.usage, "", Terminal.plain error.report⟩

namespace Options

/-- What the preprocessor starts from. Lines keep their numbers, so that errors name those of the
    file. -/
def configuration (o : Options) : Configuration :=
  ⟨o.symbols, true⟩

/-- The path of the header: an existing file given as the project, and else a path in the
    project. -/
def headerPath (o : Options) (projectIsFile : Bool) : String :=
  if projectIsFile then o.project else Path.within o.project o.header

/-- What is printed of the log. -/
def logText (o : Options) (entries : List LogEntry) : String :=
  String.join
    ((LogEntry.shown (if o.verbose then .detail else .warning) entries).map LogEntry.printed)

/-- A run that goes well. -/
def succeeds (o : Options) (log : List LogEntry) (stdout : String) : Outcome :=
  ⟨.success, stdout, o.logText log⟩

/-- A run that ends with an error. -/
def fails (o : Options) (log : List LogEntry) (stdout : String) (error : FileError) : Outcome :=
  ⟨.failure, stdout, o.logText log ++ errorText error.message⟩

end Options

/-- The log entry at the start of a run. -/
def startEntry (path : String) : LogEntry :=
  ⟨.progress, .program, "Processing: " ++ path⟩

/-- The warning about a function that is declared again. -/
def duplicateEntry (f : FunctionType) : LogEntry :=
  ⟨.warning, .program, "dropping duplicate function typedef " ++ f.name⟩

/-- The log entries about a file that was written. -/
def writtenEntries (path contents : String) : List LogEntry :=
  [⟨.detail, .output, "wrote " ++ Decimal.count contents.utf8ByteSize ++ " bytes to " ++ path⟩,
   ⟨.progress, .program, "→ " ++ path⟩]

/-- How many declarations of each kind a header has. -/
def summary (path : String) (h : Header) : String :=
  Text.unlines
    [path,
     "  enums:     " ++ Decimal.count h.enums.length,
     "  aliases:   " ++ Decimal.count h.aliases.length,
     "  functions: " ++ Decimal.count h.functions.length,
     "  structs:   " ++ Decimal.count h.structs.length]

/-- What a run with these options prints about a header if it does not only check it. -/
def Options.printed (o : Options) (path : String) (h : Header) : String :=
  if o.signatures then h.signatures
  else if o.output.isSome then ""
  else summary path h

variable {m : Type → Type} [Monad m]

/-- Loads the header that the options name. The result goes with the path of the header. -/
def Options.load (o : Options) (files : FileAccess m) :
    m (String × Logged (Except FileError Header)) := do
  let path := o.headerPath (← files.isFile o.project)
  return (path, Header.load path (← files.read path) o.configuration)

/-- Prints or writes what the options ask for about a loaded header. -/
def Options.report (o : Options) (files : FileAccess m) (path : String) (log : List LogEntry)
    (h : Header) : m Outcome := do
  if o.check then return o.succeeds log ("✓ " ++ path ++ " - Syntax OK\n")
  else
    let printed := o.printed path h
    match o.output with
    | none => return o.succeeds log printed
    | some target =>
      if ← files.replace target h.dump then
        return o.succeeds (log ++ writtenEntries target h.dump) printed
      else return o.fails log printed (.writing target)

/-- Runs with given options. -/
def Options.run (o : Options) (files : FileAccess m) : m Outcome := do
  let (path, loaded) ← o.load files
  let log := startEntry path :: loaded.log
  match loaded.result with
  | .error error => return o.fails log "" error
  | .ok h => o.report files path (log ++ h.duplicateFunctions.map duplicateEntry) h

/-- Runs a command line. -/
def run (files : FileAccess m) (arguments : List String) : m Outcome :=
  match Options.ofArguments? arguments with
  | .error halt => return halt.outcome
  | .ok o => o.run files

end InterfaceHeader.Command
