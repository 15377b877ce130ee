import InterfaceHeader.Command.Options

/-!
# Reading the command line

An argument that starts with a dash mentions options: two dashes and a name, with a value behind
an equals sign, or one dash and letters, the value of the last one directly behind it. An option
whose value is not there takes it from the next argument that does not start with a dash. Any
other argument is the project, as is every argument after a double dash.

Reading goes in two steps. `mentions` cuts the arguments into what they mention, up to the first
argument that fits nothing; `Given.add` then takes the mentions one by one, and the first fault in
them is the error. An option that waits for its value, or has just got it, is settled by the next
mention, so that an argument that fits nothing comes before its faults.
-/

namespace InterfaceHeader.Command

/-- One thing that a command line mentions. -/
inductive Mention where
  | project (path : String)
  | valued (option : ValueOption) (value : Option String)
  | switch (flag : Switch)
deriving DecidableEq

/-- How an argument that mentions options ends. -/
inductive Ending where
  | complete
  /-- The last option has no value yet. -/
  | awaiting (option : ValueOption)
  /-- Something in the argument fits nothing. -/
  | stray (error : UsageError)
deriving DecidableEq

/-- What an argument can be. -/
inductive ArgumentForm where
  /-- The double dash, after which all arguments are plain. -/
  | divider
  | options (mentions : List Mention) (ending : Ending)
  | plain
deriving DecidableEq

namespace ArgumentForm

/-- An option by its name, with the value behind the equals sign. -/
def ofName (name : String) (value : Option String) : ArgumentForm :=
  match Parameter.named? name, value with
  | some (.valued option), none => .options [] (.awaiting option)
  | some (.valued option), some value => .options [.valued option (some value)] .complete
  | some (.switch flag), none => .options [.switch flag] .complete
  | some (.switch flag), some value => .options [] (.stray (.unneededValue flag value))
  | _, _ => .options [] (.stray (.unexpected ("--" ++ name)))

/-- Options by their letters. What follows the letter of an option with a value is that value; an
    equals sign before it is dropped. -/
def ofLetters : List Char → List Mention × Ending
  | [] => ([], .complete)
  | c :: cs =>
    match Parameter.lettered? c, cs with
    | some (.valued option), [] => ([], .awaiting option)
    | some (.valued option), '=' :: value =>
      ([.valued option (some (String.ofList value))], .complete)
    | some (.valued option), value => ([.valued option (some (String.ofList value))], .complete)
    | some (.switch flag), rest =>
      let (mentions, ending) := ofLetters rest
      (.switch flag :: mentions, ending)
    | _, _ => ([], .stray (.unexpected (String.ofList ['-', c])))

/-- The form of an argument. A dash alone is plain. -/
def ofText (text : String) : ArgumentForm :=
  match text.toList with
  | ['-', '-'] => .divider
  | '-' :: '-' :: body =>
    let name := String.ofList (body.takeWhile (· != '='))
    match body.dropWhile (· != '=') with
    | [] => ofName name none
    | _ :: value => ofName name (some (String.ofList value))
  | '-' :: c :: letters =>
    let (mentions, ending) := ofLetters (c :: letters)
    .options mentions ending
  | _ => .plain

end ArgumentForm

/-- Puts mentions in front. -/
def prepend (mentions : List Mention) (rest : List Mention × Option UsageError) :
    List Mention × Option UsageError :=
  (mentions ++ rest.1, rest.2)

/-- The mentions of plain arguments: one project, unless there is one already. -/
def plainMentions (hasProject : Bool) (unsettled : Option Mention) :
    List String → List Mention × Option UsageError
  | [] => (unsettled.toList, none)
  | argument :: rest =>
    if hasProject then ([], some (.unexpected argument))
    else prepend unsettled.toList (plainMentions true (some (.project argument)) rest)

/-- The mentions of arguments, up to the first that fits nothing. The last mention before them may
    still be unsettled. -/
def mentionsFrom (hasProject : Bool) (unsettled : Option Mention) :
    List String → List Mention × Option UsageError
  | [] => (unsettled.toList, none)
  | argument :: rest =>
    match ArgumentForm.ofText argument with
    | .divider => plainMentions hasProject unsettled rest
    | .options [] (.stray error) => ([], some error)
    | .options mentions (.stray error) => (unsettled.toList ++ mentions, some error)
    | .options mentions .complete =>
      prepend (unsettled.toList ++ mentions) (mentionsFrom hasProject none rest)
    | .options mentions (.awaiting option) =>
      prepend (unsettled.toList ++ mentions)
        (mentionsFrom hasProject (some (.valued option none)) rest)
    | .plain =>
      match unsettled with
      | some (.valued option none) =>
        mentionsFrom hasProject (some (.valued option (some argument))) rest
      | _ =>
        if hasProject then ([], some (.unexpected argument))
        else prepend unsettled.toList (mentionsFrom true (some (.project argument)) rest)

/-- The mentions of a command line, up to the first argument that fits nothing, and the error of
    that argument. -/
def mentions (arguments : List String) : List Mention × Option UsageError :=
  mentionsFrom false none arguments

/-- What the mentions so far have set. -/
structure Given where
  project : Option String
  header : Option String
  output : Option String
  definitions : List Definition
  undefined : List String
  switches : List Switch
deriving DecidableEq

/-- Why a command line leads to no run. -/
inductive Halt where
  /-- It asks for help. -/
  | help
  | usage (error : UsageError)
deriving DecidableEq

namespace Given

/-- Nothing is set. -/
def nothing : Given := ⟨none, none, none, [], [], []⟩

/-- Sets a path that can be set once and is not empty. -/
def path? (parameter : Parameter) (before : Option String) (path : String) :
    Except Halt (Option String) :=
  if before.isSome then .error (.usage (.repeated parameter))
  else if path = "" then .error (.usage (.missingValue parameter))
  else .ok (some path)

/-- Takes an option with its value. -/
def addValue (g : Given) (option : ValueOption) (value : String) : Except Halt Given :=
  match option with
  | .header => return { g with header := ← path? (.valued .header) g.header value }
  | .output => return { g with output := ← path? (.valued .output) g.output value }
  | .undefine => return { g with undefined := g.undefined ++ [value] }
  | .define => do
    let definition ← (Definition.ofText? value).mapError .usage
    return { g with definitions := g.definitions ++ [definition] }

/-- Takes a mention. -/
def add (g : Given) : Mention → Except Halt Given
  | .project path => return { g with project := ← path? .project g.project path }
  | .valued option none => .error (.usage (.missingValue (.valued option)))
  | .valued option (some value) => g.addValue option value
  | .switch .help => .error .help
  | .switch flag =>
    if flag ∈ g.switches then .error (.usage (.repeated (.switch flag)))
    else .ok { g with switches := flag :: g.switches }

/-- The options that have been set, with defaults for the others. There is none for the
    project. -/
def options? (g : Given) : Except Halt Options :=
  match g.project with
  | none => .error (.usage .missingProject)
  | some project =>
    .ok
      { project
        header := g.header.getD defaultHeader
        definitions := g.definitions
        undefined := g.undefined
        check := decide (.check ∈ g.switches)
        signatures := decide (.signatures ∈ g.switches)
        output := g.output
        verbose := decide (.verbose ∈ g.switches) }

end Given

/-- The options that a command line spells. -/
def Options.ofArguments? (arguments : List String) : Except Halt Options := do
  let (found, stray) := mentions arguments
  let g ← found.foldlM Given.add .nothing
  match stray with
  | some error => .error (.usage error)
  | none => g.options?

end InterfaceHeader.Command
