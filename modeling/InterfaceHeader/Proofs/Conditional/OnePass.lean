import InterfaceHeader.Outline.Flatten

/-!
# Conditional compilation in one pass

What conditional compilation means, line by line and without an outline: a stack of frames says
for every open block whether the region around it is active, whether one of its branches has been
taken, and whether the current branch is active; a symbol table goes along. A directive changes
the stack or the table, a text line is shown if its region is active.

`onePass` is the text shown in this way. It knows nothing of nesting errors: a directive without
an open block has no effect, and neither has one that cannot be read.
-/

namespace InterfaceHeader

/-- The directive that a line spells, if it spells one. -/
def LogicalLine.directive? (line : LogicalLine) : Option Directive :=
  if line.isDirective then (Directive.ofText? line.text).toOption else none

/-- An open block, as far as it matters for the lines that follow. -/
structure Frame where
  /-- The region around the block is active. -/
  enclosing : Bool
  /-- Some branch so far was active. -/
  taken : Bool
  /-- The current branch is active. -/
  active : Bool
deriving DecidableEq

/-- The frame of a block behind a directive that goes on to another branch. The branch is active if
    the region around the block is, no branch before it was, and its condition holds. -/
def Frame.further (f : Frame) (holds : Bool) : Frame :=
  let now := f.enclosing && !f.taken && holds
  ⟨f.enclosing, f.taken || now, now⟩

/-- What one pass over the lines knows at a line: the open blocks, innermost first, and the
    symbols. -/
structure Pass where
  frames : List Frame
  symbols : SymbolTable
deriving DecidableEq

/-- So many empty lines, where dropped lines leave them behind. -/
def blankLines (preserveLines : Bool) (count : Nat) : List String :=
  if preserveLines then List.replicate count "" else []

namespace Pass

/-- The lines at this place are in an active region: outside every block, or in the active branch
    of the innermost one. -/
def active (p : Pass) : Bool :=
  match p.frames with
  | [] => true
  | f :: _ => f.active

/-- Opens a block whose first branch has a condition that holds or not. -/
def enter (p : Pass) (holds : Bool) : Pass :=
  let now := p.active && holds
  { p with frames := ⟨p.active, now, now⟩ :: p.frames }

/-- Goes on to a branch of the innermost block. -/
def further (p : Pass) (holds : Bool) : Pass :=
  match p.frames with
  | [] => p
  | f :: outer => { p with frames := f.further holds :: outer }

/-- Closes the innermost block. -/
def leave (p : Pass) : Pass :=
  { p with frames := p.frames.tail }

/-- What a directive does. Conditions are decided by the table at this place, and only active
    regions change it. -/
def apply (p : Pass) : Directive → Pass
  | .branch .elseIf condition => p.further (condition.eval p.symbols)
  | .branch _ condition => p.enter (condition.eval p.symbols)
  | .otherwise => p.further true
  | .endif => p.leave
  | .define name value =>
    { p with symbols := if p.active then p.symbols.define name value else p.symbols }
  | .undef name => { p with symbols := if p.active then p.symbols.undefine name else p.symbols }
  | .other _ => p

/-- The pass behind a line. -/
def after (p : Pass) (line : LogicalLine) : Pass :=
  match line.directive? with
  | some directive => p.apply directive
  | none => p

/-- The pass behind several lines. -/
def run (p : Pass) (lines : List LogicalLine) : Pass :=
  lines.foldl after p

/-- What a line leaves in the flat text. -/
def shown (preserveLines : Bool) (p : Pass) (line : LogicalLine) : List String :=
  if line.isDirective then blankLines preserveLines line.span
  else if p.active then [String.ofList line.text]
  else blankLines preserveLines 1

/-- What several lines leave in the flat text. -/
def output (preserveLines : Bool) : Pass → List LogicalLine → List String
  | _, [] => []
  | p, line :: rest => p.shown preserveLines line ++ output preserveLines (p.after line) rest

/-- The pass in front of a text. -/
def start (symbols : SymbolTable) : Pass := ⟨[], symbols⟩

theorem after_of_directive? {line : LogicalLine} {directive : Directive} (p : Pass)
    (spelt : line.directive? = some directive) : p.after line = p.apply directive := by
  rw [after, spelt]

theorem after_of_none {line : LogicalLine} (p : Pass) (silent : line.directive? = none) :
    p.after line = p := by
  rw [after, silent]

@[simp] theorem run_nil (p : Pass) : p.run [] = p := rfl

@[simp] theorem run_cons (p : Pass) (line : LogicalLine) (lines : List LogicalLine) :
    p.run (line :: lines) = (p.after line).run lines := rfl

theorem run_append (p : Pass) (lines more : List LogicalLine) :
    p.run (lines ++ more) = (p.run lines).run more := by
  rw [run, List.foldl_append]
  rfl

@[simp] theorem output_nil (preserveLines : Bool) (p : Pass) : p.output preserveLines [] = [] :=
  rfl

@[simp] theorem output_cons (preserveLines : Bool) (p : Pass) (line : LogicalLine)
    (lines : List LogicalLine) :
    p.output preserveLines (line :: lines) =
      p.shown preserveLines line ++ (p.after line).output preserveLines lines := rfl

theorem output_append (preserveLines : Bool) (p : Pass) (lines more : List LogicalLine) :
    p.output preserveLines (lines ++ more) =
      p.output preserveLines lines ++ (p.run lines).output preserveLines more := by
  induction lines generalizing p with
  | nil => rfl
  | cons line lines ih =>
      rw [List.cons_append, output_cons, output_cons, ih, run_cons, List.append_assoc]

end Pass

theorem LogicalLine.isDirective_of_directive? {line : LogicalLine} {directive : Directive}
    (spelt : line.directive? = some directive) : line.isDirective = true := by
  cases kind : line.isDirective with
  | true => rfl
  | false =>
      rw [directive?, kind] at spelt
      cases spelt

/-- A line of text spells no directive. -/
theorem LogicalLine.directive?_of_text {line : LogicalLine} (text : line.isDirective = false) :
    line.directive? = none := by
  rw [directive?, text]
  rfl

/-- The flat text of a header in one pass over its logical lines. -/
def onePass (text : List Char) (config : Configuration) : String :=
  Text.unlines ((Pass.start config.symbols).output config.preserveLines
    (logicalLines (Text.lines text)))

end InterfaceHeader
