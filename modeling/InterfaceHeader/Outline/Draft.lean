import InterfaceHeader.Outline.Node
import InterfaceHeader.Text.Lines

/-!
# Drafting an outline

The outline of a header is drafted line by line. A draft holds the parts that are finished and,
innermost first, the blocks that are still open; an open block holds all branches of its chain so
far. Each directive acts on the innermost block, and at the end no block may be open.

`outlineOf?` is the outline of a whole text, or the error of the first line that does not fit.
-/

namespace InterfaceHeader

/-- A branch that another one has followed. -/
structure Arm where
  opening : Opening
  body : List Node

/-- A block whose closing directive has not come yet. -/
structure OpenBlock where
  /-- The branches before the current one, latest first. -/
  earlier : List Arm
  /-- The start of the current branch under a condition. -/
  opening : Opening
  body : List Node
  /-- The last branch, if it has started, behind the lines of its directive. -/
  otherwise : Option (Nat × List Node)

namespace OpenBlock

/-- A block at its first branch. -/
def start (opening : Opening) : OpenBlock :=
  ⟨[], opening, [], none⟩

/-- The directive that opened the block. -/
def first (b : OpenBlock) : Opening :=
  (b.earlier.getLast?.map Arm.opening).getD b.opening

/-- Puts a part at the end of the current branch. -/
def add (b : OpenBlock) (node : Node) : OpenBlock :=
  match b.otherwise with
  | none => { b with body := b.body ++ [node] }
  | some (span, nodes) => { b with otherwise := some (span, nodes ++ [node]) }

/-- The current branch as a part of its own, closed by a directive of so many lines. -/
def current (b : OpenBlock) (endSpan : Nat) : Node :=
  match b.otherwise with
  | none => .ifThen b.opening b.body endSpan
  | some (span, nodes) => .ifElse b.opening b.body span nodes endSpan

/-- A block, given by the lines of its closing directive, as what happens otherwise in the
    branches before it. The whole chain has one closing directive, and its lines are counted with
    the outermost block. -/
def nest (endSpan : Nat) : (Nat → Node) → List Arm → Node
  | block, [] => block endSpan
  | block, arm :: earlier =>
    nest endSpan (.ifElse arm.opening arm.body 0 [block 0]) earlier

/-- The whole block. -/
def close (b : OpenBlock) (endSpan : Nat) : Node :=
  nest endSpan b.current b.earlier

end OpenBlock

/-- What has been read of a header. -/
structure Draft where
  nodes : List Node
  blocks : List OpenBlock

namespace Draft

/-- Nothing has been read. -/
def empty : Draft := ⟨[], []⟩

/-- Puts a part at the end of the innermost open branch. -/
def add (d : Draft) (node : Node) : Draft :=
  match d.blocks with
  | [] => { d with nodes := d.nodes ++ [node] }
  | b :: blocks => { d with blocks := b.add node :: blocks }

/-- Starts a block. -/
def openBlock (d : Draft) (opening : Opening) : Draft :=
  { d with blocks := .start opening :: d.blocks }

/-- Starts a further branch of the innermost block. -/
def elseIf (d : Draft) (opening : Opening) : Except DirectiveFault Draft :=
  match d.blocks with
  | [] => .error (.unbalancedElse "elif")
  | b :: blocks =>
    match b.otherwise with
    | some _ => .error (.branchAfterElse "elif")
    | none =>
      .ok { d with blocks := ⟨⟨b.opening, b.body⟩ :: b.earlier, opening, [], none⟩ :: blocks }

/-- Starts the last branch of the innermost block. -/
def otherwise (d : Draft) (span : Nat) : Except DirectiveFault Draft :=
  match d.blocks with
  | [] => .error (.unbalancedElse "else")
  | b :: blocks =>
    match b.otherwise with
    | some _ => .error (.branchAfterElse "else")
    | none => .ok { d with blocks := { b with otherwise := some (span, []) } :: blocks }

/-- Closes the innermost block. -/
def closeBlock (d : Draft) (span : Nat) : Except DirectiveFault Draft :=
  match d.blocks with
  | [] => .error .unbalancedEndif
  | b :: blocks => .ok (Draft.add ⟨d.nodes, blocks⟩ (b.close span))

/-- What a directive does to a draft. -/
def apply (d : Draft) (site : Site) : Directive → Except DirectiveFault Draft
  | .branch .elseIf condition => d.elseIf ⟨.elseIf, condition, site⟩
  | .branch opener condition => .ok (d.openBlock ⟨opener, condition, site⟩)
  | .otherwise => d.otherwise site.span
  | .endif => d.closeBlock site.span
  | .define name value => .ok (d.add (.define name value site))
  | .undef name => .ok (d.add (.undef name site))
  | .other name => .ok (d.add (.other name site))

/-- Takes in one more line. -/
def step (d : Draft) (line : LogicalLine) : Except DirectiveError Draft :=
  if line.isDirective then
    ((Directive.ofText? line.text).bind (d.apply ⟨line.number, line.span⟩)).mapError
      fun fault => ⟨fault, line.number⟩
  else .ok (d.add (.text (String.ofList line.text)))

/-- The outline, if no block is open. -/
def finish (d : Draft) : Except DirectiveError (List Node) :=
  match d.blocks with
  | [] => .ok d.nodes
  | b :: _ => .error ⟨.unclosedBlock b.first.opener.text, b.first.site.line⟩

end Draft

/-- The outline of a text that is given by its logical lines. -/
def outlineOfLines? (lines : List LogicalLine) : Except DirectiveError (List Node) :=
  (lines.foldlM Draft.step Draft.empty).bind Draft.finish

/-- The outline of a text. -/
def outlineOf? (text : List Char) : Except DirectiveError (List Node) :=
  outlineOfLines? (logicalLines (Text.lines text))

end InterfaceHeader
