import InterfaceHeader.Directive.Basic

/-!
# Outlines

The outline of a header: its text lines and directives, with the branches of conditional blocks
as subtrees. A further branch of a block is the last branch of the block before it, holding a
block of its own; both end with the same closing directive.
-/

namespace InterfaceHeader

/-- Where a directive stands: the line it starts on and how many lines it takes. -/
structure Site where
  line : Nat
  span : Nat
deriving DecidableEq

/-- The directive that starts a branch. -/
structure Opening where
  opener : Opener
  condition : Condition
  site : Site
deriving DecidableEq

/-- A part of a header. -/
inductive Node where
  /-- One line of text, without its newline. -/
  | text (line : String)
  | define (name : String) (value : Bool) (site : Site)
  | undef (name : String) (site : Site)
  /-- A directive that has no effect. -/
  | other (name : String) (site : Site)
  /-- A block with one branch, and the lines of the directive that closes it. -/
  | ifThen (opening : Opening) (body : List Node) (endSpan : Nat)
  /-- A block with two branches, the lines of the directive between them, and of the one that
      closes the block. -/
  | ifElse (opening : Opening) (body : List Node) (elseSpan : Nat) (otherwise : List Node)
      (endSpan : Nat)

end InterfaceHeader
