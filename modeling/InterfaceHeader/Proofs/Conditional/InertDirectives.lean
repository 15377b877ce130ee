import InterfaceHeader.Proofs.Conditional.Steps

/-!
# Directives without effect in an outline

A directive that is none of the program's business is kept in the outline, with its name and its
place. Drafting neither loses one nor moves it past another: read from first to last, with the
bodies of blocks in between, an outline has the directives without effect that its lines have.
-/

namespace InterfaceHeader

mutual

/-- The names and places of the directives without effect in one part, in order. -/
def Node.inert : Node → List (String × Site)
  | .text _ => []
  | .define _ _ _ => []
  | .undef _ _ => []
  | .other name site => [(name, site)]
  | .ifThen _ body _ => inertAll body
  | .ifElse _ body _ otherwise _ => inertAll body ++ inertAll otherwise

/-- Those in consecutive parts. -/
def inertAll : List Node → List (String × Site)
  | [] => []
  | node :: nodes => node.inert ++ inertAll nodes

end

@[simp] theorem inertAll_append (nodes more : List Node) :
    inertAll (nodes ++ more) = inertAll nodes ++ inertAll more := by
  induction nodes with
  | nil => rfl
  | cons node nodes ih => rw [List.cons_append, inertAll, inertAll, ih, List.append_assoc]

@[simp] theorem inertAll_nil : inertAll [] = [] := rfl

@[simp] theorem inertAll_singleton (node : Node) : inertAll [node] = node.inert := by
  rw [inertAll, inertAll, List.append_nil]

/-! ## Drafts -/

/-- Those in the branches that others have followed, of which the latest comes first. -/
def inertArms (arms : List Arm) : List (String × Site) :=
  arms.reverse.flatMap fun arm => inertAll arm.body

/-- Those in the branches of an open block. -/
def OpenBlock.inert (b : OpenBlock) : List (String × Site) :=
  inertArms b.earlier ++ inertAll b.body ++
    match b.otherwise with
    | none => []
    | some (_, nodes) => inertAll nodes

/-- Those of all that has been read. -/
def Draft.inert (d : Draft) : List (String × Site) :=
  inertAll d.nodes ++ d.blocks.reverse.flatMap OpenBlock.inert

@[simp] theorem inertArms_cons (arm : Arm) (arms : List Arm) :
    inertArms (arm :: arms) = inertArms arms ++ inertAll arm.body := by
  simp [inertArms]

@[simp] theorem OpenBlock.inert_add (b : OpenBlock) (node : Node) :
    (b.add node).inert = b.inert ++ node.inert := by
  obtain ⟨earlier, opening, body, otherwise⟩ := b
  cases otherwise <;> simp [add, inert]

/-- Closing a chain puts its branches inside one another and keeps their order. -/
theorem OpenBlock.inert_nest {block : Nat → Node} {inside : List (String × Site)}
    (same : ∀ span, (block span).inert = inside) (endSpan : Nat) (earlier : List Arm) :
    (nest endSpan block earlier).inert = inertArms earlier ++ inside := by
  induction earlier generalizing block inside with
  | nil => exact same endSpan
  | cons arm earlier ih =>
      have outer (span : Nat) : (Node.ifElse arm.opening arm.body 0 [block 0] span).inert =
          inertAll arm.body ++ inside := by
        rw [Node.inert, inertAll_singleton, same]
      rw [nest, ih outer, inertArms_cons, List.append_assoc]

@[simp] theorem OpenBlock.inert_close (b : OpenBlock) (endSpan : Nat) :
    (b.close endSpan).inert = b.inert := by
  have current (span : Nat) : (b.current span).inert = inertAll b.body ++
      match b.otherwise with
      | none => []
      | some (_, nodes) => inertAll nodes := by
    unfold OpenBlock.current
    cases b.otherwise <;> simp [Node.inert]
  rw [close, inert_nest current, inert, List.append_assoc]

@[simp] theorem Draft.inert_add (d : Draft) (node : Node) :
    (d.add node).inert = d.inert ++ node.inert := by
  obtain ⟨nodes, blocks⟩ := d
  cases blocks <;> simp [add, inert]

/-! ## Lines -/

/-- The directive of the line with its place, if it is one without effect. -/
def LogicalLine.inert (line : LogicalLine) : List (String × Site) :=
  match line.directive? with
  | some (.other name) => [(name, ⟨line.number, line.span⟩)]
  | _ => []

theorem LogicalLine.directive?_eq_some_iff {line : LogicalLine} {directive : Directive}
    (kind : line.isDirective = true) :
    line.directive? = some directive ↔ Directive.ofText? line.text = .ok directive := by
  rw [directive?, if_pos kind]
  cases Directive.ofText? line.text <;> simp [Except.toOption]

theorem LogicalLine.mem_inert {line : LogicalLine} {name : String} {site : Site} :
    (name, site) ∈ line.inert ↔
      line.directive? = some (.other name) ∧ site = ⟨line.number, line.span⟩ := by
  unfold inert
  split
  · rename_i found spelt
    simp [spelt, eq_comm]
  · rename_i other
    simpa using fun spelt => absurd spelt (other name)

/-- A directive without effect is added to a draft, and no other one is. -/
theorem Draft.inert_applied {d d' : Draft} {site : Site} {directive : Directive}
    (applied : Applied site d directive d') :
    d'.inert = d.inert ++
      match directive with
      | .other name => [(name, site)]
      | _ => [] := by
  cases applied with
  | opened => simp [inert, openBlock, OpenBlock.start, OpenBlock.inert, inertArms]
  | further => simp [inert, OpenBlock.inert]
  | otherwise => simp [inert, OpenBlock.inert]
  | closed =>
      rw [inert_add, OpenBlock.inert_close]
      simp [inert]
  | define => simp [Node.inert]
  | undef => simp [Node.inert]
  | other => simp [Node.inert]

theorem Draft.inert_step {d d' : Draft} {line : LogicalLine} (stepped : d.step line = .ok d') :
    d'.inert = d.inert ++ line.inert := by
  rcases Draft.step_cases stepped with ⟨directive, spelt, applied⟩ | ⟨text, rfl⟩
  · rw [inert_applied applied, LogicalLine.inert, spelt]
    cases directive <;> rfl
  · rw [LogicalLine.inert, LogicalLine.directive?_of_text text, inert_add, Node.inert]

theorem Draft.inert_foldlM {d d' : Draft} {lines : List LogicalLine}
    (drafted : lines.foldlM step d = .ok d') :
    d'.inert = d.inert ++ lines.flatMap LogicalLine.inert := by
  induction lines generalizing d with
  | nil =>
      cases drafted
      simp
  | cons line lines ih =>
      obtain ⟨next, stepped, drafted⟩ := foldlM_cons drafted
      rw [ih drafted, inert_step stepped, List.flatMap_cons, List.append_assoc]

/-- An outline has the directives without effect that its lines have, in order. -/
theorem inertAll_of_outlineOfLines? {lines : List LogicalLine} {nodes : List Node}
    (outlined : outlineOfLines? lines = .ok nodes) :
    inertAll nodes = lines.flatMap LogicalLine.inert := by
  have drafted := Draft.inert_foldlM (drafted_of_outlineOfLines? outlined)
  simpa [Draft.inert, Draft.empty] using drafted

end InterfaceHeader
