import InterfaceHeader.Proofs.Conditional.OnePass

/-!
# What a line does to a draft

Where drafting does not fail, a directive opens a block, goes on to another branch of the innermost
block, closes it, or becomes a part of the innermost branch; a line of text becomes a part, too.
`Applied` has one constructor for each of these, so that facts about drafting are proved case by
case without looking into it again.
-/

namespace InterfaceHeader

/-- What a directive does to a draft, where it fits. -/
inductive Draft.Applied (site : Site) : Draft → Directive → Draft → Prop where
  | opened {d : Draft} {opener : Opener} {condition : Condition} : opener ≠ .elseIf →
      Applied site d (.branch opener condition) (d.openBlock ⟨opener, condition, site⟩)
  | further {nodes : List Node} {earlier : List Arm} {opening : Opening} {body : List Node}
      {blocks : List OpenBlock} {condition : Condition} :
      Applied site ⟨nodes, ⟨earlier, opening, body, none⟩ :: blocks⟩ (.branch .elseIf condition)
        ⟨nodes, ⟨⟨opening, body⟩ :: earlier, ⟨.elseIf, condition, site⟩, [], none⟩ :: blocks⟩
  | otherwise {nodes : List Node} {earlier : List Arm} {opening : Opening} {body : List Node}
      {blocks : List OpenBlock} :
      Applied site ⟨nodes, ⟨earlier, opening, body, none⟩ :: blocks⟩ .otherwise
        ⟨nodes, ⟨earlier, opening, body, some (site.span, [])⟩ :: blocks⟩
  | closed {nodes : List Node} {b : OpenBlock} {blocks : List OpenBlock} :
      Applied site ⟨nodes, b :: blocks⟩ .endif (Draft.add ⟨nodes, blocks⟩ (b.close site.span))
  | define {d : Draft} {name : String} {value : Bool} :
      Applied site d (.define name value) (d.add (.define name value site))
  | undef {d : Draft} {name : String} : Applied site d (.undef name) (d.add (.undef name site))
  | other {d : Draft} {name : String} : Applied site d (.other name) (d.add (.other name site))

namespace Draft

theorem applied_of_apply {d d' : Draft} {site : Site} {directive : Directive}
    (applied : d.apply site directive = .ok d') : Applied site d directive d' := by
  obtain ⟨nodes, blocks⟩ := d
  cases directive with
  | branch opener condition =>
      by_cases further : opener = .elseIf
      · subst further
        cases blocks with
        | nil => cases applied
        | cons b blocks =>
            obtain ⟨earlier, opening, body, otherwise⟩ := b
            cases otherwise with
            | some last => cases applied
            | none =>
                cases applied
                exact .further
      · have opened : d' = openBlock ⟨nodes, blocks⟩ ⟨opener, condition, site⟩ := by
          cases opener <;> first | exact absurd rfl further | exact (Except.ok.inj applied).symm
        rw [opened]
        exact .opened further
  | otherwise =>
      cases blocks with
      | nil => cases applied
      | cons b blocks =>
          obtain ⟨earlier, opening, body, otherwise⟩ := b
          cases otherwise with
          | some last => cases applied
          | none =>
              cases applied
              exact .otherwise
  | endif =>
      cases blocks with
      | nil => cases applied
      | cons b blocks =>
          cases applied
          exact .closed
  | define name value =>
      cases applied
      exact .define
  | undef name =>
      cases applied
      exact .undef
  | other name =>
      cases applied
      exact .other

/-- A line that a draft takes in is a directive that fits, or text. -/
theorem step_cases {d d' : Draft} {line : LogicalLine} (stepped : d.step line = .ok d') :
    (∃ directive, line.directive? = some directive ∧
        Applied ⟨line.number, line.span⟩ d directive d') ∨
      (line.isDirective = false ∧ d' = d.add (.text (String.ofList line.text))) := by
  simp only [step] at stepped
  cases kind : line.isDirective with
  | false =>
      rw [kind] at stepped
      cases stepped
      exact Or.inr ⟨rfl, rfl⟩
  | true =>
      rw [kind, if_pos rfl] at stepped
      cases read : Directive.ofText? line.text with
      | error fault =>
          rw [read] at stepped
          cases stepped
      | ok directive =>
          have spelt : line.directive? = some directive := by
            rw [LogicalLine.directive?, kind, if_pos rfl, read]
            rfl
          rw [read] at stepped
          simp only [Except.bind] at stepped
          cases applied : d.apply ⟨line.number, line.span⟩ directive with
          | error fault =>
              rw [applied] at stepped
              cases stepped
          | ok next =>
              rw [applied] at stepped
              cases stepped
              exact Or.inl ⟨directive, spelt, applied_of_apply applied⟩

/-- Drafting a first line and then the others. -/
theorem foldlM_cons {d d' : Draft} {line : LogicalLine} {lines : List LogicalLine}
    (drafted : (line :: lines).foldlM step d = .ok d') :
    ∃ next, d.step line = .ok next ∧ lines.foldlM step next = .ok d' := by
  rw [List.foldlM_cons] at drafted
  cases stepped : d.step line with
  | error error =>
      rw [stepped] at drafted
      cases drafted
  | ok next =>
      rw [stepped] at drafted
      exact ⟨next, rfl, drafted⟩

end Draft

/-- Lines that have an outline can be drafted to the end, and then no block is open. -/
theorem drafted_of_outlineOfLines? {lines : List LogicalLine} {nodes : List Node}
    (outlined : outlineOfLines? lines = .ok nodes) :
    lines.foldlM Draft.step Draft.empty = .ok ⟨nodes, []⟩ := by
  simp only [outlineOfLines?] at outlined
  cases drafted : lines.foldlM Draft.step Draft.empty with
  | error error =>
      rw [drafted] at outlined
      cases outlined
  | ok d =>
      rw [drafted] at outlined
      obtain ⟨parts, blocks⟩ := d
      cases blocks with
      | cons b blocks => cases outlined
      | nil =>
          cases outlined
          rfl

end InterfaceHeader
