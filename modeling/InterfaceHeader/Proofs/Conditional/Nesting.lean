import InterfaceHeader.Proofs.Conditional.Opened
import InterfaceHeader.Proofs.Conditional.Replay

/-!
# Accepted texts are well nested

A text has an outline only if all its blocks are chains: the open blocks of a draft are those that
the drafted lines have opened, and at the end there are none. So what is said of chains is said of
every block of a text that has an outline, and its flat text shows at most one branch of each.
-/

namespace InterfaceHeader

namespace OpenBlock

/-- Behind a further branch the block has been opened by the same directive. -/
theorem first_further (b : OpenBlock) (opening : Opening) :
    first ⟨⟨b.opening, b.body⟩ :: b.earlier, opening, [], none⟩ = b.first := by
  obtain ⟨earlier, start, body, otherwise⟩ := b
  cases earlier <;> simp [first, List.getLast?_cons]

@[simp] theorem first_add (b : OpenBlock) (node : Node) : (b.add node).first = b.first := by
  obtain ⟨earlier, opening, body, otherwise⟩ := b
  cases otherwise <;> rfl

@[simp] theorem isSome_otherwise_add (b : OpenBlock) (node : Node) :
    (b.add node).otherwise.isSome = b.otherwise.isSome := by
  obtain ⟨earlier, opening, body, otherwise⟩ := b
  cases otherwise <;> rfl

end OpenBlock

namespace Draft

/-- The open blocks of a draft. -/
def opened (d : Draft) : Opened :=
  d.blocks.map fun b => (b.first, b.otherwise.isSome)

@[simp] theorem opened_add (d : Draft) (node : Node) : (d.add node).opened = d.opened := by
  obtain ⟨nodes, blocks⟩ := d
  cases blocks <;> simp [opened, add]

/-- A directive does to the open blocks of a draft what it does to open blocks. -/
theorem opened_applied {d d' : Draft} {site : Site} {directive : Directive}
    (applied : Applied site d directive d') :
    directive.opened? site d.opened = some d'.opened := by
  cases applied with
  | @opened _ opener condition notFurther =>
      cases opener <;> first | exact absurd rfl notFurther | rfl
  | @further nodes earlier opening body blocks condition =>
      have first := OpenBlock.first_further ⟨earlier, opening, body, none⟩
        ⟨.elseIf, condition, site⟩
      simp [Directive.opened?, opened, first]
  | otherwise => rfl
  | closed =>
      rw [opened_add]
      rfl
  | define => simp [Directive.opened?]
  | undef => simp [Directive.opened?]
  | other => simp [Directive.opened?]

/-- A line does to the open blocks of a draft what it does to open blocks. -/
theorem opened_step {d d' : Draft} {line : LogicalLine} (stepped : d.step line = .ok d') :
    line.opened? d.opened = some d'.opened := by
  rcases step_cases stepped with ⟨directive, spelt, applied⟩ | ⟨text, rfl⟩
  · rw [LogicalLine.opened?_of_directive? spelt]
    exact opened_applied applied
  · rw [LogicalLine.opened?, LogicalLine.directive?_of_text text, opened_add]

/-- The open blocks of a draft are those that its lines have opened. -/
theorem opened_foldlM {lines : List LogicalLine} {d d' : Draft}
    (drafted : lines.foldlM step d = .ok d') : openedAfter? d.opened lines = some d'.opened := by
  induction lines generalizing d with
  | nil =>
      cases drafted
      rfl
  | cons line lines ih =>
      obtain ⟨next, stepped, drafted⟩ := foldlM_cons drafted
      rw [openedAfter?_cons, opened_step stepped]
      exact ih drafted

end Draft

/-- Lines that have an outline are well nested. -/
theorem nested_of_outlineOfLines? {lines : List LogicalLine} {nodes : List Node}
    (outlined : outlineOfLines? lines = .ok nodes) : Nested lines := by
  have drafted := drafted_of_outlineOfLines? outlined
  exact nested_iff_openedAfter?.mpr (Draft.opened_foldlM drafted)

/-- The flat text of a header is what one pass over its logical lines shows. The lines consist of
    chains, and wherever a chain stands among them, to any depth, what is shown of it is what is
    shown of its selected branches. These are at most one, and exactly one if the chain has a last
    branch and stands in an active region. -/
theorem flatten_onePass_chains {text : List Char} {nodes : List Node}
    (outlined : outlineOf? text = .ok nodes) (config : Configuration) :
    flatten nodes config = onePass text config ∧ Nested (logicalLines (Text.lines text)) ∧
      ∀ (before : List LogicalLine) (c : Chain) (behind : List LogicalLine),
        logicalLines (Text.lines text) = before ++ c.lines ++ behind →
        c.Formed → (∀ b ∈ c.branches, Nested b.body) →
        let p := (Pass.start config.symbols).run before
        p.output false c.lines =
            ((p.selected c.branches).flatMap fun start => start.1.output false start.2.body) ∧
          (p.selected c.branches).length ≤ 1 ∧
          (c.last.isSome → p.active → (p.selected c.branches).length = 1) := by
  refine ⟨congrArg Text.unlines (flatLines_eq_output outlined config),
    nested_of_outlineOfLines? outlined, ?_⟩
  intro before c behind _ formed nested p
  have level (b : Branch) (mem : b ∈ c.branches) := (nested b mem).level
  have silent (b : Branch) (mem : b ∈ c.branches) := (nested b mem).silent
  refine ⟨c.output_eq formed silent p, c.length_selected_le formed level p, ?_⟩
  intro hasLast active
  obtain ⟨last, hasLast⟩ := Option.isSome_iff_exists.mp hasLast
  exact c.length_selected_eq formed level active hasLast

/-- A text that is one chain with a block in its second branch. -/
def nestedText : List Char :=
  "#if A\nx\n#elif B\n#ifdef C\ny\n#endif\n#else\nz\n#endif\n".toList

/-- The block in the second branch of the text. -/
def innerChain : Chain where
  first := ⟨⟨"#ifdef C".toList, 4, 1, false⟩, [⟨"y".toList, 5, 1, false⟩]⟩
  further := []
  last := none
  closing := ⟨"#endif".toList, 6, 1, false⟩

/-- The chain that the text is. -/
def outerChain : Chain where
  first := ⟨⟨"#if A".toList, 1, 1, false⟩, [⟨"x".toList, 2, 1, false⟩]⟩
  further := [⟨⟨"#elif B".toList, 3, 1, false⟩, innerChain.lines⟩]
  last := some ⟨⟨"#else".toList, 7, 1, false⟩, [⟨"z".toList, 8, 1, false⟩]⟩
  closing := ⟨"#endif".toList, 9, 1, false⟩

theorem innerChain_nested : Nested innerChain.lines := by
  have formed : innerChain.Formed := by
    refine ⟨⟨.ifDefined, .defined "C", by decide +kernel, by decide⟩, ?_, ?_, by decide +kernel⟩
    · exact nofun
    · exact nofun
  have body : Nested [⟨"y".toList, 5, 1, false⟩] :=
    .plain (LogicalLine.plain_of_none (by decide +kernel)) .nil
  have bodies : ∀ b ∈ innerChain.branches, Nested b.body := by
    intro b mem
    cases List.mem_singleton.mp mem
    exact body
  have chain := Nested.block formed bodies .nil
  rwa [List.append_nil] at chain

theorem outerChain_formed : outerChain.Formed := by
  refine ⟨⟨.ifCondition, .symbol "A", by decide +kernel, by decide⟩, ?_, ?_, by decide +kernel⟩
  · intro b mem
    cases List.mem_singleton.mp mem
    exact ⟨.symbol "B", by decide +kernel⟩
  · intro b mem
    cases mem
    decide +kernel

theorem outerChain_bodies : ∀ b ∈ outerChain.branches, Nested b.body := by
  have text (line : LogicalLine) (silent : line.directive? = none) : Nested [line] :=
    .plain (LogicalLine.plain_of_none silent) .nil
  intro b mem
  rcases List.mem_cons.mp mem with rfl | mem
  · exact text _ (by decide +kernel)
  rcases List.mem_cons.mp mem with rfl | mem
  · exact innerChain_nested
  cases List.mem_singleton.mp mem
  exact text _ (by decide +kernel)

/-- With `B` and `C` defined, exactly one branch of the text is shown. -/
theorem nestedText_selected :
    ∃ nodes, outlineOf? nestedText = .ok nodes ∧
      flatten nodes ⟨.ofFlags ["B", "C"], false⟩ =
        onePass nestedText ⟨.ofFlags ["B", "C"], false⟩ ∧
      outerChain.Formed ∧ (∀ b ∈ outerChain.branches, Nested b.body) ∧
      ((Pass.start (.ofFlags ["B", "C"])).selected outerChain.branches).length = 1 := by
  have accepted : (outlineOf? nestedText).isOk = true := by decide +kernel
  have whole : logicalLines (Text.lines nestedText) = [] ++ outerChain.lines ++ [] := by
    decide +kernel
  cases outlined : outlineOf? nestedText with
  | error error =>
      rw [outlined] at accepted
      cases accepted
  | ok nodes =>
      obtain ⟨flat, _, chains⟩ := flatten_onePass_chains outlined ⟨.ofFlags ["B", "C"], false⟩
      obtain ⟨_, _, one⟩ := chains [] outerChain [] whole outerChain_formed outerChain_bodies
      exact ⟨nodes, rfl, flat, outerChain_formed, outerChain_bodies, one rfl rfl⟩

end InterfaceHeader
