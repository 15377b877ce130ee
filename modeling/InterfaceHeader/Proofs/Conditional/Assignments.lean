import InterfaceHeader.Proofs.Conditional.Definitions
import Mathlib.Data.List.Forall2

/-!
# Assignments in front of a text

Lines that each define or undefine a symbol, and do nothing else, leave nothing in the flat text. A
text behind them is preprocessed as it is alone with the symbols that they assign
(`preprocess_assignments`).
-/

namespace InterfaceHeader

/-- A line that stands for itself and makes something of a symbol. -/
structure Assigns (line : List Char) (assignment : String × Option Bool) : Prop where
  whole : Whole line
  starts : startsDirective line = true
  spelt : ∃ directive, Directive.ofText? line = .ok directive ∧
    directive.assignment? = some assignment

theorem Directive.isOfBlock_of_assignment? {directive : Directive}
    {assignment : String × Option Bool} (assigns : directive.assignment? = some assignment) :
    directive.isOfBlock = false := by
  cases directive with
  | define name value => rfl
  | undef name => rfl
  | branch opener condition => cases assigns
  | otherwise => cases assigns
  | endif => cases assigns
  | other name => cases assigns

theorem Pass.apply_assignment {directive : Directive} {assignment : String × Option Bool}
    (assigns : directive.assignment? = some assignment) (symbols : SymbolTable) :
    (Pass.start symbols).apply directive =
      .start (symbols.assign assignment.1 assignment.2) := by
  cases directive with
  | define name value =>
      cases assigns
      rfl
  | undef name =>
      cases assigns
      rfl
  | branch opener condition => cases assigns
  | otherwise => cases assigns
  | endif => cases assigns
  | other name => cases assigns

namespace Assigns

variable {line : List Char} {assignment : String × Option Bool}
  {physical : List (List Char)} {assignments : List (String × Option Bool)}

theorem directive? (assigns : Assigns line assignment) (number : Nat) :
    ∃ directive, (LogicalLine.single number line).directive? = some directive ∧
      directive.assignment? = some assignment := by
  obtain ⟨directive, read, assigned⟩ := assigns.spelt
  exact ⟨directive, directive?_of_ofText? assigns.starts read, assigned⟩

/-! ## Lines that assign -/

theorem nested (assigned : List.Forall₂ Assigns physical assignments) (number : Nat) :
    Nested (logicalFrom number false 0 physical) := by
  induction assigned generalizing number with
  | nil => exact .nil
  | cons assigns _ ih =>
      rw [logicalFrom_whole assigns.whole]
      obtain ⟨directive, spelt, assigned⟩ := assigns.directive? number
      refine .plain ?_ (ih (number + 1))
      rw [LogicalLine.Plain, spelt]
      rintro _ ⟨⟩
      exact directive.isOfBlock_of_assignment? assigned

theorem readable (assigned : List.Forall₂ Assigns physical assignments) (number : Nat) :
    ∀ line ∈ logicalFrom number false 0 physical, line.Readable := by
  induction assigned generalizing number with
  | nil => exact nofun
  | cons assigns _ ih =>
      rw [logicalFrom_whole assigns.whole]
      obtain ⟨directive, read, -⟩ := assigns.spelt
      intro line mem
      rcases List.mem_cons.mp mem with rfl | mem
      · exact readable_of_ofText? read
      · exact ih (number + 1) line mem

theorem commentBehind (assigned : List.Forall₂ Assigns physical assignments) (number : Nat) :
    commentBehind false (logicalFrom number false 0 physical) = false := by
  induction assigned generalizing number with
  | nil => rfl
  | @cons line _ _ _ assigns _ ih =>
      rw [logicalFrom_whole assigns.whole]
      show InterfaceHeader.commentBehind (endsInComment false line) _ = false
      rw [assigns.whole.closed]
      exact ih (number + 1)

theorem complete (assigned : List.Forall₂ Assigns physical assignments)
    (lines : List LogicalLine) : Complete lines physical := by
  intro _ _ _ line last
  have mem : line ∈ physical := List.mem_of_getLast? last
  clear last
  induction assigned with
  | nil => cases mem
  | cons assigns _ ih =>
      rcases List.mem_cons.mp mem with rfl | mem
      · exact assigns.whole.ended
      · exact ih mem

/-- One pass makes the assignments and shows nothing. -/
theorem run (assigned : List.Forall₂ Assigns physical assignments) (number : Nat)
    (symbols : SymbolTable) :
    (Pass.start symbols).assignments (logicalFrom number false 0 physical) = assignments ∧
      (Pass.start symbols).output false (logicalFrom number false 0 physical) = [] := by
  induction assigned generalizing number symbols with
  | nil => exact ⟨rfl, rfl⟩
  | cons assigns _ ih =>
      rw [logicalFrom_whole assigns.whole]
      obtain ⟨directive, spelt, assigned⟩ := assigns.directive? number
      obtain ⟨made, shown⟩ := ih (number + 1) (symbols.assign _ _)
      have after := Pass.after_of_directive? (.start symbols) spelt
      rw [Pass.apply_assignment assigned] at after
      constructor
      · rw [Pass.assignments, after, spelt, Option.bind_some, assigned]
        exact congrArg _ made
      · rw [Pass.output_cons, shown_single spelt, after, shown]
        rfl

end Assigns

/-- A text behind lines that assign is preprocessed as it is alone with the symbols that they leave,
and its fault is reported as many lines further on. -/
theorem preprocess_assignments {ls : List String} {assignments : List (String × Option Bool)}
    (single : ∀ line ∈ ls, '\n' ∉ line.toList)
    (assigned : List.Forall₂ Assigns (ls.map fun line => Text.dropReturn line.toList) assignments)
    (text : String) (symbols : SymbolTable) :
    preprocess (Text.unlines ls ++ text) ⟨symbols, false⟩ =
      (preprocess text ⟨symbols.assignAll assignments, false⟩).mapError (·.shift ls.length) := by
  have physical := Text.lines_unlines_dropReturn single
  obtain ⟨nodes, outlined⟩ :=
    outlineOfLines?_of_nested (Assigns.readable assigned 1) (Assigns.nested assigned 1)
  have outlined : outlineOf? (Text.unlines ls).toList = .ok nodes := by
    rw [outlineOf?, physical]
    exact outlined
  obtain ⟨made, shown⟩ := Assigns.run assigned 1 symbols
  obtain ⟨flat, alone, behind⟩ := preprocess_append (endsLine_unlines ls) outlined
    (by rw [physical]; exact Assigns.commentBehind assigned 1)
    (by rw [physical]; exact Assigns.complete assigned _) text ⟨symbols, false⟩
  have empty : flat = "" := by
    rw [preprocess_eq_ok outlined, physical] at alone
    have shown : (Pass.start symbols).output false (logicalLines _) = [] := shown
    rw [shown] at alone
    exact (Except.ok.inj alone).symm
  have left : symbolsBehind (Text.unlines ls).toList symbols = symbols.assignAll assignments := by
    rw [symbolsBehind, physical]
    exact congrArg _ made
  rw [behind, left, empty, physical, List.length_map]
  cases preprocess text ⟨symbols.assignAll assignments, false⟩ with
  | ok more => exact congrArg Except.ok String.empty_append
  | error e => rfl

end InterfaceHeader
