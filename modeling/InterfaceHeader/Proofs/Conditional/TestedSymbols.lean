import InterfaceHeader.Proofs.Conditional.Composition

/-!
# The symbols that matter

A text sees a symbol table through the tests it makes: a name below `defined` is asked for its
definition, a bare name for its truth, and no other name is looked at. Two tables that answer these
questions alike go on to do so behind every line, since a definition in an active region makes them
equal at its name and leaves the other names alone. So the two passes take the same branches
throughout, although their tables need not become equal anywhere.
-/

namespace InterfaceHeader

/-- The tables agree on which of the asked names are defined, and on the truth of the tested
    names. -/
structure SymbolTable.AgreeOn (asked tested : List String) (s s' : SymbolTable) : Prop where
  isDefined : ∀ name ∈ asked, s.isDefined name = s'.isDefined name
  holds : ∀ name ∈ tested, s.holds name = s'.holds name

instance (asked tested : List String) (s s' : SymbolTable) :
    Decidable (s.AgreeOn asked tested s') :=
  decidable_of_iff ((∀ name ∈ asked, s.isDefined name = s'.isDefined name) ∧
      ∀ name ∈ tested, s.holds name = s'.holds name)
    ⟨fun both => ⟨both.1, both.2⟩, fun agree => ⟨agree.isDefined, agree.holds⟩⟩

/-- The condition of a directive that starts a branch. -/
def Directive.condition : Directive → Option Condition
  | .branch _ condition => some condition
  | _ => none

/-- The conditions of the directives among lines, whether the lines are in an active region or
    not. -/
def conditionsOf (lines : List LogicalLine) : List Condition :=
  lines.filterMap fun line => line.directive?.bind Directive.condition

/-- The names that a text asks for the definition of. -/
def askedNames (text : List Char) : List String :=
  (conditionsOf (logicalLines (Text.lines text))).flatMap Condition.definedNames

/-- The names that a text asks for the truth of. -/
def testedNames (text : List Char) : List String :=
  (conditionsOf (logicalLines (Text.lines text))).flatMap Condition.symbolNames

namespace SymbolTable.AgreeOn

variable {asked tested : List String} {s s' : SymbolTable}

/-- A condition about these names has the same truth for both tables. -/
theorem eval_eq (agree : s.AgreeOn asked tested s') {condition : Condition}
    (defined : condition.definedNames ⊆ asked) (symbols : condition.symbolNames ⊆ tested) :
    condition.eval s = condition.eval s' := by
  induction condition with
  | symbol name => exact agree.holds name (symbols List.mem_cons_self)
  | constant value => rfl
  | not operand ih => exact congrArg Bool.not (ih defined symbols)
  | or left right ihLeft ihRight =>
      rw [Condition.eval, Condition.eval,
        ihLeft (List.append_subset.mp defined).1 (List.append_subset.mp symbols).1,
        ihRight (List.append_subset.mp defined).2 (List.append_subset.mp symbols).2]
  | and left right ihLeft ihRight =>
      rw [Condition.eval, Condition.eval,
        ihLeft (List.append_subset.mp defined).1 (List.append_subset.mp symbols).1,
        ihRight (List.append_subset.mp defined).2 (List.append_subset.mp symbols).2]
  | defined name => exact agree.isDefined name (defined List.mem_cons_self)

/-- The same assignment keeps an agreement: it makes the tables equal at its name. -/
theorem assign (agree : s.AgreeOn asked tested s') (name : String) (value : Option Bool) :
    (s.assign name value).AgreeOn asked tested (s'.assign name value) := by
  constructor
  · intro other mem
    have before := agree.isDefined other mem
    unfold SymbolTable.isDefined at before ⊢
    rw [value?_assign, value?_assign]
    split
    · rfl
    · exact before
  · intro other mem
    have before := agree.holds other mem
    unfold SymbolTable.holds at before ⊢
    rw [value?_assign, value?_assign]
    split
    · rfl
    · exact before

end SymbolTable.AgreeOn

/-- The passes have the same blocks open, in the same state, and their tables agree. -/
structure Pass.AgreeOn (asked tested : List String) (p p' : Pass) : Prop where
  frames : p.frames = p'.frames
  symbols : p.symbols.AgreeOn asked tested p'.symbols

namespace Pass.AgreeOn

variable {asked tested : List String} {p p' : Pass}

theorem active_eq (agree : Pass.AgreeOn asked tested p p') : p.active = p'.active := by
  rw [active, active, agree.frames]

theorem enter (agree : Pass.AgreeOn asked tested p p') {holds holds' : Bool}
    (same : holds = holds') : Pass.AgreeOn asked tested (p.enter holds) (p'.enter holds') := by
  refine ⟨?_, agree.symbols⟩
  rw [Pass.enter, Pass.enter, agree.active_eq, agree.frames, same]

theorem further (agree : Pass.AgreeOn asked tested p p') {holds holds' : Bool}
    (same : holds = holds') : Pass.AgreeOn asked tested (p.further holds) (p'.further holds') := by
  obtain ⟨frames, symbols⟩ := p
  obtain ⟨frames', symbols'⟩ := p'
  obtain ⟨rfl, agree⟩ := agree
  subst same
  cases frames with
  | nil => exact ⟨rfl, agree⟩
  | cons f outer => exact ⟨rfl, agree⟩

/-- In an active region both tables change in the same way, elsewhere neither does. -/
theorem assign (agree : Pass.AgreeOn asked tested p p') (name : String) (value : Option Bool) :
    Pass.AgreeOn asked tested
      { p with symbols := if p.active then p.symbols.assign name value else p.symbols }
      { p' with symbols := if p'.active then p'.symbols.assign name value else p'.symbols } := by
  refine ⟨agree.frames, ?_⟩
  rw [agree.active_eq]
  dsimp only
  split
  · exact agree.symbols.assign name value
  · exact agree.symbols

/-- A directive whose condition is about these names keeps an agreement. -/
theorem apply (agree : Pass.AgreeOn asked tested p p') {directive : Directive}
    (known : ∀ condition ∈ directive.condition,
      condition.definedNames ⊆ asked ∧ condition.symbolNames ⊆ tested) :
    Pass.AgreeOn asked tested (p.apply directive) (p'.apply directive) := by
  cases directive with
  | branch opener condition =>
      obtain ⟨defined, symbols⟩ := known condition rfl
      have same := agree.symbols.eval_eq defined symbols
      cases opener with
      | elseIf => exact agree.further same
      | ifCondition | ifDefined | ifNotDefined => exact agree.enter same
  | otherwise => exact agree.further rfl
  | endif => exact ⟨congrArg List.tail agree.frames, agree.symbols⟩
  | define name value => exact agree.assign name (some value)
  | undef name => exact agree.assign name none
  | other name => exact agree

/-- One step: a line whose condition is about these names keeps an agreement. -/
theorem after (agree : Pass.AgreeOn asked tested p p') {line : LogicalLine}
    (known : ∀ condition ∈ conditionsOf [line],
      condition.definedNames ⊆ asked ∧ condition.symbolNames ⊆ tested) :
    Pass.AgreeOn asked tested (p.after line) (p'.after line) := by
  cases spelt : line.directive? with
  | none =>
      rw [Pass.after_of_none p spelt, Pass.after_of_none p' spelt]
      exact agree
  | some directive =>
      rw [Pass.after_of_directive? p spelt, Pass.after_of_directive? p' spelt]
      refine agree.apply fun condition mem => known condition ?_
      refine List.mem_filterMap.mpr ⟨line, List.mem_singleton_self line, ?_⟩
      rw [spelt]
      exact mem

/-- A whole run: passes that agree show the same lines. -/
theorem output_eq (preserveLines : Bool) (lines : List LogicalLine)
    (agree : Pass.AgreeOn asked tested p p')
    (known : ∀ condition ∈ conditionsOf lines,
      condition.definedNames ⊆ asked ∧ condition.symbolNames ⊆ tested) :
    p.output preserveLines lines = p'.output preserveLines lines := by
  induction lines generalizing p p' with
  | nil => rfl
  | cons line lines ih =>
      have whole : conditionsOf (line :: lines) = conditionsOf [line] ++ conditionsOf lines :=
        List.filterMap_append (l := [line])
      rw [whole] at known
      have shown : p.shown preserveLines line = p'.shown preserveLines line := by
        rw [Pass.shown, Pass.shown, agree.active_eq]
      have next := agree.after fun condition mem => known condition (List.mem_append_left _ mem)
      have later := ih next fun condition mem => known condition (List.mem_append_right _ mem)
      rw [Pass.output_cons, Pass.output_cons, shown, later]

end Pass.AgreeOn

/-- Configurations that treat dropped lines alike, and whose tables agree on the definition of the
    names that a text asks for and on the truth of those that it tests, give the text the same
    result. -/
theorem preprocess_eq_of_agreeOn {text : String} {config config' : Configuration}
    (lines : config.preserveLines = config'.preserveLines)
    (agree : config.symbols.AgreeOn (askedNames text.toList) (testedNames text.toList)
      config'.symbols) :
    preprocess text config = preprocess text config' := by
  cases outlined : outlineOf? text.toList with
  | error error =>
      rw [preprocess, preprocess, outlined]
      rfl
  | ok nodes =>
      have start : Pass.AgreeOn (askedNames text.toList) (testedNames text.toList)
          (.start config.symbols) (.start config'.symbols) := ⟨rfl, agree⟩
      have same := start.output_eq config.preserveLines
        (logicalLines (Text.lines text.toList)) fun condition mem =>
          ⟨fun name found => List.mem_flatMap.mpr ⟨condition, mem, found⟩,
            fun name found => List.mem_flatMap.mpr ⟨condition, mem, found⟩⟩
      rw [preprocess_eq_ok outlined, preprocess_eq_ok outlined, same, lines]

/-- A text that changes a symbol in one of two branches, and tests it below. -/
def testingText : String :=
  "#if FAST\n#undef SAFE\n#else\n#define SAFE 1\n#endif\n#if SAFE && defined(HOST)\nx\n#endif\n"

/-- `FAST` may be undefined or false, and `HOST` false or true: the tables differ at both names in
    front of the text and behind it, and the flat text is the same. -/
theorem testingText_preprocess :
    preprocess testingText ⟨⟨[("HOST", true)]⟩, false⟩ = .ok "x\n" ∧
      preprocess testingText ⟨⟨[("HOST", false), ("FAST", false)]⟩, false⟩ = .ok "x\n" ∧
      (∀ name ∈ ["FAST", "HOST"],
        (symbolsBehind testingText.toList ⟨[("HOST", true)]⟩).value? name ≠
          (symbolsBehind testingText.toList ⟨[("HOST", false), ("FAST", false)]⟩).value? name) := by
  have agree : SymbolTable.AgreeOn (askedNames testingText.toList) (testedNames testingText.toList)
      ⟨[("HOST", true)]⟩ ⟨[("HOST", false), ("FAST", false)]⟩ := by decide +kernel
  have same : preprocess testingText ⟨⟨[("HOST", true)]⟩, false⟩ =
      preprocess testingText ⟨⟨[("HOST", false), ("FAST", false)]⟩, false⟩ :=
    preprocess_eq_of_agreeOn rfl agree
  have flat : preprocess testingText ⟨⟨[("HOST", true)]⟩, false⟩ = .ok "x\n" := by decide +kernel
  refine ⟨flat, ?_, by decide +kernel⟩
  rw [← same]
  exact flat

end InterfaceHeader
