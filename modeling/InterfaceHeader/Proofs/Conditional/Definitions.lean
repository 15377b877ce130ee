import InterfaceHeader.Proofs.Conditional.Composition
import InterfaceHeader.Proofs.Conditional.DirectiveLines

/-!
# Constants that are defined and constants that are tested

A block with two branches can test a constant where it stands, or a symbol that a definition in
front of the block gives the constant to. Both are followed here from the text to the lines shown:
the block shows one of its branches, by the truth of the constant or by the value of the symbol, and
these are the same for all constants that are true and for those that are written with digits only
(`constant_selects`). All others are zeros that a definition takes for something else.
-/

namespace InterfaceHeader

/-! ## A block with two branches -/

/-- The lines of a block with one line of text in each of its two branches, with their numbers from
    a given one. -/
def blockLines (number : Nat) (opening yes no : List Char) : List LogicalLine :=
  [.single number opening, .single (number + 1) yes, .single (number + 2) "#else".toList,
    .single (number + 3) no, .single (number + 4) "#endif".toList]

/-- What is shown of such a block in an active region. -/
def shownOfBlock (preserveLines taken : Bool) (yes no : String) : List String :=
  blankLines preserveLines 1 ++ (if taken then [yes] else blankLines preserveLines 1) ++
    blankLines preserveLines 1 ++ (if taken then blankLines preserveLines 1 else [no]) ++
    blankLines preserveLines 1

theorem directive?_else (number : Nat) :
    (LogicalLine.single number "#else".toList).directive? = some .otherwise :=
  directive?_of_ofText? rfl rfl

theorem directive?_endif (number : Nat) :
    (LogicalLine.single number "#endif".toList).directive? = some .endif :=
  directive?_of_ofText? rfl rfl

/-- A directive on a line of its own leaves the place of that line. -/
theorem shown_single {number : Nat} {line : List Char} {directive : Directive}
    (spelt : (LogicalLine.single number line).directive? = some directive) (preserveLines : Bool)
    (p : Pass) : p.shown preserveLines (.single number line) = blankLines preserveLines 1 := by
  rw [Pass.shown, LogicalLine.isDirective_of_directive? spelt]
  rfl

theorem logicalFrom_block {opening : List Char} {yes no : String} (whole : Whole opening)
    (plainYes : PlainLine yes) (plainNo : PlainLine no) (number : Nat) :
    logicalFrom number false 0
        [opening, yes.toList, "#else".toList, no.toList, "#endif".toList] =
      blockLines number opening yes.toList no.toList := by
  rw [logicalFrom_whole whole, logicalFrom_plain plainYes, logicalFrom_whole ⟨rfl, rfl⟩,
    logicalFrom_plain plainNo, logicalFrom_whole ⟨rfl, rfl⟩]
  rfl

section Block

variable {number : Nat} {opening : List Char} {yes no : String} {condition : Condition}
  (opens : (LogicalLine.single number opening).directive? =
    some (.branch .ifCondition condition))
  (plainYes : PlainLine yes) (plainNo : PlainLine no)
include opens plainYes plainNo

theorem nested_block : Nested (blockLines number opening yes.toList no.toList) := by
  have formed : Chain.Formed ⟨⟨.single number opening, [.single (number + 1) yes.toList]⟩, [],
      some ⟨.single (number + 2) "#else".toList, [.single (number + 3) no.toList]⟩,
      .single (number + 4) "#endif".toList⟩ :=
    ⟨⟨_, _, opens, nofun⟩, nofun, fun b mem => by cases mem; exact directive?_else _,
      directive?_endif _⟩
  have whole := Nested.block formed ?_ .nil
  · rwa [List.append_nil] at whole
  intro b mem
  simp only [Chain.branches, Chain.others, Option.toList_some, List.nil_append, List.mem_cons,
    List.not_mem_nil, or_false] at mem
  rcases mem with rfl | rfl
  · exact nested_of_text (by simpa using isDirective_plain plainYes _)
  · exact nested_of_text (by simpa using isDirective_plain plainNo _)

/-- The block shows its first branch if the condition holds, and else its last one. -/
theorem output_block (preserveLines : Bool) {p : Pass} (active : p.active = true) :
    p.output preserveLines (blockLines number opening yes.toList no.toList) =
      shownOfBlock preserveLines (condition.eval p.symbols) yes no := by
  have text {p : Pass} {number : Nat} {line : String} (plain : PlainLine line) :
      p.shown preserveLines (.single number line.toList) =
        if p.active then [line] else blankLines preserveLines 1 := by
    rw [Pass.shown, isDirective_plain plain]
    simp [LogicalLine.single]
  have after {p : Pass} {number : Nat} {line : String} (plain : PlainLine line) :
      p.after (.single number line.toList) = p :=
    Pass.after_of_none p (LogicalLine.directive?_of_text (isDirective_plain plain number))
  have first (holds : Bool) : (p.enter holds).active = holds := by
    show (p.active && holds) = holds
    rw [active, Bool.true_and]
  have last (holds : Bool) : ((p.enter holds).further true).active = !holds := by
    show (p.active && !(p.active && holds) && true) = !holds
    rw [active]
    cases holds <;> rfl
  have entered : p.after (.single number opening) = p.enter (condition.eval p.symbols) :=
    Pass.after_of_directive? p opens
  have further (p : Pass) (number : Nat) :
      p.after (.single number "#else".toList) = p.further true :=
    Pass.after_of_directive? p (directive?_else number)
  simp only [blockLines, Pass.output_cons, Pass.output_nil, entered, further, after plainYes,
    after plainNo, shown_single opens, shown_single (directive?_else _),
    shown_single (directive?_endif _), text plainYes, text plainNo, first, last, shownOfBlock,
    List.append_nil]
  cases condition.eval p.symbols <;> simp

end Block

theorem SymbolTable.holds_define (t : SymbolTable) (name : String) (value : Bool) :
    (t.define name value).holds name = value := by
  rw [holds, value?_define, if_pos rfl]
  cases value <;> rfl

/-- Behind a definition a block that tests the symbol shows the branch that its value selects. -/
theorem output_definition {number : Nat} {line opening : List Char} {name yes no : String}
    {value : Bool} (defines : (LogicalLine.single number line).directive? =
      some (.define name value))
    (opens : (LogicalLine.single (number + 1) opening).directive? =
      some (.branch .ifCondition (.symbol name)))
    (plainYes : PlainLine yes) (plainNo : PlainLine no) (config : Configuration) :
    (Pass.start config.symbols).output config.preserveLines
        (.single number line :: blockLines (number + 1) opening yes.toList no.toList) =
      blankLines config.preserveLines 1 ++ shownOfBlock config.preserveLines value yes no := by
  have defined : (Pass.start config.symbols).after (.single number line) =
      .start (config.symbols.define name value) := Pass.after_of_directive? _ defines
  have holds : (Condition.symbol name).eval (Pass.start
      (config.symbols.define name value)).symbols = value :=
    config.symbols.holds_define name value
  rw [Pass.output_cons, shown_single defines, defined,
    output_block opens plainYes plainNo config.preserveLines rfl, holds]

/-! ## From the text to the lines shown -/

/-- What a text with well-nested lines, in which every directive can be read, is flattened to. -/
theorem preprocess_of_nested {ls : List String} (single : ∀ line ∈ ls, '\n' ∉ line.toList)
    {lines : List LogicalLine}
    (cut : logicalLines (ls.map fun line => Text.dropReturn line.toList) = lines)
    (readable : ∀ line ∈ lines, line.Readable) (nested : Nested lines) (config : Configuration) :
    preprocess (Text.unlines ls) config = .ok (Text.unlines
      ((Pass.start config.symbols).output config.preserveLines lines)) := by
  have physical := Text.lines_unlines_dropReturn single
  have outlined : ∃ nodes, outlineOf? (Text.unlines ls).toList = .ok nodes := by
    rw [outlineOf?, physical, cut]
    exact outlineOfLines?_of_nested readable nested
  obtain ⟨nodes, outlined⟩ := outlined
  rw [preprocess_eq_ok outlined, physical, cut]

theorem readable_of_ofText? {line : LogicalLine} {directive : Directive}
    (read : Directive.ofText? line.text = .ok directive) : line.Readable := by
  cases kind : line.isDirective with
  | false => exact LogicalLine.readable_of_text kind
  | true =>
      intro fault violates
      rw [violates_iff kind, read] at violates
      cases violates

theorem readable_block {number : Nat} {opening : List Char} {yes no : String}
    {directive : Directive} (opens : Directive.ofText? opening = .ok directive)
    (plainYes : PlainLine yes) (plainNo : PlainLine no) :
    ∀ line ∈ blockLines number opening yes.toList no.toList, line.Readable := by
  intro line mem
  simp only [blockLines, List.mem_cons, List.not_mem_nil, or_false] at mem
  have otherwise : Directive.ofText? "#else".toList = .ok .otherwise := rfl
  have closes : Directive.ofText? "#endif".toList = .ok .endif := rfl
  rcases mem with rfl | rfl | rfl | rfl | rfl
  · exact readable_of_ofText? opens
  · exact LogicalLine.readable_of_text (isDirective_plain plainYes _)
  · exact readable_of_ofText? otherwise
  · exact LogicalLine.readable_of_text (isDirective_plain plainNo _)
  · exact readable_of_ofText? closes

/-- A block that tests a condition. -/
def testedText (condition yes no : String) : String :=
  Text.unlines ["#if " ++ condition, yes, "#else", no, "#endif"]

/-- A definition, and a block that tests its symbol. -/
def definedText (name value yes no : String) : String :=
  Text.unlines ["#define " ++ name ++ " " ++ value, "#if " ++ name, yes, "#else", no, "#endif"]

/-- The line that tests a condition, as it is read from a text. -/
structure Tests (opening : List Char) (condition : Condition) : Prop where
  whole : Whole opening
  directive : startsDirective opening = true
  read : Directive.ofText? opening = .ok (.branch .ifCondition condition)

theorem Tests.directive? {opening : List Char} {condition : Condition}
    (tests : Tests opening condition) (number : Nat) :
    (LogicalLine.single number opening).directive? =
      some (.branch .ifCondition condition) :=
  directive?_of_ofText? tests.directive tests.read

/-- The physical lines of a block that tests a condition. -/
theorem exists_tests {text : String} {condition : Condition} {yes no : String}
    (unmarked : Unmarked text.toList) (read : Condition.ofText? text.toList = .ok condition)
    (plainYes : PlainLine yes) (plainNo : PlainLine no) :
    ∃ opening, Tests opening condition ∧
      (["#if " ++ text, yes, "#else", no, "#endif"].map fun line => Text.dropReturn line.toList) =
        [opening, yes.toList, "#else".toList, no.toList, "#endif".toList] := by
  have some : text.toList ≠ [] := by
    intro empty
    rw [empty] at read
    cases read
  have line : Text.dropReturn ("#if " ++ text).toList =
      directiveLine "if" (Text.dropReturn text.toList) := by
    rw [String.toList_append, Text.dropReturn_append _ some]
    rfl
  rw [← Condition.ofText?_trim, ← Text.trim_dropReturn, Condition.ofText?_trim] at read
  have plain : NoComment (Text.dropReturn text.toList) := .of_not_mem unmarked.dropReturn.noSlash
  refine ⟨_, ⟨(unmarked.dropReturn.directiveLine (by decide)).whole,
    startsDirective_directiveLine "if" _, ofText?_if plain read⟩, ?_⟩
  simp only [List.map_cons, List.map_nil, line, Text.dropReturn_eq_self plainYes.noReturn,
    Text.dropReturn_eq_self plainNo.noReturn]
  rfl

/-- The line of a definition, as it is read from a text: a carriage return at the end belongs to the
line end. -/
theorem exists_defines {name value : String} (isName : Text.isIdentifier name.toList = true)
    (plain : NoComment value.toList)
    (ended : isContinued (Text.dropReturn value.toList) = false) :
    ∃ line, Text.dropReturn ("#define " ++ name ++ " " ++ value).toList = line ∧ Whole line ∧
      startsDirective line = true ∧ Directive.ofText? line =
        .ok (.define name (Directive.valueOfRest value.toList)) := by
  obtain ⟨behind, whole⟩ := Text.dropReturn_prefix value.toList
  have kept : NoComment (Text.dropReturn value.toList) := plain.of_starts ⟨behind, whole.symm⟩
  have dropped : Text.dropReturn ("#define " ++ name ++ " " ++ value).toList =
      directiveLine "define" (name.toList ++ ' ' :: Text.dropReturn value.toList) := by
    have front : ("#define " ++ name ++ " " ++ value).toList =
        ("#define".toList ++ ' ' :: name.toList) ++ ' ' :: value.toList := by
      simp [String.toList_append]
    rw [front, Text.dropReturn_append _ (List.cons_ne_nil _ _), Text.dropReturn_space]
    simp [directiveLine]
  have same : Directive.valueOfRest value.toList =
      Directive.valueOfRest (' ' :: Text.dropReturn value.toList) := by
    rw [Directive.valueOfRest_space, Directive.valueOfRest_eq, Directive.valueOfRest_eq,
      Text.trim_dropReturn]
  have noWord : NoWord (' ' :: Text.dropReturn value.toList) :=
    (by decide : Text.isWordChar ' ' = false)
  have spaced : NoComment (' ' :: Text.dropReturn value.toList) :=
    kept.append (by decide : '/' ∉ [' '])
  have slash := not_mem_of_isIdentifier isName (by decide : Text.isWordChar '/' = false)
  have split : directiveLine "define" (name.toList ++ ' ' :: Text.dropReturn value.toList) =
      ('#' :: "define".toList ++ ' ' :: name.toList) ++ ' ' :: Text.dropReturn value.toList := by
    simp [directiveLine]
  refine ⟨_, dropped, ⟨?_, ?_⟩, startsDirective_directiveLine "define" _, ?_⟩
  · rw [split, isContinued_join, ended]
  · rw [split]
    exact (spaced.append (by simp [slash])).endsInComment
  · rw [same]
    exact ofText?_define isName noWord spaced

/-- A name by itself is the condition that its symbol is true. -/
theorem ofText?_symbol {name : String} (isName : Text.isIdentifier name.toList = true)
    (noQuestion : name ≠ "defined") : Condition.ofText? name.toList = .ok (.symbol name) := by
  have alone : SpacedOut [.plain name] ([] ++ (Word.plain name).text.toList ++ []) :=
    .cons rfl nofun (.nil rfl)
  rw [List.append_nil] at alone
  exact Condition.ofText?_of_writes ⟨isName, noQuestion⟩ .symbol alone

section Selection

variable {yes no : String} (plainYes : PlainLine yes) (plainNo : PlainLine no)
  (config : Configuration)
include plainYes plainNo

/-- A block shows the branch that its condition selects. -/
theorem preprocess_testedText {text : String} {condition : Condition}
    (inLine : '\n' ∉ text.toList) (unmarked : Unmarked text.toList)
    (read : Condition.ofText? text.toList = .ok condition) :
    preprocess (testedText text yes no) config = .ok (Text.unlines
      (shownOfBlock config.preserveLines (condition.eval config.symbols) yes no)) := by
  obtain ⟨opening, tests, physical⟩ := exists_tests unmarked read plainYes plainNo
  have cut : logicalLines (["#if " ++ text, yes, "#else", no, "#endif"].map
      fun line => Text.dropReturn line.toList) = blockLines 1 opening yes.toList no.toList := by
    rw [physical]
    exact logicalFrom_block tests.whole plainYes plainNo 1
  have single : ∀ line ∈ ["#if " ++ text, yes, "#else", no, "#endif"], '\n' ∉ line.toList := by
    simpa [String.toList_append, inLine] using ⟨plainYes.inLine, plainNo.inLine⟩
  rw [testedText, preprocess_of_nested single cut (readable_block tests.read plainYes plainNo)
    (nested_block (tests.directive? 1) plainYes plainNo),
    output_block (tests.directive? 1) plainYes plainNo config.preserveLines rfl]
  rfl

/-- A block behind a definition shows the branch that the value of the symbol selects. -/
theorem preprocess_definedText {name value : String}
    (isName : Text.isIdentifier name.toList = true) (noQuestion : name ≠ "defined")
    (inLine : '\n' ∉ value.toList) (unmarked : Unmarked value.toList) :
    preprocess (definedText name value yes no) config = .ok (Text.unlines
      (blankLines config.preserveLines 1 ++
        shownOfBlock config.preserveLines (Directive.valueOfRest value.toList) yes no)) := by
  have newline := not_mem_of_isIdentifier isName (by decide : Text.isWordChar '\n' = false)
  obtain ⟨opening, tests, physical⟩ := exists_tests (unmarked_of_isIdentifier isName)
    (ofText?_symbol isName noQuestion) plainYes plainNo
  obtain ⟨line, dropped, whole, kind, read⟩ :=
    exists_defines isName (.of_not_mem unmarked.noSlash) unmarked.dropReturn.whole.ended
  have spelt : (LogicalLine.single 1 line).directive? =
      some (.define name (Directive.valueOfRest value.toList)) := directive?_of_ofText? kind read
  have cut : logicalLines (["#define " ++ name ++ " " ++ value, "#if " ++ name, yes, "#else", no,
      "#endif"].map fun line => Text.dropReturn line.toList) =
      .single 1 line :: blockLines 2 opening yes.toList no.toList := by
    rw [List.map_cons, dropped, physical, logicalLines, logicalFrom_whole whole,
      logicalFrom_block tests.whole plainYes plainNo]
  have single : ∀ line ∈ ["#define " ++ name ++ " " ++ value, "#if " ++ name, yes, "#else", no,
      "#endif"], '\n' ∉ line.toList := by
    simpa [String.toList_append, newline, inLine] using ⟨plainYes.inLine, plainNo.inLine⟩
  have nested : Nested (.single 1 line :: blockLines 2 opening yes.toList no.toList) := by
    refine .plain ?_ (nested_block (tests.directive? 2) plainYes plainNo)
    rw [LogicalLine.Plain, spelt]
    intro directive mem
    cases mem
    rfl
  have readable : ∀ l ∈ .single 1 line :: blockLines 2 opening yes.toList no.toList,
      l.Readable := by
    intro l mem
    rcases List.mem_cons.mp mem with rfl | mem
    · exact readable_of_ofText? read
    · exact readable_block tests.read plainYes plainNo l mem
  rw [definedText, preprocess_of_nested single cut readable nested,
    output_definition spelt (tests.directive? 2) plainYes plainNo]

end Selection

/-- A block that tests a constant shows the branch that the constant selects, and a block behind a
    definition of a symbol as the constant the branch that the value of the symbol selects. The two
    are the same just if the constant is true or its text, blanks at the ends apart, consists of
    digits: with a parenthesis or a suffix letter a definition makes of zero a symbol that is
    true. -/
theorem constant_selects {name text yes no : String} {b : Bool}
    (isName : Text.isIdentifier name.toList = true) (noQuestion : name ≠ "defined")
    (inLine : '\n' ∉ text.toList) (constant : Condition.ofText? text.toList = .ok (.constant b))
    (plainYes : PlainLine yes) (plainNo : PlainLine no) (config : Configuration) :
    preprocess (testedText text yes no) config =
        .ok (Text.unlines (shownOfBlock config.preserveLines b yes no)) ∧
      preprocess (definedText name text yes no) config = .ok (Text.unlines
        (blankLines config.preserveLines 1 ++
          shownOfBlock config.preserveLines (Directive.valueOfRest text.toList) yes no)) ∧
      (Directive.valueOfRest text.toList = b ↔
        b = true ∨ (Text.trim text.toList).all Char.isDigit = true) := by
  have unmarked := Condition.unmarked_of_constant constant
  have tested := preprocess_testedText plainYes plainNo config inLine unmarked constant
  rw [Condition.eval] at tested
  exact ⟨tested,
    preprocess_definedText plainYes plainNo config isName noQuestion inLine unmarked,
    Directive.valueOfRest_eq_iff constant⟩

/-- A zero that is defined is false, and one with a suffix letter or in parentheses is true. -/
theorem zeros_select :
    preprocess (definedText "X" "00\t" "yes" "no") ⟨.empty, false⟩ = .ok "no\n" ∧
      Directive.valueOfRest "0L".toList = true ∧ Directive.valueOfRest " ( 0 )".toList = true := by
  have plainYes : PlainLine "yes" := ⟨by decide, by decide, by decide, by decide⟩
  have plainNo : PlainLine "no" := ⟨by decide, by decide, by decide, by decide⟩
  have isName : Text.isIdentifier "X".toList = true := by decide
  have select (text : String) (inLine : '\n' ∉ text.toList)
      (constant : Condition.ofText? text.toList = .ok (.constant false)) :=
    constant_selects isName (by decide) inLine constant plainYes plainNo ⟨.empty, false⟩
  obtain ⟨-, flat, digits⟩ := select "00\t" (by decide) (by decide +kernel)
  obtain ⟨-, -, suffix⟩ := select "0L" (by decide) (by decide +kernel)
  obtain ⟨-, -, parens⟩ := select " ( 0 )" (by decide) (by decide +kernel)
  refine ⟨?_, ?_, ?_⟩
  · have shown : Text.unlines (blankLines false 1 ++ shownOfBlock false false "yes" "no") =
        "no\n" := by decide
    rw [digits.mpr (Or.inr (by decide))] at flat
    exact flat.trans (congrArg Except.ok shown)
  · exact eq_true_of_ne_false fun same => absurd (suffix.mp same) (by decide)
  · exact eq_true_of_ne_false fun same => absurd (parens.mp same) (by decide)

/-- With a suffix letter or in parentheses, zero is false where it is tested and true where it is
    defined. -/
theorem zeros_select_apart :
    (Condition.ofText? "0L".toList = .ok (.constant false) ∧
      preprocess (testedText "0L" "yes" "no") ⟨.empty, false⟩ = .ok "no\n" ∧
      preprocess (definedText "X" "0L" "yes" "no") ⟨.empty, false⟩ = .ok "yes\n") ∧
    Condition.ofText? "(0)".toList = .ok (.constant false) ∧
      preprocess (testedText "(0)" "yes" "no") ⟨.empty, false⟩ = .ok "no\n" ∧
      preprocess (definedText "X" "(0)" "yes" "no") ⟨.empty, false⟩ = .ok "yes\n" := by
  decide +kernel

end InterfaceHeader
