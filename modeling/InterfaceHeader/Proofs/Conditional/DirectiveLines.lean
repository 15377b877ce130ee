import InterfaceHeader.Proofs.Condition.Constants
import InterfaceHeader.Proofs.Conditional.PhysicalLines
import InterfaceHeader.Proofs.Text.Places
import Mathlib.Data.List.Infix

/-!
# From physical lines to directives

Where no line ends in a backslash and no comment goes on behind one, the logical lines of a text are
its physical lines. A directive line with arguments in which no comment starts says what its keyword
and its trimmed arguments say; a carriage return in front of the line end makes no difference.
-/

namespace InterfaceHeader

/-! ## Lines that stand for themselves -/

/-- No line goes on behind this one, and no comment that it opens. -/
structure Whole (line : List Char) : Prop where
  ended : isContinued line = false
  closed : endsInComment false line = false

/-- A line of text: no directive, and no comment that it opens goes on behind it. -/
structure PlainLine (line : String) : Prop where
  inLine : '\n' ∉ line.toList
  noReturn : '\r' ∉ line.toList
  text : startsDirective line.toList = false
  closed : endsInComment false line.toList = false

/-- The logical line of a physical line that stands for itself. -/
def LogicalLine.single (number : Nat) (line : List Char) : LogicalLine :=
  ⟨line, number, 1, false⟩

theorem logicalFrom_plain {line : String} (plain : PlainLine line) (number : Nat)
    (rest : List (List Char)) :
    logicalFrom number false 0 (line.toList :: rest) =
      .single number line.toList :: logicalFrom (number + 1) false 0 rest := by
  rw [logicalFrom, plain.text, plain.closed]
  rfl

theorem logicalFrom_whole {line : List Char} (whole : Whole line) (number : Nat)
    (rest : List (List Char)) :
    logicalFrom number false 0 (line :: rest) =
      .single number line :: logicalFrom (number + 1) false 0 rest := by
  have joined : joinContinued line rest = (line, 0) := by
    cases rest <;> simp [joinContinued, whole.ended]
  rw [logicalFrom]
  split
  · rw [joined]
    simp only [whole.closed]
    rfl
  · rw [whole.closed]
    rfl

theorem isDirective_plain {line : String} (plain : PlainLine line) (number : Nat) :
    (LogicalLine.single number line.toList).isDirective = false := plain.text

theorem directive?_of_ofText? {line : LogicalLine} {directive : Directive}
    (kind : line.isDirective = true) (read : Directive.ofText? line.text = .ok directive) :
    line.directive? = some directive := by
  rw [LogicalLine.directive?, if_pos kind, read]
  rfl

/-! ## Lines without comments -/

/-- No comment starts in the line. -/
structure NoComment (line : List Char) : Prop where
  noLine : ¬ ['/', '/'] <:+: line
  noBlock : ¬ ['/', '*'] <:+: line

theorem noComment_iff {line : List Char} :
    (¬ ['/', '/'] <:+: line ∧ ¬ ['/', '*'] <:+: line) ↔ NoComment line :=
  ⟨fun both => ⟨both.1, both.2⟩, fun plain => ⟨plain.noLine, plain.noBlock⟩⟩

instance (line : List Char) : Decidable (NoComment line) :=
  decidable_of_iff _ noComment_iff

namespace NoComment

variable {line front : List Char}

theorem of_not_mem (noSlash : '/' ∉ line) : NoComment line :=
  ⟨fun inside => noSlash (inside.subset List.mem_cons_self),
    fun inside => noSlash (inside.subset List.mem_cons_self)⟩

theorem tail {c : Char} (plain : NoComment (c :: line)) : NoComment line :=
  ⟨fun inside => plain.noLine (List.infix_cons inside),
    fun inside => plain.noBlock (List.infix_cons inside)⟩

theorem append (noSlash : '/' ∉ front) (plain : NoComment line) : NoComment (front ++ line) := by
  induction front with
  | nil => exact plain
  | cons c front ih =>
      have other : '/' ≠ c := fun same => noSlash (same ▸ List.mem_cons_self)
      have later := ih fun mem => noSlash (List.mem_cons_of_mem c mem)
      have here (mark : List Char) : ¬ '/' :: mark <+: c :: (front ++ line) :=
        fun starts => other (List.cons_prefix_cons.mp starts).1
      exact ⟨fun inside => (List.infix_cons_iff.mp inside).elim (here _) later.noLine,
        fun inside => (List.infix_cons_iff.mp inside).elim (here _) later.noBlock⟩

theorem of_starts (starts : front <+: line) (plain : NoComment line) : NoComment front :=
  ⟨fun inside => plain.noLine (inside.trans starts.isInfix),
    fun inside => plain.noBlock (inside.trans starts.isInfix)⟩

theorem not_line (line : List Char) : ¬ NoComment ('/' :: '/' :: line) :=
  fun plain => plain.noLine (List.prefix_append ['/', '/'] line).isInfix

theorem not_block (line : List Char) : ¬ NoComment ('/' :: '*' :: line) :=
  fun plain => plain.noBlock (List.prefix_append ['/', '*'] line).isInfix

theorem endsInComment (plain : NoComment line) : endsInComment false line = false := by
  induction line with
  | nil => rfl
  | cons c line ih =>
      have later := ih plain.tail
      rw [InterfaceHeader.endsInComment.eq_def]
      split <;> simp_all [not_line, not_block]

theorem withoutComments (plain : NoComment line) : withoutComments false line = line := by
  induction line with
  | nil => rfl
  | cons c line ih =>
      have later := ih plain.tail
      rw [InterfaceHeader.withoutComments.eq_def]
      split <;> simp_all [not_line, not_block]

end NoComment

theorem not_mem_of_isIdentifier {name : String} (isName : Text.isIdentifier name.toList = true)
    {c : Char} (other : Text.isWordChar c = false) : c ∉ name.toList := by
  intro mem
  have word := (Word.isSolid_plain.mp (Condition.isSolid_of_isIdentifier isName)).2
  rw [List.all_eq_true.mp word c mem] at other
  cases other

theorem unmarked_of_isIdentifier {name : String}
    (isName : Text.isIdentifier name.toList = true) : Unmarked name.toList :=
  ⟨not_mem_of_isIdentifier isName (by decide), not_mem_of_isIdentifier isName (by decide)⟩

namespace Unmarked

variable {text : List Char}

theorem whole (unmarked : Unmarked text) : Whole text := by
  refine ⟨?_, (NoComment.of_not_mem unmarked.noSlash).endsInComment⟩
  unfold isContinued
  cases last : text.getLast? with
  | none => rfl
  | some c =>
      have other : c ≠ '\\' := fun same =>
        unmarked.noBackslash (same ▸ List.mem_of_getLast? last)
      simpa using other

theorem append {more : List Char} (unmarked : Unmarked text) (behind : Unmarked more) :
    Unmarked (text ++ more) :=
  ⟨by simp [unmarked.noSlash, behind.noSlash],
    by simp [unmarked.noBackslash, behind.noBackslash]⟩

theorem dropReturn (unmarked : Unmarked text) : Unmarked (Text.dropReturn text) := by
  obtain ⟨rest, whole⟩ := Text.dropReturn_prefix text
  rw [whole] at unmarked
  exact ⟨fun mem => unmarked.noSlash (List.mem_append_left rest mem),
    fun mem => unmarked.noBackslash (List.mem_append_left rest mem)⟩

end Unmarked

/-! ## Carriage returns -/

namespace Text

theorem dropReturn_append (front : List Char) {rest : List Char} (some : rest ≠ []) :
    dropReturn (front ++ rest) = front ++ dropReturn rest := by
  have last : (front ++ rest).getLast? = rest.getLast? := by
    rw [List.getLast?_append, List.getLast?_eq_some_getLast some]
    rfl
  unfold dropReturn
  rw [last]
  split
  · exact List.dropLast_append_of_ne_nil some
  · rfl

theorem dropReturn_space (line : List Char) :
    dropReturn (' ' :: line) = ' ' :: dropReturn line := by
  cases line with
  | nil => rfl
  | cons c line => exact dropReturn_append [' '] (List.cons_ne_nil c line)

/-- A carriage return at the end is a blank. -/
theorem trim_dropReturn (line : List Char) : trim (dropReturn line) = trim line := by
  unfold dropReturn
  split
  · rename_i last
    obtain ⟨line, rfl⟩ := List.getLast?_eq_some_iff.mp last
    rw [List.dropLast_concat]
    have none : ([] : List Char).all isBlank = true := rfl
    have one : ['\r'].all isBlank = true := by decide
    exact (trim_blanks none one line).symm
  · rfl

end Text

/-! ## Directive lines with arguments -/

/-- The line of a directive with these arguments. -/
def directiveLine (keyword : String) (arguments : List Char) : List Char :=
  '#' :: keyword.toList ++ ' ' :: arguments

theorem trimStart_directiveLine (keyword : String) (arguments : List Char) :
    Text.trimStart (directiveLine keyword arguments) = directiveLine keyword arguments := by
  refine Text.trimStart_of_head ?_
  show Text.isBlank '#' = false
  decide

theorem startsDirective_directiveLine (keyword : String) (arguments : List Char) :
    startsDirective (directiveLine keyword arguments) = true := by
  rw [startsDirective, trimStart_directiveLine]
  rfl

theorem Unmarked.directiveLine {keyword : String} {arguments : List Char}
    (isName : Text.isIdentifier keyword.toList = true) (unmarked : Unmarked arguments) :
    Unmarked (directiveLine keyword arguments) := by
  have hash : Unmarked ['#'] := ⟨by decide, by decide⟩
  have space : Unmarked [' '] := ⟨by decide, by decide⟩
  exact (hash.append (unmarked_of_isIdentifier isName)).append (space.append unmarked)

/-- An identifier starts the text in front of no word, and is all of its first word. -/
theorem word_of_isIdentifier {name : String} (isName : Text.isIdentifier name.toList = true)
    {rest : List Char} (noWord : NoWord rest) :
    (name.toList ++ rest).head?.any Text.isBlank = false ∧
      (name.toList ++ rest).takeWhile Text.isWordChar = name.toList ∧
      (name.toList ++ rest).dropWhile Text.isWordChar = rest := by
  obtain ⟨nonempty, word⟩ := Word.isSolid_plain.mp (Condition.isSolid_of_isIdentifier isName)
  refine ⟨?_, takeWhile_word word noWord, ?_⟩
  · obtain ⟨c, cs, same⟩ := List.exists_cons_of_ne_nil nonempty
    have mem : c ∈ name.toList := same ▸ List.mem_cons_self
    simpa [same] using Text.not_blank_of_isWordChar (List.all_eq_true.mp word c mem)
  · rw [List.dropWhile_append_of_pos (List.all_eq_true.mp word)]
    cases rest with
    | nil => rfl
    | cons c rest =>
        have ends : Text.isWordChar c = false := noWord
        exact List.dropWhile_cons_of_neg (by simp [ends])

theorem split_directiveLine {keyword : String} {arguments : List Char}
    (isName : Text.isIdentifier keyword.toList = true) (plain : NoComment arguments) :
    Directive.split (directiveLine keyword arguments) =
      (keyword.toList, Text.trim arguments) := by
  have noWord : NoWord (' ' :: arguments) := by
    show Text.isWordChar ' ' = false
    decide
  obtain ⟨visible, first, rest⟩ := word_of_isIdentifier isName noWord
  have body : Text.trimStart ((Text.trimStart (directiveLine keyword arguments)).drop 1) =
      keyword.toList ++ ' ' :: arguments := by
    rw [trimStart_directiveLine]
    exact Text.trimStart_of_head visible
  have spaced : NoComment (' ' :: arguments) := plain.append (by decide : '/' ∉ [' '])
  have space : ' ' :: arguments = [' '] ++ arguments ++ [] := by simp
  unfold Directive.split
  dsimp only
  rw [body, first, rest, spaced.withoutComments, space, Text.trim_blanks (by decide) rfl]

/-- A line that tests a condition. -/
theorem ofText?_if {condition : Condition} {text : List Char} (plain : NoComment text)
    (read : Condition.ofText? text = .ok condition) :
    Directive.ofText? (directiveLine "if" text) = .ok (.branch .ifCondition condition) := by
  unfold Directive.ofText?
  rw [split_directiveLine (by decide) plain]
  show Directive.ofParts? "if" (Text.trim text) = _
  unfold Directive.ofParts? Directive.condition?
  rw [Condition.ofText?_trim, read]
  rfl

/-- The arguments of a directive about a symbol are trimmed behind its name only. -/
theorem trim_symbol {name : String} (isName : Text.isIdentifier name.toList = true)
    {rest : List Char} (noWord : NoWord rest) :
    Text.trim (name.toList ++ rest) = name.toList ++ Text.trimEnd rest := by
  obtain ⟨blanks, whole, blank, last⟩ := Text.exists_trimEnd rest
  have visible := (word_of_isIdentifier isName noWord).1
  rw [Text.trim, Text.trimStart_of_head visible]
  conv_lhs => rw [whole, ← List.append_assoc, Text.trimEnd_blanks blank]
  refine Text.trimEnd_of_last ?_
  rw [List.getLast?_append]
  cases ends : (Text.trimEnd rest).getLast? with
  | some c =>
      rw [ends] at last
      exact last
  | none =>
      obtain ⟨-, word⟩ := Word.isSolid_plain.mp (Condition.isSolid_of_isIdentifier isName)
      cases final : name.toList.getLast? with
      | none => rfl
      | some c =>
          exact Text.not_blank_of_isWordChar
            (List.all_eq_true.mp word c (List.mem_of_getLast? final))

/-- No word goes on into a text that is trimmed at its end. -/
theorem NoWord.trimEnd {rest : List Char} (noWord : NoWord rest) : NoWord (Text.trimEnd rest) := by
  obtain ⟨blanks, whole, -, -⟩ := Text.exists_trimEnd rest
  cases trimmed : Text.trimEnd rest with
  | nil => rfl
  | cons c cs =>
      rw [whole, trimmed] at noWord
      exact noWord

/-- A line that defines a name, with or without something behind it. -/
theorem ofText?_define {name : String} {rest : List Char}
    (isName : Text.isIdentifier name.toList = true) (noWord : NoWord rest)
    (plain : NoComment rest) :
    Directive.ofText? (directiveLine "define" (name.toList ++ rest)) =
      .ok (.define name (Directive.valueOfRest rest)) := by
  have slash := not_mem_of_isIdentifier isName (by decide : Text.isWordChar '/' = false)
  obtain ⟨-, first, behind⟩ := word_of_isIdentifier isName noWord.trimEnd
  have value : Directive.valueOfRest (Text.trimEnd rest) = Directive.valueOfRest rest := by
    rw [Directive.valueOfRest_eq, Directive.valueOfRest_eq, Text.trim_trimEnd]
  unfold Directive.ofText?
  rw [split_directiveLine (by decide) (plain.append slash), trim_symbol isName noWord]
  show Directive.ofParts? "define" _ = _
  unfold Directive.ofParts? Directive.symbol?
  dsimp only
  rw [first, behind, if_pos isName, String.ofList_toList, value]
  rfl

/-- A line that undefines a name. -/
theorem ofText?_undef {name : String} (isName : Text.isIdentifier name.toList = true) :
    Directive.ofText? (directiveLine "undef" name.toList) = .ok (.undef name) := by
  have slash := not_mem_of_isIdentifier isName (by decide : Text.isWordChar '/' = false)
  have noWord : NoWord [] := rfl
  have trimmed := trim_symbol isName noWord
  obtain ⟨-, first, -⟩ := word_of_isIdentifier isName noWord
  rw [List.append_nil] at trimmed first
  unfold Directive.ofText?
  rw [split_directiveLine (by decide) (.of_not_mem slash), trimmed]
  show Directive.ofParts? "undef" _ = _
  unfold Directive.ofParts? Directive.symbol?
  dsimp only
  rw [show Text.trimEnd [] = [] from rfl, List.append_nil, first, if_pos isName,
    String.ofList_toList]
  rfl

end InterfaceHeader
