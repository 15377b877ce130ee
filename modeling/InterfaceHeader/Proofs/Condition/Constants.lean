import InterfaceHeader.Directive.Basic
import InterfaceHeader.Proofs.Condition.Printing
import InterfaceHeader.Proofs.Text.Trim

/-!
# The two readers of constants

A constant can be tested where it stands, or given to a symbol by a definition. The reader of
conditions knows parentheses and suffix letters; a definition knows neither, and its symbol is
false only if the text is nothing but an integer with value zero. So the two agree on a text that
spells a constant just if the constant is true or the text consists of digits.
-/

namespace InterfaceHeader

/-- Neither a slash nor a backslash stands in the text, so that no comment starts in it and no line
    that ends with it goes on. -/
structure Unmarked (text : List Char) : Prop where
  noSlash : '/' ∉ text
  noBackslash : '\\' ∉ text

/-! ## Blanks around the words -/

theorem head?_blanks {c : Char} {blanks : List Char} (blank : blanks.all Text.isBlank = true)
    (visible : Text.isBlank c = false) : blanks.head? ≠ some c := by
  intro first
  have isBlank := List.all_eq_true.mp blank c (List.mem_of_head? first)
  rw [visible] at isBlank
  cases isBlank

/-- Blanks behind a text complete no operator. -/
theorem breaks_append_blanks {c : Char} {cs blanks : List Char}
    (blank : blanks.all Text.isBlank = true) :
    Breaks (c :: cs ++ blanks) ↔ Breaks (c :: cs) := by
  have next {d : Char} (visible : Text.isBlank d = false) :
      (cs ++ blanks).head? = some d ↔ cs.head? = some d := by
    cases cs with
    | nil => simpa using head?_blanks blank visible
    | cons e cs => simp
  rw [List.cons_append, breaks_cons_iff, breaks_cons_iff,
    next (by decide : Text.isBlank '|' = false), next (by decide : Text.isBlank '&' = false)]

theorem Breaks.append_blanks {text blanks : List Char} (breaks : Breaks text)
    (blank : blanks.all Text.isBlank = true) : Breaks (text ++ blanks) := by
  cases text with
  | cons c cs => exact (breaks_append_blanks blank).mpr breaks
  | nil =>
      cases blanks with
      | nil => exact .atEnd
      | cons c cs => exact .blank (Bool.and_eq_true_iff.mp blank).1

theorem CutInto.append_blanks {text blanks : List Char} {ws : List Word} (cut : CutInto text ws)
    (blank : blanks.all Text.isBlank = true) : CutInto (text ++ blanks) ws := by
  induction cut with
  | nil => simpa using CutInto.nil.blanks blank
  | blank first _ ih => exact .blank first ih
  | operator operator _ ih =>
      rw [List.append_assoc]
      exact .operator operator ih
  | @plain front rest ws some unbroken breaks _ ih =>
      rw [List.append_assoc]
      refine .plain some ?_ (breaks.append_blanks blank) ih
      intro behind ends some
      obtain ⟨c, cs, rfl⟩ := List.exists_cons_of_ne_nil some
      have here := unbroken (c :: cs) ends some
      rw [List.cons_append] at here
      rwa [← List.append_assoc, List.cons_append, breaks_append_blanks blank]

theorem words_between {front core behind : List Char} (before : front.all Text.isBlank = true)
    (after : behind.all Text.isBlank = true) : words (front ++ core ++ behind) = words core := by
  have cut : CutInto core (words core) := cutInto_iff.mpr rfl
  rw [List.append_assoc]
  exact words_of_cutInto ((cut.append_blanks after).blanks before)

/-- A character of a text is blank or stands in one of its words. -/
theorem CutInto.mem_cases {text : List Char} {ws : List Word} (cut : CutInto text ws) {c : Char}
    (mem : c ∈ text) : Text.isBlank c = true ∨ ∃ w ∈ ws, c ∈ w.text.toList := by
  have later {w : Word} {ws : List Word} (found : Text.isBlank c = true ∨
      ∃ w ∈ ws, c ∈ w.text.toList) : Text.isBlank c = true ∨ ∃ v ∈ w :: ws, c ∈ v.text.toList := by
    rcases found with blank | ⟨v, known, inside⟩
    · exact Or.inl blank
    · exact Or.inr ⟨v, List.mem_cons_of_mem w known, inside⟩
  induction cut with
  | nil => cases mem
  | blank first _ ih =>
      rcases List.mem_cons.mp mem with rfl | mem
      · exact Or.inl first
      · exact ih mem
  | @operator w cs ws _ _ ih =>
      rcases List.mem_append.mp mem with mem | mem
      · exact Or.inr ⟨w, List.mem_cons_self, mem⟩
      · exact later (ih mem)
  | @plain front rest ws _ _ _ _ ih =>
      rcases List.mem_append.mp mem with mem | mem
      · exact Or.inr ⟨_, List.mem_cons_self, by rwa [Word.text, String.toList_ofList]⟩
      · exact later (ih mem)

/-- A text without blanks at its ends that has one plain word is this word. -/
theorem CutInto.eq_of_plain {core : List Char} {text : String} (cut : CutInto core [.plain text])
    (edged : Text.Edged core) : core = text.toList := by
  generalize same : [Word.plain text] = ws at cut
  cases cut with
  | nil => cases same
  | blank first _ =>
      have visible := edged.first
      rw [List.head?_cons, Option.any_some, first] at visible
      cases visible
  | operator operator _ =>
      cases same
      cases operator
  | @plain front rest _ some _ _ cut =>
      cases same
      rw [String.toList_ofList]
      cases rest with
      | nil => exact List.append_nil front
      | cons c rest =>
          have last : (c :: rest).getLast (List.cons_ne_nil c rest) ∈ c :: rest :=
            List.getLast_mem _
          rcases cut.mem_cases last with blank | ⟨w, none, -⟩
          · have end? := edged.last
            rw [List.getLast?_append,
              List.getLast?_eq_some_getLast (List.cons_ne_nil c rest)] at end?
            rw [Option.some_or, Option.any_some, blank] at end?
            cases end?
          · cases none

theorem CutInto.head_of_openParen {core : List Char} {ws : List Word}
    (cut : CutInto core (.openParen :: ws)) (edged : Text.Edged core) :
    core.head? = some '(' := by
  generalize same : Word.openParen :: ws = all at cut
  cases cut with
  | nil => cases same
  | blank first _ =>
      have visible := edged.first
      rw [List.head?_cons, Option.any_some, first] at visible
      cases visible
  | operator _ _ =>
      cases same
      rfl
  | plain => cases same

namespace Condition

theorem ofText?_between {front core behind : List Char} (before : front.all Text.isBlank = true)
    (after : behind.all Text.isBlank = true) :
    Condition.ofText? (front ++ core ++ behind) = Condition.ofText? core := by
  unfold Condition.ofText? ConditionSource.ofText
  rw [words_between before after]

/-! ## The words of a constant -/

theorem constantForm_cases {b : Bool} {u : List Word} (form : AlternativesForm (.constant b) u) :
    (∃ text value, u = [.plain text] ∧ IsLiteral text value ∧ decide (value ≠ 0) = b) ∨
      ∃ v, u = .openParen :: (v ++ [.closeParen]) ∧ AlternativesForm (.constant b) v := by
  cases form with
  | one form =>
      cases form with
      | one form =>
          cases form with
          | operand form =>
              cases form with
              | parenthesised form => exact Or.inr ⟨_, rfl, form⟩
              | constant literal => exact Or.inl ⟨_, _, rfl, literal, rfl⟩

theorem isSolid_of_constantForm {b : Bool} {u : List Word}
    (form : AlternativesForm (.constant b) u) : u.all Word.isSolid = true := by
  rcases constantForm_cases form with ⟨text, value, rfl, literal, -⟩ | ⟨v, rfl, inner⟩
  · rw [List.all_cons, isSolid_of_isLiteral literal]
    rfl
  · rw [List.all_cons, List.all_append, isSolid_of_constantForm inner]
    rfl
termination_by u.length

/-- In a text that spells a constant stands no mark of a comment or of a line that goes on. -/
theorem unmarked_of_constant {b : Bool} {text : List Char}
    (constant : Condition.ofText? text = .ok (.constant b)) : Unmarked text := by
  have solid := isSolid_of_constantForm (ofText?_eq_ok_iff.mp constant)
  have absent {c : Char} (visible : Text.isBlank c = false) (other : Text.isWordChar c = false)
      (noOperator : ∀ w : Word, w.isOperator = true → c ∉ w.text.toList) : c ∉ text := by
    intro mem
    rcases (cutInto_iff.mpr rfl : CutInto text (words text)).mem_cases mem with
      blank | ⟨w, known, inside⟩
    · rw [visible] at blank
      cases blank
    · cases w with
      | plain text =>
          have word := (Word.isSolid_plain.mp (List.all_eq_true.mp solid _ known)).2
          rw [List.all_eq_true.mp word c inside] at other
          cases other
      | openParen | closeParen | bang | bars | ampersands => exact noOperator _ rfl inside
  constructor
  · refine absent (by decide) (by decide) ?_
    rintro (_ | _ | _ | _ | _ | _) operator <;> first | decide | cases operator
  · refine absent (by decide) (by decide) ?_
    rintro (_ | _ | _ | _ | _ | _) operator <;> first | decide | cases operator

theorem ofText?_trim (text : List Char) :
    Condition.ofText? (Text.trim text) = Condition.ofText? text := by
  obtain ⟨front, behind, whole, before, after, -⟩ := Text.exists_trim text
  conv_rhs => rw [whole, ofText?_between before after]

end Condition

/-! ## The value that a definition gives -/

theorem Directive.valueOfRest_eq (text : List Char) :
    Directive.valueOfRest text = if (Text.trim text).head? = some '(' then true
      else decide (Decimal.readWord? (Text.trim text) ≠ some 0) := by
  unfold Directive.valueOfRest definitionValue
  dsimp only
  rw [Text.head?_trimStart, Text.trim_trimStart]

theorem Directive.valueOfRest_space (text : List Char) :
    Directive.valueOfRest (' ' :: text) = Directive.valueOfRest text := rfl

/-- The text of a literal is a number for a definition only without suffix letters. -/
theorem readWord?_eq_zero_iff {text : String} {value : Nat} (literal : IsLiteral text value) :
    Decimal.readWord? text.toList = some 0 ↔
      value = 0 ∧ text.toList.all Char.isDigit = true := by
  obtain ⟨digits, suffix, whole, read, small, letters⟩ := literal
  obtain ⟨nonempty, all⟩ := Condition.readDigits?_eq_some read
  obtain ⟨c, cs, rfl⟩ := List.exists_cons_of_ne_nil nonempty
  have digit : c.isDigit = true := List.all_eq_true.mp all c List.mem_cons_self
  rw [whole, List.cons_append, Condition.readWord?_digits digit, ← List.cons_append]
  cases suffix with
  | nil =>
      have zero : Int64.ofInt value = 0 ↔ value = 0 :=
        not_iff_not.mp (Condition.ofInt_ne_zero_iff small)
      rw [List.append_nil, read]
      simp [zero, all, small]
  | cons s suffix =>
      have letter : s.isDigit = false := by
        cases other : s.isDigit with
        | false => rfl
        | true =>
            have suffix := Condition.not_isSuffix_of_isDigit other
            rw [(Bool.and_eq_true_iff.mp letters).1] at suffix
            cases suffix
      have mixed : ¬ (c :: cs ++ s :: suffix).all Char.isDigit = true := by
        intro digits
        have isDigit := List.all_eq_true.mp digits s (by simp)
        rw [letter] at isDigit
        cases isDigit
      constructor
      · rintro ⟨other, found, -⟩
        exact absurd (Condition.readDigits?_eq_some found).2 mixed
      · rintro ⟨-, digits⟩
        exact absurd digits mixed

/-- A definition gives its symbol the truth of a constant just if this is true or the text behind
    the name, blanks at its ends apart, consists of digits. -/
theorem Directive.valueOfRest_eq_iff {text : List Char} {b : Bool}
    (constant : Condition.ofText? text = .ok (.constant b)) :
    Directive.valueOfRest text = b ↔ b = true ∨ (Text.trim text).all Char.isDigit = true := by
  obtain ⟨front, behind, whole, before, after, edged⟩ := Text.exists_trim text
  rw [Directive.valueOfRest_eq]
  generalize Text.trim text = core at whole edged ⊢
  rw [whole, Condition.ofText?_between before after, Condition.ofText?_eq_ok_iff] at constant
  have cut : CutInto core (words core) := cutInto_iff.mpr rfl
  rcases Condition.constantForm_cases constant with
    ⟨word, value, spelt, literal, rfl⟩ | ⟨v, spelt, -⟩
  · rw [spelt] at cut
    cases cut.eq_of_plain edged
    have start : word.toList.head? ≠ some '(' := by
      intro first
      have digit := Condition.startsWithDigit_of_isLiteral literal
      rw [Condition.startsWithDigit, first] at digit
      cases digit
    rw [if_neg start, decide_eq_decide, not_iff_not, readWord?_eq_zero_iff literal]
    by_cases zero : value = 0 <;> simp [zero]
  · rw [spelt] at cut
    have start := cut.head_of_openParen edged
    have mixed : ¬ core.all Char.isDigit = true := by
      intro digits
      have isDigit := List.all_eq_true.mp digits '(' (List.mem_of_head? start)
      cases isDigit
    rw [if_pos start]
    simp [mixed, eq_comm]

end InterfaceHeader
