import InterfaceHeader.Text.Blank
import Mathlib.Data.List.Basic

/-!
# Trimming

A text is blanks, the trimmed text, and blanks, in one way only: the trimmed text has no blank at
either end.
-/

namespace InterfaceHeader.Text

/-- No blank stands at either end. -/
structure Edged (cs : List Char) : Prop where
  first : cs.head?.any isBlank = false
  last : cs.getLast?.any isBlank = false

theorem trimStart_of_head {cs : List Char} (first : cs.head?.any isBlank = false) :
    trimStart cs = cs := by
  cases cs with
  | nil => rfl
  | cons c cs => exact List.dropWhile_cons_of_neg (by simpa using first)

theorem trimStart_blanks {blanks : List Char} (blank : blanks.all isBlank = true)
    (cs : List Char) : trimStart (blanks ++ cs) = trimStart cs :=
  List.dropWhile_append_of_pos (List.all_eq_true.mp blank)

theorem trimEnd_of_last {cs : List Char} (last : cs.getLast?.any isBlank = false) :
    trimEnd cs = cs := by
  have front : trimStart cs.reverse = cs.reverse :=
    trimStart_of_head (by rwa [List.head?_reverse])
  rw [trimEnd, ← trimStart, front, List.reverse_reverse]

theorem trimEnd_blanks {blanks : List Char} (blank : blanks.all isBlank = true)
    (cs : List Char) : trimEnd (cs ++ blanks) = trimEnd cs := by
  rw [trimEnd, List.reverse_append, ← trimStart, trimStart_blanks (by rwa [List.all_reverse])]
  rfl

/-- A text of blanks is trimmed to nothing. -/
theorem trimStart_all {blanks : List Char} (blank : blanks.all isBlank = true) :
    trimStart blanks = [] := by
  have whole := trimStart_blanks blank []
  rwa [List.append_nil] at whole

/-- What stands between blanks is what is left of a text. -/
theorem trim_between {front core behind : List Char} (before : front.all isBlank = true)
    (after : behind.all isBlank = true) (edged : Edged core) :
    trim (front ++ core ++ behind) = core := by
  rw [trim, List.append_assoc, trimStart_blanks before]
  cases core with
  | nil =>
      rw [List.nil_append, trimStart_all after]
      rfl
  | cons c core =>
      rw [trimStart_of_head (by simpa using edged.first), trimEnd_blanks after,
        trimEnd_of_last edged.last]

theorem exists_trimStart (cs : List Char) :
    ∃ blanks, cs = blanks ++ trimStart cs ∧ blanks.all isBlank = true ∧
      (trimStart cs).head?.any isBlank = false := by
  refine ⟨cs.takeWhile isBlank, List.takeWhile_append_dropWhile.symm, List.all_takeWhile, ?_⟩
  cases rest : trimStart cs with
  | nil => rfl
  | cons c rest => exact trimStart_head rest

theorem exists_trimEnd (cs : List Char) :
    ∃ blanks, cs = trimEnd cs ++ blanks ∧ blanks.all isBlank = true ∧
      (trimEnd cs).getLast?.any isBlank = false := by
  obtain ⟨blanks, whole, blank, first⟩ := exists_trimStart cs.reverse
  refine ⟨blanks.reverse, ?_, by rwa [List.all_reverse], ?_⟩
  · rw [trimEnd, ← trimStart, ← List.reverse_append, ← whole, List.reverse_reverse]
  · rw [trimEnd, ← trimStart, List.getLast?_reverse]
    exact first

/-- Where something visible stands in a text, nothing behind it is trimmed at the start. -/
theorem trimStart_append {cs : List Char} (some : trimStart cs ≠ []) (rest : List Char) :
    trimStart (cs ++ rest) = trimStart cs ++ rest := by
  have visible : (cs.dropWhile isBlank).isEmpty = false := by simpa [trimStart] using some
  rw [trimStart, List.dropWhile_append, visible]
  rfl

/-- A text that is trimmed to nothing consists of blanks. -/
theorem blank_of_trimStart {cs : List Char} (none : trimStart cs = []) :
    cs.all isBlank = true := by
  obtain ⟨blanks, whole, blank, -⟩ := exists_trimStart cs
  rw [whole, none, List.append_nil]
  exact blank

theorem not_mem_of_blanks {blanks : List Char} (blank : blanks.all isBlank = true) {c : Char}
    (visible : isBlank c = false) : c ∉ blanks := by
  intro mem
  rw [List.all_eq_true.mp blank c mem] at visible
  cases visible

theorem trim_trimStart (cs : List Char) : trim (trimStart cs) = trim cs := by
  obtain ⟨blanks, whole, blank, first⟩ := exists_trimStart cs
  rw [trim, trim, trimStart_of_head first]

theorem exists_trim (cs : List Char) : ∃ front behind, cs = front ++ trim cs ++ behind ∧
    front.all isBlank = true ∧ behind.all isBlank = true ∧ Edged (trim cs) := by
  obtain ⟨front, whole, before, first⟩ := exists_trimStart cs
  obtain ⟨behind, kept, after, last⟩ := exists_trimEnd (trimStart cs)
  refine ⟨front, behind, ?_, before, after, ?_, last⟩
  · rw [trim, List.append_assoc, ← kept]
    exact whole
  · rw [trim]
    cases same : trimEnd (trimStart cs) with
    | nil => rfl
    | cons c rest =>
        rw [same] at kept
        rw [kept] at first
        exact first

/-- Blanks at the ends make no difference. -/
theorem trim_blanks {front behind : List Char} (before : front.all isBlank = true)
    (after : behind.all isBlank = true) (cs : List Char) :
    trim (front ++ cs ++ behind) = trim cs := by
  obtain ⟨front', behind', whole, before', after', edged⟩ := exists_trim cs
  have both : front ++ cs ++ behind = (front ++ front') ++ trim cs ++ (behind' ++ behind) := by
    conv_lhs => rw [whole]
    simp only [List.append_assoc]
  rw [both, trim_between (by rw [List.all_append, before, before']; rfl)
    (by rw [List.all_append, after, after']; rfl) edged]

theorem trim_trimEnd (cs : List Char) : trim (trimEnd cs) = trim cs := by
  obtain ⟨blanks, whole, blank, -⟩ := exists_trimEnd cs
  have none : ([] : List Char).all isBlank = true := rfl
  conv_rhs => rw [whole, ← List.nil_append (trimEnd cs ++ blanks), ← List.append_assoc,
    trim_blanks none blank]

/-- What is visible first is so whether the other end is trimmed or not. -/
theorem head?_trimStart (cs : List Char) : (trimStart cs).head? = (trim cs).head? := by
  obtain ⟨front, behind, whole, before, after, edged⟩ := exists_trim cs
  generalize trim cs = core at whole edged ⊢
  rw [whole, List.append_assoc, trimStart_blanks before]
  cases core with
  | nil => rw [List.nil_append, trimStart_all after]
  | cons c core =>
      rw [trimStart_of_head (by simpa using edged.first)]
      rfl

end InterfaceHeader.Text
