import InterfaceHeader.Condition.Word

/-!
# How the text of a condition is cut

`CutInto` says what the words of a text are, without going through the text from the left: blanks
and operators stand between plain words, and a plain word is as long as it can be, since no break
lies inside it and one lies behind it. Every text has exactly one sequence of words in this sense,
and it is the one that `words` finds.
-/

namespace InterfaceHeader

/-- The words with a fixed spelling are the operators. -/
def Word.isOperator : Word → Bool
  | .plain _ => false
  | _ => true

/-- A text into which no plain word goes on: it is empty, or starts with a blank or an operator. -/
inductive Breaks : List Char → Prop where
  | atEnd : Breaks []
  | blank {c : Char} {rest : List Char} : Text.isBlank c = true → Breaks (c :: rest)
  | operator {w : Word} {rest : List Char} : w.isOperator = true →
      Breaks (w.text.toList ++ rest)

/-- The words of a text. -/
inductive CutInto : List Char → List Word → Prop where
  | nil : CutInto [] []
  | blank {c : Char} {cs : List Char} {ws : List Word} : Text.isBlank c = true → CutInto cs ws →
      CutInto (c :: cs) ws
  | operator {w : Word} {cs : List Char} {ws : List Word} : w.isOperator = true →
      CutInto cs ws → CutInto (w.text.toList ++ cs) (w :: ws)
  | plain {front rest : List Char} {ws : List Word} : front ≠ [] →
      (∀ behind, behind <:+ front → behind ≠ [] → ¬ Breaks (behind ++ rest)) → Breaks rest →
      CutInto rest ws → CutInto (front ++ rest) (.plain (String.ofList front) :: ws)

theorem breaks_cons_iff {c : Char} {cs : List Char} :
    Breaks (c :: cs) ↔ Text.isBlank c = true ∨ c = '(' ∨ c = ')' ∨ c = '!' ∨
      (c = '|' ∧ cs.head? = some '|') ∨ (c = '&' ∧ cs.head? = some '&') := by
  constructor
  · intro breaks
    generalize whole : c :: cs = text at breaks
    cases breaks with
    | atEnd => cases whole
    | blank blank =>
        cases whole
        exact Or.inl blank
    | @operator w rest operator =>
        cases w with
        | plain text => cases operator
        | openParen =>
            obtain ⟨rfl, -⟩ : c = '(' ∧ cs = rest := List.cons.inj whole
            simp
        | closeParen =>
            obtain ⟨rfl, -⟩ : c = ')' ∧ cs = rest := List.cons.inj whole
            simp
        | bang =>
            obtain ⟨rfl, -⟩ : c = '!' ∧ cs = rest := List.cons.inj whole
            simp
        | bars =>
            obtain ⟨rfl, rfl⟩ : c = '|' ∧ cs = '|' :: rest := List.cons.inj whole
            simp
        | ampersands =>
            obtain ⟨rfl, rfl⟩ : c = '&' ∧ cs = '&' :: rest := List.cons.inj whole
            simp
  · rintro (blank | rfl | rfl | rfl | ⟨rfl, next⟩ | ⟨rfl, next⟩)
    · exact .blank blank
    · exact .operator (w := .openParen) rfl
    · exact .operator (w := .closeParen) rfl
    · exact .operator (w := .bang) rfl
    · obtain ⟨rest, rfl⟩ := List.head?_eq_some_iff.mp next
      exact .operator (w := .bars) rfl
    · obtain ⟨rest, rfl⟩ := List.head?_eq_some_iff.mp next
      exact .operator (w := .ampersands) rfl

/-! ## What is cut has these words -/

theorem ofChar?_blank {c : Char} (blank : Text.isBlank c = true) : Word.ofChar? c = none := by
  unfold Word.ofChar?
  split
  · exact absurd blank (by decide)
  · exact absurd blank (by decide)
  · exact absurd blank (by decide)
  · rfl

theorem split_blank {c : Char} (blank : Text.isBlank c = true) (cs : List Char) :
    Word.split (c :: cs) = ([], words cs) := by
  rw [Word.split.eq_def]
  split
  · rename_i whole
    cases whole
  · rename_i whole
    cases whole
    exact absurd blank (by decide)
  · rename_i whole
    cases whole
    exact absurd blank (by decide)
  · rename_i whole
    cases whole
    rw [ofChar?_blank blank]
    dsimp only
    rw [if_pos blank]
    rfl

theorem words_blank {c : Char} (blank : Text.isBlank c = true) (cs : List Char) :
    words (c :: cs) = words cs := by
  rw [words, split_blank blank]
  rfl

theorem split_operator {w : Word} (operator : w.isOperator = true) (cs : List Char) :
    Word.split (w.text.toList ++ cs) = ([], w :: words cs) := by
  cases w with
  | plain text => cases operator
  | openParen | closeParen | bang | bars | ampersands => rfl

theorem words_operator {w : Word} (operator : w.isOperator = true) (cs : List Char) :
    words (w.text.toList ++ cs) = w :: words cs := by
  rw [words, split_operator operator]
  rfl

theorem split_unbroken {c : Char} {cs : List Char} (unbroken : ¬ Breaks (c :: cs)) :
    Word.split (c :: cs) = (c :: (Word.split cs).1, (Word.split cs).2) := by
  rw [breaks_cons_iff] at unbroken
  simp only [not_or] at unbroken
  obtain ⟨visible, left, right, bang, bars, ampersands⟩ := unbroken
  rw [Word.split.eq_def]
  split
  · rename_i whole
    cases whole
  · rename_i whole
    cases whole
    exact absurd ⟨rfl, rfl⟩ bars
  · rename_i whole
    cases whole
    exact absurd ⟨rfl, rfl⟩ ampersands
  · rename_i whole
    cases whole
    have other : Word.ofChar? c = none := by
      unfold Word.ofChar?
      split <;> first | rfl | contradiction
    rw [other]
    dsimp only
    rw [if_neg visible]

theorem split_of_breaks {rest : List Char} (breaks : Breaks rest) :
    Word.split rest = ([], words rest) := by
  cases breaks with
  | atEnd => rfl
  | blank blank => rw [split_blank blank, words_blank blank]
  | operator operator => rw [split_operator operator, words_operator operator]

theorem split_plain {front rest : List Char}
    (unbroken : ∀ behind, behind <:+ front → behind ≠ [] → ¬ Breaks (behind ++ rest))
    (breaks : Breaks rest) : Word.split (front ++ rest) = (front, words rest) := by
  induction front with
  | nil => exact split_of_breaks breaks
  | cons c front ih =>
      have here := unbroken (c :: front) List.suffix_rfl (List.cons_ne_nil c front)
      have later := ih fun behind ends => unbroken behind (ends.trans (List.suffix_cons c front))
      rw [List.cons_append] at here ⊢
      rw [split_unbroken here, later]

theorem words_of_cutInto {text : List Char} {ws : List Word} (cut : CutInto text ws) :
    words text = ws := by
  induction cut with
  | nil => rfl
  | blank blank _ ih => rw [words_blank blank, ih]
  | operator operator _ ih => rw [words_operator operator, ih]
  | @plain front rest ws some unbroken breaks _ ih =>
      rw [words, split_plain unbroken breaks, ih]
      obtain ⟨c, cs, rfl⟩ := List.exists_cons_of_ne_nil some
      rfl

/-! ## Every text is cut -/

/-- A text is a run without a break, which may be empty, and what follows the break behind it. -/
theorem exists_break (text : List Char) :
    ∃ front rest, text = front ++ rest ∧
      (∀ behind, behind <:+ front → behind ≠ [] → ¬ Breaks (behind ++ rest)) ∧ Breaks rest := by
  induction text with
  | nil =>
      exact ⟨[], [], rfl, fun behind ends some => absurd (List.suffix_nil.mp ends) some, .atEnd⟩
  | cons c cs ih =>
      by_cases here : Breaks (c :: cs)
      · exact ⟨[], c :: cs, rfl,
          fun behind ends some => absurd (List.suffix_nil.mp ends) some, here⟩
      · obtain ⟨front, rest, rfl, unbroken, breaks⟩ := ih
        refine ⟨c :: front, rest, rfl, ?_, breaks⟩
        intro behind ends some
        rcases List.suffix_cons_iff.mp ends with rfl | ends
        · exact here
        · exact unbroken behind ends some

theorem Word.length_text_pos {w : Word} (operator : w.isOperator = true) :
    0 < w.text.toList.length := by
  cases w with
  | plain text => cases operator
  | openParen | closeParen | bang | bars | ampersands => decide

theorem exists_cutInto (text : List Char) : ∃ ws, CutInto text ws := by
  obtain ⟨front, rest, whole, unbroken, breaks⟩ := exists_break text
  have behind : ∃ ws, CutInto rest ws := by
    cases breaks with
    | atEnd => exact ⟨[], .nil⟩
    | @blank c cs blank =>
        obtain ⟨ws, cut⟩ := exists_cutInto cs
        exact ⟨ws, .blank blank cut⟩
    | @operator w cs operator =>
        have some := Word.length_text_pos operator
        obtain ⟨ws, cut⟩ := exists_cutInto cs
        exact ⟨w :: ws, .operator operator cut⟩
  obtain ⟨ws, cut⟩ := behind
  rw [whole]
  by_cases empty : front = []
  · subst empty
    exact ⟨ws, cut⟩
  · exact ⟨_, .plain empty unbroken breaks cut⟩
termination_by text.length
decreasing_by
  all_goals
    rw [whole]
    simp only [List.length_append, List.length_cons]
    omega

theorem cutInto_iff {text : List Char} {ws : List Word} : CutInto text ws ↔ words text = ws := by
  refine ⟨words_of_cutInto, ?_⟩
  rintro rfl
  obtain ⟨ws, cut⟩ := exists_cutInto text
  rwa [words_of_cutInto cut]

end InterfaceHeader
