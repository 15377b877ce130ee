import InterfaceHeader.Proofs.Condition.Reading
import InterfaceHeader.Proofs.Condition.Words

/-!
# Writing conditions

A condition is written with parentheses only where its place needs them: an alternative below a
conjunction or a negation, a conjunction below a negation, and on the right of an operator also a
condition that the same operator joins. The words may then stand in a text with any blanks around
them, and with none at all except between two plain words. Reading such a text gives the condition
back.
-/

namespace InterfaceHeader

/-- How tightly a condition holds together. -/
def Condition.rank : Condition → Nat
  | .or _ _ => 0
  | .and _ _ => 1
  | .symbol _ | .constant _ | .not _ | .defined _ => 2

/-- The words of a condition at a place for conditions of at least this rank. -/
def Condition.placed (rank : Nat) (condition : Condition) (u : List Word) : List Word :=
  if condition.rank < rank then .openParen :: (u ++ [.closeParen]) else u

/-- The words that spell a condition with no more parentheses than it needs. -/
inductive Writes : Condition → List Word → Prop where
  | symbol {name : String} : Writes (.symbol name) [.plain name]
  | constant {text : String} {value : Nat} : IsLiteral text value →
      Writes (.constant (decide (value ≠ 0))) [.plain text]
  | defined {name : String} : Writes (.defined name) [.plain "defined", .plain name]
  | definedParenthesised {name : String} :
      Writes (.defined name) [.plain "defined", .openParen, .plain name, .closeParen]
  | not {condition : Condition} {u : List Word} : Writes condition u →
      Writes (.not condition) (.bang :: condition.placed 2 u)
  | and {left right : Condition} {u v : List Word} : Writes left u → Writes right v →
      Writes (.and left right) (left.placed 1 u ++ .ampersands :: right.placed 2 v)
  | or {left right : Condition} {u v : List Word} : Writes left u → Writes right v →
      Writes (.or left right) (left.placed 0 u ++ .bars :: right.placed 1 v)

/-- The words stand in a text in their order, with blanks around them. Two plain words have a
    blank between them. -/
inductive SpacedOut : List Word → List Char → Prop where
  | nil {blanks : List Char} : blanks.all Text.isBlank = true → SpacedOut [] blanks
  | cons {w : Word} {ws : List Word} {blanks text : List Char} :
      blanks.all Text.isBlank = true →
      (∀ a b, w = .plain a → ws.head? = some (.plain b) → text.head?.any Text.isBlank = true) →
      SpacedOut ws text → SpacedOut (w :: ws) (blanks ++ w.text.toList ++ text)

/-- The symbols of a condition are identifiers, and where it asks for the truth of one, this is
    not the word of the other question. -/
def Condition.WellNamed : Condition → Prop
  | .symbol name => Text.isIdentifier name.toList = true ∧ name ≠ "defined"
  | .constant _ => True
  | .not operand => operand.WellNamed
  | .or left right => left.WellNamed ∧ right.WellNamed
  | .and left right => left.WellNamed ∧ right.WellNamed
  | .defined name => Text.isIdentifier name.toList = true

namespace Condition

/-! ## What is written is derived -/

/-- The form of conditions of at least this rank. -/
def FormAt : Nat → Condition → List Word → Prop
  | 0 => AlternativesForm
  | 1 => ConjunctionForm
  | _ + 2 => NegationForm

theorem FormAt.of_le {rank rank' : Nat} {condition : Condition} {u : List Word}
    (le : rank ≤ rank') (form : FormAt rank' condition u) : FormAt rank condition u := by
  have conjunction {condition : Condition} {u : List Word} (form : NegationForm condition u) :
      ConjunctionForm condition u := .one form
  match rank, rank' with
  | 0, 0 | 1, 1 | _ + 2, _ + 2 => exact form
  | 0, 1 => exact .one form
  | 0, _ + 2 => exact .one (conjunction form)
  | 1, _ + 2 => exact conjunction form
  | _ + 1, 0 | _ + 2, 1 => omega

/-- In parentheses where its place needs them, a condition has the form of its place. -/
theorem FormAt.placed (rank : Nat) {condition : Condition} {u : List Word}
    (form : FormAt condition.rank condition u) :
    FormAt rank condition (condition.placed rank u) := by
  unfold Condition.placed
  split
  · have inner : AlternativesForm condition u := FormAt.of_le (Nat.zero_le _) form
    have outer : FormAt (rank + 2) condition (.openParen :: (u ++ [.closeParen])) :=
      .operand (.parenthesised inner)
    exact FormAt.of_le (Nat.le_add_right rank 2) outer
  · rename_i enough
    exact FormAt.of_le (Nat.le_of_not_lt enough) form

theorem formAt_of_writes {condition : Condition} {u : List Word} (writes : Writes condition u)
    (named : condition.WellNamed) : FormAt condition.rank condition u := by
  induction writes with
  | symbol => exact .operand (.symbol named.1 named.2)
  | constant literal => exact .operand (.constant literal)
  | defined => exact .operand (.defined named)
  | definedParenthesised => exact .operand (.definedParenthesised named)
  | not _ ih => exact .not (FormAt.placed 2 (ih named))
  | and _ _ ihLeft ihRight =>
      exact .more (FormAt.placed 1 (ihLeft named.1))
        (FormAt.placed 2 (ihRight named.2))
  | or _ _ ihLeft ihRight =>
      exact .more (FormAt.placed 0 (ihLeft named.1))
        (FormAt.placed 1 (ihRight named.2))

end Condition

/-! ## What is written is cut at its words -/

/-- A plain word of letters, digits and underscores, or an operator. -/
def Word.isSolid : Word → Bool
  | .plain text => !text.toList.isEmpty && text.toList.all Text.isWordChar
  | _ => true

theorem Word.isSolid_plain {text : String} :
    (Word.plain text).isSolid = true ↔
      text.toList ≠ [] ∧ text.toList.all Text.isWordChar = true := by
  simp [Word.isSolid]

theorem not_breaks_of_isWordChar {c : Char} {cs : List Char} (word : Text.isWordChar c = true) :
    ¬ Breaks (c :: cs) := by
  rw [breaks_cons_iff]
  rintro (blank | rfl | rfl | rfl | ⟨rfl, -⟩ | ⟨rfl, -⟩)
  · rw [Text.not_blank_of_isWordChar word] at blank
    cases blank
  all_goals exact absurd word (by decide)

theorem CutInto.blanks {blanks text : List Char} {ws : List Word}
    (blank : blanks.all Text.isBlank = true) (cut : CutInto text ws) :
    CutInto (blanks ++ text) ws := by
  induction blanks with
  | nil => exact cut
  | cons c cs ih =>
      obtain ⟨first, others⟩ := Bool.and_eq_true_iff.mp blank
      exact .blank first (ih others)

theorem breaks_of_head_blank {text : List Char} (blank : text.head?.any Text.isBlank = true) :
    Breaks text := by
  cases text with
  | nil => cases blank
  | cons c cs => exact .blank blank

/-- A plain word ends in front of words that a blank separates from it where it has to. -/
theorem SpacedOut.breaks {ws : List Word} {text : List Char} (spaced : SpacedOut ws text)
    (apart : ∀ b, ws.head? = some (.plain b) → text.head?.any Text.isBlank = true) :
    Breaks text := by
  cases spaced with
  | nil blank =>
      cases text with
      | nil => exact .atEnd
      | cons c cs => exact .blank (Bool.and_eq_true_iff.mp blank).1
  | @cons w ws blanks text blank _ _ =>
      cases blanks with
      | cons c cs => exact .blank (Bool.and_eq_true_iff.mp blank).1
      | nil =>
          cases kind : w.isOperator with
          | true => exact .operator kind
          | false =>
              cases w with
              | plain b => exact breaks_of_head_blank (apart b rfl)
              | openParen | closeParen | bang | bars | ampersands => cases kind

theorem SpacedOut.cutInto {ws : List Word} {text : List Char} (spaced : SpacedOut ws text)
    (solid : ws.all Word.isSolid = true) : CutInto text ws := by
  induction spaced with
  | nil blank => simpa using CutInto.nil.blanks blank
  | @cons w ws blanks text blank apart spaced ih =>
      obtain ⟨first, others⟩ := Bool.and_eq_true_iff.mp solid
      rw [List.append_assoc]
      refine CutInto.blanks blank ?_
      cases w with
      | openParen | closeParen | bang | bars | ampersands => exact .operator rfl (ih others)
      | plain a =>
          obtain ⟨some, word⟩ := Word.isSolid_plain.mp first
          have unbroken : ∀ behind, behind <:+ a.toList → behind ≠ [] →
              ¬ Breaks (behind ++ text) := by
            intro behind ends some
            obtain ⟨c, cs, rfl⟩ := List.exists_cons_of_ne_nil some
            exact not_breaks_of_isWordChar
              (List.all_eq_true.mp word c (ends.subset List.mem_cons_self))
          have cut := CutInto.plain some unbroken (spaced.breaks (apart a · rfl)) (ih others)
          rwa [String.ofList_toList] at cut

namespace Condition

theorem isSolid_of_isIdentifier {name : String} (isName : Text.isIdentifier name.toList = true) :
    (Word.plain name).isSolid = true := by
  rw [Word.isSolid_plain]
  cases same : name.toList with
  | nil =>
      rw [same] at isName
      cases isName
  | cons c cs =>
      rw [same] at isName
      obtain ⟨start, others⟩ := Bool.and_eq_true_iff.mp isName
      refine ⟨List.cons_ne_nil c cs, ?_⟩
      rw [List.all_cons, Text.isWordChar_of_isWordStart start, others]
      rfl

theorem isWordChar_of_isSuffix {c : Char} (suffix : isSuffix c = true) :
    Text.isWordChar c = true := by
  simp only [isSuffix, Bool.or_eq_true, beq_iff_eq] at suffix
  rcases suffix with ((rfl | rfl) | rfl) | rfl <;> decide

theorem isSolid_of_isLiteral {text : String} {value : Nat} (literal : IsLiteral text value) :
    (Word.plain text).isSolid = true := by
  obtain ⟨digits, suffix, whole, read, -, letters⟩ := literal
  obtain ⟨some, all⟩ := readDigits?_eq_some read
  rw [Word.isSolid_plain, whole]
  refine ⟨fun empty => some (List.append_eq_nil_iff.mp empty).1, ?_⟩
  rw [List.all_append, Bool.and_eq_true]
  constructor
  · exact List.all_eq_true.mpr fun c mem =>
      Text.isWordChar_of_isDigit (List.all_eq_true.mp all c mem)
  · exact List.all_eq_true.mpr fun c mem =>
      isWordChar_of_isSuffix (List.all_eq_true.mp letters c mem)

theorem isSolid_placed {rank : Nat} {condition : Condition} {u : List Word}
    (solid : u.all Word.isSolid = true) : (condition.placed rank u).all Word.isSolid = true := by
  unfold Condition.placed
  split
  · rw [List.all_cons, List.all_append, solid]
    rfl
  · exact solid

theorem isSolid_of_writes {condition : Condition} {u : List Word} (writes : Writes condition u)
    (named : condition.WellNamed) : u.all Word.isSolid = true := by
  have question : (Word.plain "defined").isSolid = true := by decide
  have opening : Word.openParen.isSolid = true := rfl
  have closing : Word.closeParen.isSolid = true := rfl
  induction writes with
  | symbol =>
      simp only [List.all_cons, List.all_nil, isSolid_of_isIdentifier named.1, Bool.and_self]
  | constant literal =>
      simp only [List.all_cons, List.all_nil, isSolid_of_isLiteral literal, Bool.and_self]
  | defined =>
      simp only [List.all_cons, List.all_nil, question, isSolid_of_isIdentifier named,
        Bool.and_self]
  | definedParenthesised =>
      simp only [List.all_cons, List.all_nil, question, opening, isSolid_of_isIdentifier named,
        closing, Bool.and_self]
  | not _ ih =>
      rw [List.all_cons, isSolid_placed (ih named)]
      rfl
  | and _ _ ihLeft ihRight | or _ _ ihLeft ihRight =>
      rw [List.all_append, List.all_cons, isSolid_placed (ihLeft named.1),
        isSolid_placed (ihRight named.2)]
      rfl

/-! ## Every condition is written, and what is written is read back -/

theorem exists_writes (condition : Condition) : ∃ u, Writes condition u := by
  induction condition with
  | symbol name => exact ⟨_, .symbol⟩
  | constant value =>
      cases value with
      | false => exact ⟨_, .constant (⟨['0'], [], by decide⟩ : IsLiteral "0" 0)⟩
      | true => exact ⟨_, .constant (⟨['1'], [], by decide⟩ : IsLiteral "1" 1)⟩
  | not operand ih =>
      obtain ⟨u, writes⟩ := ih
      exact ⟨_, .not writes⟩
  | or left right ihLeft ihRight =>
      obtain ⟨u, writesLeft⟩ := ihLeft
      obtain ⟨v, writesRight⟩ := ihRight
      exact ⟨_, .or writesLeft writesRight⟩
  | and left right ihLeft ihRight =>
      obtain ⟨u, writesLeft⟩ := ihLeft
      obtain ⟨v, writesRight⟩ := ihRight
      exact ⟨_, .and writesLeft writesRight⟩
  | defined name => exact ⟨_, .defined⟩

theorem exists_spacedOut (ws : List Word) : ∃ text, SpacedOut ws text := by
  have none : ([] : List Char).all Text.isBlank = true := rfl
  have one : [' '].all Text.isBlank = true := by decide
  suffices whole : ∃ text, SpacedOut ws text ∧ (ws = [] ∨ text.head?.any Text.isBlank = true) by
    obtain ⟨text, spaced, -⟩ := whole
    exact ⟨text, spaced⟩
  induction ws with
  | nil => exact ⟨[], .nil none, .inl rfl⟩
  | cons w ws ih =>
      obtain ⟨text, spaced, start⟩ := ih
      refine ⟨_, .cons one ?_ spaced, .inr rfl⟩
      intro a b _ next
      rcases start with rfl | start
      · cases next
      · exact start

/-- A text that spells a condition is read as this condition. -/
theorem ofText?_of_writes {condition : Condition} {u : List Word} {text : List Char}
    (named : condition.WellNamed) (writes : Writes condition u) (spaced : SpacedOut u text) :
    Condition.ofText? text = .ok condition := by
  have cut := spaced.cutInto (isSolid_of_writes writes named)
  rw [ofText?_eq_ok_iff, cutInto_iff.mp cut]
  exact FormAt.of_le (Nat.zero_le _) (formAt_of_writes writes named)

/-- A text has one sequence of words, and is read as a condition just where the grammar derives
    the condition from them. There is at most one such condition. The texts that spell a condition
    with well-formed names are read as this condition. -/
theorem read_as_derived :
    (∀ text, ∃ ws, (∀ ws', CutInto text ws' ↔ ws' = ws) ∧
      (∀ condition, Condition.ofText? text = .ok condition ↔ AlternativesForm condition ws) ∧
      ∀ condition condition', AlternativesForm condition ws → AlternativesForm condition' ws →
        condition = condition') ∧
    ∀ condition : Condition, condition.WellNamed →
      (∃ u text, Writes condition u ∧ SpacedOut u text) ∧
      ∀ u text, Writes condition u → SpacedOut u text →
        Condition.ofText? text = .ok condition := by
  constructor
  · intro text
    refine ⟨words text, ?_, ?_, ?_⟩
    · intro ws
      exact cutInto_iff.trans eq_comm
    · intro condition
      exact ofText?_eq_ok_iff
    · intro condition condition'
      exact alternativesForm_unique
  · intro condition named
    constructor
    · obtain ⟨u, writes⟩ := exists_writes condition
      obtain ⟨text, spaced⟩ := exists_spacedOut u
      exact ⟨u, text, writes, spaced⟩
    · intro u text writes spaced
      exact ofText?_of_writes named writes spaced

/-- An alternative below a conjunction and a negated question beside it. -/
theorem alternative_in_conjunction_reads_back :
    Condition.ofText? "(A||B) &&!defined C".toList =
      .ok (.and (.or (.symbol "A") (.symbol "B")) (.not (.defined "C"))) := by
  have named : (Condition.and (.or (.symbol "A") (.symbol "B")) (.not (.defined "C"))).WellNamed :=
    ⟨⟨⟨by decide, by decide⟩, by decide, by decide⟩, (by decide : Text.isIdentifier ['C'] = true)⟩
  have writes : Writes (.and (.or (.symbol "A") (.symbol "B")) (.not (.defined "C"))) _ :=
    .and (.or .symbol .symbol) (.not .defined)
  have spaced : SpacedOut _ ([] ++ "(".toList ++ ([] ++ "A".toList ++ ([] ++ "||".toList ++
      ([] ++ "B".toList ++ ([] ++ ")".toList ++ ([' '] ++ "&&".toList ++ ([] ++ "!".toList ++
        ([] ++ "defined".toList ++ ([' '] ++ "C".toList ++ []))))))))) :=
    .cons (w := .openParen) rfl nofun <| .cons (w := .plain "A") rfl (by simp) <|
    .cons (w := .bars) rfl nofun <| .cons (w := .plain "B") rfl (by simp) <|
    .cons (w := .closeParen) rfl nofun <| .cons (w := .ampersands) rfl nofun <|
    .cons (w := .bang) rfl nofun <| .cons (w := .plain "defined") rfl (fun _ _ _ _ => rfl) <|
    .cons (w := .plain "C") rfl (by simp) <| .nil rfl
  exact (read_as_derived.2 _ named).2 _ _ writes spaced

end Condition

end InterfaceHeader
