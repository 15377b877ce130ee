import InterfaceHeader.Declaration.View
import InterfaceHeader.Proofs.Reading.Layout

/-!
# Two layouts of the same words

Tokens of the same kinds and texts in the same order are read alike wherever they stand: as the same
header, or with errors that say the same of the same token (`reading_ignores_layout`). Two things
about a layout do count (`layout_counts`). A comment directly behind another token belongs to it on
its line only, and blank space between the two does not come into this. And of two errors the one
further on is reported, so that a token at the last offset of all is told apart from the end of the
input by nothing.

The two readings are run side by side (`ofTokens?_matched`), with the places of tokens of one number
as related places.
-/

namespace InterfaceHeader

/-- The lists have tokens of the same kinds and texts in the same order. -/
def SameWords (ts ts' : List Token) : Prop :=
  ts.map Token.terminal = ts'.map Token.terminal

/-- Each token starts in front of those behind it. -/
def Ascending (ts : List Token) : Prop :=
  ts.Pairwise fun t u => t.position.offset < u.position.offset

/-- A comment directly behind another token starts on its line in both lists or in neither. -/
def SameTrailing : List Token → List Token → Prop
  | t :: u :: ts, t' :: u' :: ts' =>
    (t.isComment = false → u.isComment = true →
      (u.position.line = t.position.line ↔ u'.position.line = t'.position.line)) ∧
      SameTrailing (u :: ts) (u' :: ts')
  | _, _ => True

/-- The tokens other than blank space. -/
def visibleTokens (ts : List Token) : List Token :=
  ts.filter (·.kind != .blank)

/-- Tokens of one number are both in front of the last offset, or both not. -/
def SameEnd (ts ts' : List Token) : Prop :=
  List.Forall₂ (fun t t' => t.position.offset < SyntaxError.endDepth ↔
    t'.position.offset < SyntaxError.endDepth) ts ts'

/-- The places of two tokens with the same number. -/
def SameIndex (ts ts' : List Token) (p p' : Position) : Prop :=
  ∃ (i : Nat) (t t' : Token), ts[i]? = some t ∧ ts'[i]? = some t' ∧
    p = t.position ∧ p' = t'.position

instance (ts ts' : List Token) : Decidable (SameWords ts ts') :=
  inferInstanceAs (Decidable (ts.map Token.terminal = ts'.map Token.terminal))

instance (ts : List Token) : Decidable (Ascending ts) :=
  inferInstanceAs (Decidable (ts.Pairwise fun t u => t.position.offset < u.position.offset))

instance decidableSameTrailing : (ts ts' : List Token) → Decidable (SameTrailing ts ts')
  | _ :: u :: ts, _ :: u' :: ts' =>
    have := decidableSameTrailing (u :: ts) (u' :: ts')
    inferInstanceAs (Decidable ((_ → _ → (_ ↔ _)) ∧ SameTrailing (u :: ts) (u' :: ts')))
  | [], _ | [_], _ | _ :: _ :: _, [] | _ :: _ :: _, [_] => isTrue trivial

variable {ts ts' : List Token}

/-- Tokens start in the order of their numbers. -/
theorem Ascending.offset_lt_iff (ascending : Ascending ts) {i j : Nat} {t u : Token}
    (first : ts[i]? = some t) (second : ts[j]? = some u) :
    t.position.offset < u.position.offset ↔ i < j := by
  obtain ⟨below, rfl⟩ := List.getElem?_eq_some_iff.mp first
  obtain ⟨below', rfl⟩ := List.getElem?_eq_some_iff.mp second
  have before := List.pairwise_iff_getElem.mp ascending
  rcases Nat.lt_trichotomy i j with less | rfl | greater
  · exact iff_of_true (before i j below below' less) less
  · exact iff_of_false (Nat.lt_irrefl _) (Nat.lt_irrefl _)
  · exact iff_of_false (Nat.lt_asymm (before j i below' below greater)) (Nat.lt_asymm greater)

theorem Ascending.position_eq_iff (ascending : Ascending ts) {i j : Nat} {t u : Token}
    (first : ts[i]? = some t) (second : ts[j]? = some u) :
    t.position = u.position ↔ i = j := by
  constructor
  · intro same
    have least : ¬ u.position.offset < u.position.offset := Nat.lt_irrefl _
    have notLess := mt (ascending.offset_lt_iff first second).mpr (same ▸ least)
    have notGreater := mt (ascending.offset_lt_iff second first).mpr (same ▸ least)
    omega
  · rintro rfl
    rw [Option.some.inj (first.symm.trans second)]

theorem orderly_sameIndex (ascending : Ascending ts) (ascending' : Ascending ts')
    (ends : SameEnd ts ts') : Orderly (SameIndex ts ts') where
  lt_iff := by
    rintro p p' q q' ⟨i, t, t', first, first', rfl, rfl⟩ ⟨j, u, u', second, second', rfl, rfl⟩
    rw [ascending.offset_lt_iff first second, ascending'.offset_lt_iff first' second']
  eq_iff := by
    rintro p p' q q' ⟨i, t, t', first, first', rfl, rfl⟩ ⟨j, u, u', second, second', rfl, rfl⟩
    rw [ascending.position_eq_iff first second, ascending'.position_eq_iff first' second']
  before_end := by
    rintro p p' ⟨i, t, t', first, first', rfl, rfl⟩
    obtain ⟨below, rfl⟩ := List.getElem?_eq_some_iff.mp first
    obtain ⟨below', rfl⟩ := List.getElem?_eq_some_iff.mp first'
    exact (List.forall₂_iff_get.mp ends).2 i below below'

/-- Tokens of the same words are alike one by one. -/
theorem SameWords.alike (words : SameWords ts ts') :
    List.Forall₂ (Token.Alike (SameIndex ts ts')) ts ts' := by
  have length : ts.length = ts'.length := by simpa using congrArg List.length words
  refine List.forall₂_iff_get.mpr ⟨length, fun i below below' => ?_⟩
  have same : ts[i].terminal = ts'[i].terminal := by
    have each := congrArg (·[i]?) words
    simpa [below, below'] using each
  refine ⟨congrArg Terminal.kind same, congrArg Terminal.lexeme same, i, ts[i], ts'[i], ?_, ?_,
    rfl, rfl⟩
  · exact List.getElem?_eq_getElem below
  · exact List.getElem?_eq_getElem below'

/-- Tokens that are alike one by one match if the same comments trail a token. -/
theorem SameTrailing.matched {Place : Position → Position → Prop}
    (alike : List.Forall₂ (Token.Alike Place) ts ts') (trailing : SameTrailing ts ts') :
    Matched Place ts ts' := by
  induction alike with
  | nil => exact .nil
  | @cons t t' _ _ first rest ih =>
      cases rest with
      | nil => exact .cons first (fun _ => rfl) .nil
      | @cons u u' _ _ next _ =>
          obtain ⟨here, later⟩ := trailing
          refine .cons first (fun significant => ?_) (ih later)
          rw [Token.isTrailed, Token.isTrailed, ← next.isComment_eq]
          cases comment : u.isComment with
          | false => rfl
          | true =>
              rw [Bool.true_and, Bool.true_and, Bool.eq_iff_iff, beq_iff_eq, beq_iff_eq]
              exact here significant comment

/-- Tokens of the same words in two layouts are read as the same header, or refused with errors
    that say the same and stand at the same token or at the end. In both lists the tokens start one
    behind the other, with or without one at the last offset, and the same comments stand on the
    line of the token in front of them, blank space not counted. -/
theorem reading_ignores_layout (words : SameWords ts ts') (ascending : Ascending ts)
    (ascending' : Ascending ts') (ends : SameEnd ts ts')
    (trailing : SameTrailing (visibleTokens ts) (visibleTokens ts')) :
    (∃ h, Header.ofTokens? ts = .ok h ∧ Header.ofTokens? ts' = .ok h) ∨
      ∃ e e', Header.ofTokens? ts = .error e ∧ Header.ofTokens? ts' = .error e' ∧
        e.Alike (SameIndex ts ts') e' := by
  have visible : List.Forall₂ (Token.Alike (SameIndex ts ts')) (visibleTokens ts)
      (visibleTokens ts') := by
    refine List.rel_filter (fun t t' alike => ?_) words.alike
    dsimp only
    rw [alike.kind]
  exact ofTokens?_matched (orderly_sameIndex ascending ascending' ends)
    (trailing.matched visible)

/-- The start of an enumeration with a semicolon in place of its brace. Its comment and all that
    follows it stand on the given line, further on by bytes. -/
def unclosedTokens (line bytes : Nat) : List Token :=
  [⟨.keyword .typedef, "typedef", ⟨0, 1, 1⟩⟩, ⟨.keyword .enum, "enum", ⟨8, 1, 9⟩⟩,
    ⟨.punct .leftBrace, "\x7b", ⟨13, 1, 14⟩⟩, ⟨.identifier, "A", ⟨15, 1, 16⟩⟩,
    ⟨.punct .comma, ",", ⟨16, 1, 17⟩⟩, ⟨.blank, "\n", ⟨17, 1, 18⟩⟩,
    ⟨.comment, "/* last */", ⟨18 + bytes, line, 1⟩⟩,
    ⟨.punct .semicolon, ";", ⟨28 + bytes, line, 11⟩⟩]

/-- On the second line or on the fifth, the semicolon is refused in the same way. -/
theorem unclosedTokens_relaid :
    ∃ e e', Header.ofTokens? (unclosedTokens 2 0) = .error e ∧
      Header.ofTokens? (unclosedTokens 5 7) = .error e' ∧
      e.Alike (SameIndex (unclosedTokens 2 0) (unclosedTokens 5 7)) e' := by
  have ends : SameEnd (unclosedTokens 2 0) (unclosedTokens 5 7) :=
    List.forall₂_iff_get.mpr ⟨rfl, by decide⟩
  have refused : (Header.ofTokens? (unclosedTokens 2 0)).isOk = false := by decide +kernel
  rcases reading_ignores_layout (by decide) (by decide) (by decide) ends
    (by decide) with ⟨h, read, -⟩ | alike
  · rw [read] at refused
    cases refused
  · exact alike

/-- A name behind `typedef`, at a given offset. -/
def nameTokens (offset : Nat) : List Token :=
  [⟨.keyword .typedef, "typedef", ⟨0, 1, 1⟩⟩, ⟨.identifier, "X", ⟨offset, 1, 9⟩⟩]

/-- An enumeration with a comment behind its constant, the blank space between the two and the
    comment on a given line. -/
def annotatedTokens (line : Nat) : List Token :=
  [⟨.keyword .typedef, "typedef", ⟨0, 1, 1⟩⟩, ⟨.keyword .enum, "enum", ⟨8, 1, 9⟩⟩,
    ⟨.punct .leftBrace, "\x7b", ⟨13, 1, 14⟩⟩, ⟨.identifier, "A", ⟨15, 1, 16⟩⟩,
    ⟨.blank, " ", ⟨16, line, 17⟩⟩, ⟨.comment, "// c", ⟨17, line, 18⟩⟩,
    ⟨.punct .rightBrace, "\x7d", ⟨22, 3, 1⟩⟩, ⟨.identifier, "E", ⟨24, 3, 3⟩⟩,
    ⟨.punct .semicolon, ";", ⟨25, 3, 4⟩⟩]

/-- At the last offset an error at a token is as deep as one at the end of the input. And a comment
    that stands on the line of the blank space in front of it need not stand on the line of the
    token in front of that. -/
theorem layout_counts :
    (SameWords (nameTokens 8) (nameTokens SyntaxError.endDepth) ∧ Ascending (nameTokens 8) ∧
      Ascending (nameTokens SyntaxError.endDepth) ∧
      SameTrailing (nameTokens 8) (nameTokens SyntaxError.endDepth) ∧
      (Header.ofTokens? (nameTokens 8)).map Header.enums =
        .error ⟨none, "end of input", ["identifier", "'('"]⟩ ∧
      (Header.ofTokens? (nameTokens SyntaxError.endDepth)).map Header.enums =
        .error ⟨some ⟨SyntaxError.endDepth, 1, 9⟩, "identifier 'X'",
          ["'enum'", "identifier", "'('", "'struct'"]⟩) ∧
    SameWords (annotatedTokens 1) (annotatedTokens 2) ∧ Ascending (annotatedTokens 1) ∧
      Ascending (annotatedTokens 2) ∧ SameTrailing (annotatedTokens 1) (annotatedTokens 2) ∧
      (Header.ofTokens? (annotatedTokens 1)).map Header.enums =
        .ok [⟨some "E", [⟨"A", none, some "// c"⟩]⟩] ∧
      (Header.ofTokens? (annotatedTokens 2)).map Header.enums =
        .ok [⟨some "E", [⟨"A", none, none⟩]⟩] := by
  decide +kernel

end InterfaceHeader
