import InterfaceHeader.Proofs.Grammar.Form
import InterfaceHeader.Proofs.Token.Shapes

/-!
# Texts that spell terminals

`Lexes cs u` says of a whole text that its tokens, blank space apart, are the terminals `u`, with
no comment among them; a scan of such a text finds just them, wherever it starts. A written text is
put together from pieces: a piece that is closed spells its terminals whatever follows it, a piece
that is open does so unless a word goes on behind it. What divides words can follow an open piece.
-/

namespace InterfaceHeader

/-- The tokens of a text other than blank space, none of them a comment. -/
inductive Lexes : List Char → List Terminal → Prop where
  | nil : Lexes [] []
  | blank {c : Char} {cs : List Char} {u : List Terminal} :
      Text.isBlank c = true → Lexes cs u → Lexes (c :: cs) u
  | token {c : Char} {cs : List Char} {u : List Terminal} {kind : TokenKind} {reach : Nat} :
      firstMatch? rules c cs = some (kind, reach) → kind ≠ .blank → kind ≠ .comment →
      Lexes (cs.drop reach) u →
      Lexes (c :: cs) (⟨kind, String.ofList (c :: cs.take reach)⟩ :: u)

/-! ## Blank space among the rules -/

/-- The visible characters of ASCII are not blank. -/
theorem Text.not_blank_of_range {c : Char} (low : 33 ≤ c.toNat) (high : c.toNat ≤ 126) :
    Text.isBlank c = false := by
  simp only [Text.isBlank, Text.blankRanges, List.any_cons, List.any_nil, Bool.or_false,
    Bool.or_eq_false_iff, Bool.and_eq_false_iff, decide_eq_false_iff_not]
  omega

theorem Text.not_blank_of_isWordChar {c : Char} (word : Text.isWordChar c = true) :
    Text.isBlank c = false := by
  simp only [Text.isWordChar, Char.isAlphanum, Bool.or_eq_true, beq_iff_eq] at word
  rcases word with (letter | digit) | rfl
  · obtain ⟨low, high⟩ := Text.range_of_isAlpha letter
    exact not_blank_of_range (Nat.le_trans (by decide) low) (Nat.le_trans high (by decide))
  · obtain ⟨low, high⟩ := Char.isDigit_iff_toNat.mp digit
    exact not_blank_of_range (Nat.le_trans (by decide) low) (Nat.le_trans high (by decide))
  · decide

theorem Text.isWordChar_of_isDigit {c : Char} (digit : c.isDigit = true) :
    Text.isWordChar c = true := by
  simp [Text.isWordChar, Char.isAlphanum, digit]

/-- A token other than blank space does not start with a blank. -/
theorem TokenKind.Spells.not_blank {kind : TokenKind} {c : Char} {cs : List Char}
    (spells : kind.Spells (c :: cs)) (other : kind ≠ .blank) : Text.isBlank c = false := by
  cases kind with
  | keyword word =>
      have first := congrArg List.head? spells
      cases word <;> cases Option.some.inj first <;> decide
  | punct mark =>
      cases (List.cons.inj spells).1
      cases mark <;> decide
  | identifier =>
      have start := (Bool.and_eq_true_iff.mp spells.1).1
      exact Text.not_blank_of_isWordChar (Text.isWordChar_of_isWordStart start)
  | integer =>
      obtain ⟨_, _, same, first, _⟩ := spells
      cases same
      rcases first with digit | rfl | rfl
      · exact Text.not_blank_of_isWordChar (Text.isWordChar_of_isDigit digit)
      · decide
      · decide
  | comment =>
      cases Option.some.inj spells
      decide
  | blank => exact absurd rfl other

/-- Where a blank stands, the token is the whole run of blanks. -/
theorem firstMatch?_blank {c : Char} (blank : Text.isBlank c = true) (cs : List Char) :
    firstMatch? rules c cs = some (.blank, (cs.takeWhile Text.isBlank).length) := by
  have reaches := reach?_blank blank cs
  obtain ⟨rule, mem, reach, fit, found⟩ :=
    exists_firstMatch? blank_mem_rules (by rw [reaches]; rfl)
  have kind : rule.kind = .blank := by
    by_cases same : rule.kind = .blank
    · exact same
    · rw [(spells_of_firstMatch? found).not_blank same] at blank
      cases blank
  rw [found]
  rcases mem_rules mem with ⟨word, rfl⟩ | ⟨mark, rfl⟩ | rfl | rfl | rfl | rfl
  · cases kind
  · cases kind
  · cases kind
  · cases kind
  · cases kind
  · cases reaches.symm.trans fit
    rfl

/-! ## Scanning what lexes -/

/-- The terminals of tokens, comments included. -/
def wordsOf (tokens : List Token) : List Terminal :=
  (tokens.filter (·.kind != .blank)).map Token.terminal

/-- A scan from the place covers the text and finds the terminals. -/
def FoundAt (cs : List Char) (u : List Terminal) (p : Position) : Prop :=
  (Scanner.scan rules ⟨cs, p⟩).2.rest = [] ∧ wordsOf (Scanner.scan rules ⟨cs, p⟩).1 = u

/-- Blanks in front of a text are passed over. -/
theorem foundAt_of_trimStart {cs : List Char} {u : List Terminal}
    (found : ∀ p, FoundAt (Text.trimStart cs) u p) (p : Position) : FoundAt cs u p := by
  cases cs with
  | nil => exact found p
  | cons c cs =>
      cases blank : Text.isBlank c with
      | false =>
          have same : Text.trimStart (c :: cs) = c :: cs := by
            rw [Text.trimStart, List.dropWhile_cons, blank]
            rfl
          rw [same] at found
          exact found p
      | true =>
          have trimmed : Text.trimStart (c :: cs) = cs.drop (cs.takeWhile Text.isBlank).length := by
            rw [Text.trimStart, List.dropWhile_cons, blank, if_pos rfl, drop_length_takeWhile]
          rw [trimmed] at found
          obtain ⟨rest, words⟩ :=
            found (p.advance (c :: cs.take (cs.takeWhile Text.isBlank).length))
          unfold FoundAt
          rw [Scanner.scan_some (firstMatch?_blank blank cs)]
          exact ⟨rest, words⟩

/-- A scan of a text that lexes finds its terminals. -/
theorem Lexes.foundAt {cs : List Char} {u : List Terminal} (lexes : Lexes cs u) (p : Position) :
    FoundAt cs u p := by
  refine foundAt_of_trimStart ?_ p
  induction lexes with
  | nil =>
      intro p
      unfold FoundAt
      rw [show Text.trimStart [] = [] from rfl, Scanner.scan_nil]
      exact ⟨rfl, rfl⟩
  | @blank c cs u blank _ ih =>
      have trimmed : Text.trimStart (c :: cs) = Text.trimStart cs := by
        rw [Text.trimStart, List.dropWhile_cons, blank]
        rfl
      rwa [trimmed]
  | @token c cs u kind reach fit blank comment _ ih =>
      intro p
      have visible := (spells_of_firstMatch? fit).not_blank blank
      have trimmed : Text.trimStart (c :: cs) = c :: cs := by
        rw [Text.trimStart, List.dropWhile_cons, visible]
        rfl
      obtain ⟨rest, words⟩ := foundAt_of_trimStart ih (p.advance (c :: cs.take reach))
      unfold FoundAt
      rw [trimmed, Scanner.scan_some fit]
      refine ⟨rest, ?_⟩
      rw [wordsOf, List.filter_cons, if_pos (bne_iff_ne.mpr blank), List.map_cons]
      exact congrArg _ words

theorem Lexes.no_comment {cs : List Char} {u : List Terminal} (lexes : Lexes cs u) :
    ∀ x ∈ u, x.kind ≠ .comment := by
  induction lexes with
  | nil => exact nofun
  | blank _ _ ih => exact ih
  | token _ _ comment _ ih =>
      intro x mem
      rcases List.mem_cons.mp mem with rfl | mem
      · exact comment
      · exact ih x mem

/-- A text that lexes has tokens: those of its terminals. -/
theorem Lexes.tokenize {cs : List Char} {u : List Terminal} (lexes : Lexes cs u) :
    ∃ tokens, InterfaceHeader.tokenize cs = .ok tokens ∧ tokens.map Token.terminal = u ∧
      ∀ t ∈ tokens, t.kind ≠ .blank ∧ t.kind ≠ .comment := by
  obtain ⟨rest, words⟩ := lexes.foundAt .start
  refine ⟨_, ?_, words, ?_⟩
  · unfold InterfaceHeader.tokenize Scanner.tokenize Scanner.ofText
    simp only [rest]
  · intro t mem
    refine ⟨bne_iff_ne.mp (List.mem_filter.mp mem).2, ?_⟩
    exact lexes.no_comment t.terminal (words ▸ List.mem_map_of_mem mem)

end InterfaceHeader
