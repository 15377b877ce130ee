import InterfaceHeader.Proofs.Token.Shapes

/-!
# How tokens stand in a text

The tokens of a text stand in it one behind the other, with nothing but blank space in front of
them, between them and behind them, and each knows the place where it stands. This holds of a
text that scanning reads to its end, and of the text in front of the place where scanning fails.
A scanner stays where it has come to, so that further calls fail in the same way, or find nothing
more.
-/

namespace InterfaceHeader

/-- The first rule that fits in front of `lexeme ++ rest` takes the lexeme off it. -/
def TokenKind.Heads (kind : TokenKind) (lexeme rest : List Char) : Prop :=
  ∃ c cs reach, lexeme = c :: cs ∧ firstMatch? rules c (cs ++ rest) = some (kind, reach) ∧
    (cs ++ rest).take reach = cs

/-- The tokens stand in a text, with blank space around them. The text lies between two others,
    `before` and `after`. -/
inductive Spread (after : List Char) : List Char → List Char → List Token → Prop where
  | blanks {before gap : List Char} :
      (∀ c ∈ gap, Text.isBlank c = true) → Spread after before gap []
  | token {before gap lexeme more : List Char} {t : Token} {tokens : List Token} :
      (∀ c ∈ gap, Text.isBlank c = true) →
      t.lexeme = String.ofList lexeme → t.kind ≠ .blank → t.kind.Heads lexeme (more ++ after) →
      t.position = Position.behind (before ++ gap) →
      Spread after (before ++ gap ++ lexeme) more tokens →
      Spread after before (gap ++ lexeme ++ more) (t :: tokens)

namespace Spread

/-- Blank space may stand in front. -/
theorem prepend {after before gap text : List Char} {tokens : List Token}
    (blank : ∀ c ∈ gap, Text.isBlank c = true)
    (spread : Spread after (before ++ gap) text tokens) :
    Spread after before (gap ++ text) tokens := by
  have both {more : List Char} (blanks : ∀ c ∈ more, Text.isBlank c = true) :
      ∀ c ∈ gap ++ more, Text.isBlank c = true := by
    intro c mem
    rcases List.mem_append.mp mem with mem | mem
    · exact blank c mem
    · exact blanks c mem
  cases spread with
  | blanks blanks => exact .blanks (both blanks)
  | @token _ inner lexeme more t tokens blanks text kind heads place rest =>
      have whole := Spread.token (both blanks) text kind heads (by simpa using place)
        (by simpa using rest)
      simpa using whole

/-- A token may stand in front. -/
theorem front {after before lexeme text : List Char} {tokens : List Token}
    (spread : Spread after (before ++ lexeme) text tokens) (t : Token)
    (spelt : t.lexeme = String.ofList lexeme) (visible : t.kind ≠ .blank)
    (heads : t.kind.Heads lexeme (text ++ after)) (place : t.position = Position.behind before) :
    Spread after before (lexeme ++ text) (t :: tokens) := by
  have nothing : ∀ c ∈ ([] : List Char), Text.isBlank c = true := nofun
  have whole := Spread.token nothing spelt visible heads (by simpa using place)
    (by simpa using spread)
  simpa using whole

/-- A token of the text starts no earlier than the text does. -/
theorem offset_le {after before text : List Char} {tokens : List Token}
    (spread : Spread after before text tokens) :
    ∀ t ∈ tokens, (Position.behind before).offset ≤ t.position.offset := by
  have grows (before more : List Char) :
      (Position.behind before).offset ≤ (Position.behind (before ++ more)).offset := by
    simp [Position.behind]
  induction spread with
  | blanks _ => exact nofun
  | @token before gap lexeme more t tokens _ _ _ _ place _ ih =>
      intro u mem
      rcases List.mem_cons.mp mem with rfl | mem
      · rw [place]
        exact grows before gap
      · have later := ih u mem
        rw [List.append_assoc] at later
        exact Nat.le_trans (grows before _) later

/-- No token is empty. -/
theorem lexeme_ne {after before text : List Char} {tokens : List Token}
    (spread : Spread after before text tokens) : ∀ t ∈ tokens, t.lexeme ≠ "" := by
  induction spread with
  | blanks _ => exact nofun
  | token _ text _ heads _ _ ih =>
      intro u mem
      rcases List.mem_cons.mp mem with rfl | mem
      · obtain ⟨c, cs, _, rfl, _⟩ := heads
        rw [text]
        intro empty
        cases String.ofList_eq_empty_iff.mp empty
      · exact ih u mem

/-- Each token ends before the tokens behind it start. -/
theorem pairwise {after before text : List Char} {tokens : List Token}
    (spread : Spread after before text tokens) :
    tokens.Pairwise fun t u =>
      t.position.offset + t.lexeme.utf8ByteSize ≤ u.position.offset := by
  induction spread with
  | blanks _ => exact .nil
  | @token before gap lexeme more t tokens _ text _ _ place rest ih =>
      refine List.Pairwise.cons ?_ ih
      intro u mem
      have ends : t.position.offset + t.lexeme.utf8ByteSize =
          (Position.behind (before ++ gap ++ lexeme)).offset := by
        simp [place, text, Position.behind, Nat.add_assoc]
      rw [ends]
      exact rest.offset_le u mem

end Spread

namespace Scanner

/-- The tokens that a scan finds, blank space apart, stand in the text that it reads. -/
theorem scan_spread (before rest : List Char) :
    let found := Scanner.scan rules ⟨rest, Position.behind before⟩
    Spread found.2.rest before (lexemes found.1) (found.1.filter (·.kind != .blank)) := by
  induction length : rest.length using Nat.strongRecOn generalizing before rest with
  | ind n ih =>
      cases rest with
      | nil =>
          rw [scan_nil]
          exact .blanks nofun
      | cons c cs =>
          cases fit : firstMatch? rules c cs with
          | none =>
              rw [scan_none fit]
              exact .blanks nofun
          | some found =>
              obtain ⟨kind, reach⟩ := found
              obtain ⟨lexeme, cut⟩ : ∃ lexeme, c :: cs.take reach = lexeme := ⟨_, rfl⟩
              have shorter : (cs.drop reach).length < n := by
                rw [← length, List.length_drop, List.length_cons]
                omega
              have later := ih _ shorter (before ++ lexeme) (cs.drop reach) rfl
              have whole : cs.drop reach = _ :=
                (scan_covers rules ⟨cs.drop reach, .behind (before ++ lexeme)⟩).text
              have spells := spells_of_firstMatch? fit
              rw [scan_some fit, Position.advance_behind, cut]
              rw [cut] at spells
              generalize scan rules ⟨cs.drop reach, .behind (before ++ lexeme)⟩ = found at *
              by_cases blank : kind = .blank
              · rw [blank] at spells
                simpa [blank, lexemes] using later.prepend (List.all_eq_true.mp spells.2)
              · have heads : kind.Heads lexeme (lexemes found.1 ++ found.2.rest) := by
                  refine ⟨c, cs.take reach, reach, cut.symm, ?_, ?_⟩
                  · rwa [← whole, List.take_append_drop]
                  · rw [← whole, List.take_append_drop]
                have first := later.front ⟨kind, String.ofList lexeme, .behind before⟩ rfl blank
                  heads rfl
                simpa [blank, lexemes] using first

/-- A scan that comes to the end of the text. -/
theorem tokenize_of_end {s : Scanner} {tokens : List Token} {p : Position}
    (found : s.scan rules = (tokens, ⟨[], p⟩)) :
    s.tokenize = (.ok (tokens.filter (·.kind != .blank)), ⟨[], p⟩) := by
  simp only [tokenize, found]

/-- A scan that comes to a character where no rule fits. -/
theorem tokenize_of_unfit {s : Scanner} {tokens : List Token} {c : Char} {cs : List Char}
    {p : Position} (found : s.scan rules = (tokens, ⟨c :: cs, p⟩)) :
    s.tokenize = (.error ⟨p, c⟩, ⟨c :: cs, p⟩) := by
  simp only [tokenize, found]

/-- What the call of a number finds among calls on one scanner. -/
def answer (s : Scanner) : Nat → Except LexError (List Token)
  | 0 => s.tokenize.1
  | n + 1 => s.tokenize.2.answer n

/-- A scanner at the end of its text finds nothing, however often it is asked. -/
theorem answer_at_end (p : Position) (n : Nat) : answer ⟨[], p⟩ n = .ok [] := by
  have none : (Scanner.mk [] p).tokenize = (.ok [], ⟨[], p⟩) :=
    tokenize_of_end (scan_nil rules p)
  induction n with
  | zero => rw [answer, none]
  | succ n ih => rw [answer, none, ih]

/-- A scanner in front of a text where no rule fits fails in the same way, however often it is
    asked. -/
theorem answer_unfit {c : Char} {cs : List Char} (unfit : firstMatch? rules c cs = none)
    (p : Position) (n : Nat) : answer ⟨c :: cs, p⟩ n = .error ⟨p, c⟩ := by
  have stays : (Scanner.mk (c :: cs) p).tokenize = (.error ⟨p, c⟩, ⟨c :: cs, p⟩) :=
    tokenize_of_unfit (scan_none unfit p)
  induction n with
  | zero => rw [answer, stays]
  | succ n ih => rw [answer, stays, ih]

end Scanner

/-- Where scanning a text succeeds, its tokens stand in it with nothing but blank space around
    them, none of them is empty, they do not overlap, and further calls on the scanner find nothing
    more. Where it fails, the text in front of the place of the error is of this kind, no rule
    fits there, and further calls fail with the same error. -/
theorem tokenize_spread (text : List Char) :
    (∀ tokens, (Scanner.ofText text).answer 0 = .ok tokens →
      Spread [] [] text tokens ∧ (∀ t ∈ tokens, t.lexeme ≠ "") ∧
      (tokens.Pairwise fun t u =>
        t.position.offset + t.lexeme.utf8ByteSize ≤ u.position.offset) ∧
      ∀ n, (Scanner.ofText text).answer (n + 1) = .ok []) ∧
    ∀ e, (Scanner.ofText text).answer 0 = .error e →
      ∃ before after tokens, text = before ++ e.found :: after ∧
        e.position = Position.behind before ∧ Spread (e.found :: after) [] before tokens ∧
        (∀ t ∈ tokens, t.lexeme ≠ "") ∧
        (tokens.Pairwise fun t u =>
          t.position.offset + t.lexeme.utf8ByteSize ≤ u.position.offset) ∧
        (∀ rule ∈ rules, rule.pattern.reach? e.found after = none) ∧
        ∀ n, (Scanner.ofText text).answer (n + 1) = .error e := by
  have spread := Scanner.scan_spread [] text
  have covers := Scanner.scan_covers rules (.ofText text)
  obtain ⟨tokens, ⟨rest, p⟩, found⟩ :
      ∃ tokens stop, (Scanner.ofText text).scan rules = (tokens, stop) := ⟨_, _, rfl⟩
  have start : (⟨text, .behind []⟩ : Scanner) = .ofText text := rfl
  rw [found] at covers
  simp only [start, found] at spread
  cases rest with
  | nil =>
      have all := Scanner.tokenize_of_end found
      have whole : text = lexemes tokens ++ [] := covers.text
      rw [List.append_nil] at whole
      rw [← whole] at spread
      constructor
      · intro kept answered
        rw [Scanner.answer, all] at answered
        cases answered
        refine ⟨spread, spread.lexeme_ne, spread.pairwise, ?_⟩
        intro n
        rw [Scanner.answer, all]
        exact Scanner.answer_at_end p n
      · intro e answered
        rw [Scanner.answer, all] at answered
        cases answered
  | cons c cs =>
      have stuck := Scanner.tokenize_of_unfit found
      have unfit := covers.ends c cs rfl
      constructor
      · intro kept answered
        rw [Scanner.answer, stuck] at answered
        cases answered
      · intro e answered
        rw [Scanner.answer, stuck] at answered
        cases answered
        have place : p = Position.behind (lexemes tokens) := by
          rw [← Position.advance_start]
          exact covers.position
        refine ⟨lexemes tokens, cs, _, covers.text, place, spread, spread.lexeme_ne,
          spread.pairwise, ?_, ?_⟩
        · intro rule mem
          simpa using List.findSome?_eq_none_iff.mp unfit rule mem
        · intro n
          rw [Scanner.answer, stuck]
          exact Scanner.answer_unfit unfit p n

end InterfaceHeader
