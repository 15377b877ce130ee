import InterfaceHeader.Proofs.Token.Longest

/-!
# Maximal munch

A scan cuts the longest lexeme off again and again until the text ends or none starts there
(`Munches`). There is one way to do so, whatever the order in which the rules are tried
(`tokenize_maximalMunch`).
-/

namespace InterfaceHeader

variable {c : Char} {cs : List Char} {kind : TokenKind} {reach : Nat}

/-- Cutting off the longest lexeme again and again leads from a scanner over tokens to a scanner
in front of none. -/
inductive Munches : Scanner → List Token → Scanner → Prop where
  | stuck {s : Scanner} :
      (∀ (kind : TokenKind) (cs : List Char), kind.Lexeme cs → ¬ cs <+: s.rest) → Munches s [] s
  | token {s stop : Scanner} {lexeme rest : List Char} {kind : TokenKind} {tokens : List Token} :
      s.rest = lexeme ++ rest → Longest s.rest kind lexeme →
      Munches ⟨rest, s.position.advance lexeme⟩ tokens stop →
      Munches s (⟨kind, String.ofList lexeme, s.position⟩ :: tokens) stop

/-- There is one way to cut off longest lexemes. -/
theorem Munches.unique {s stop stop' : Scanner} {tokens tokens' : List Token}
    (munches : Munches s tokens stop) (munches' : Munches s tokens' stop') :
    tokens = tokens' ∧ stop = stop' := by
  induction munches generalizing tokens' stop' with
  | stuck none =>
      cases munches' with
      | stuck _ => exact ⟨rfl, rfl⟩
      | token _ longest _ => exact absurd longest.starts (none _ _ longest.spelt)
  | token whole longest _ ih =>
      cases munches' with
      | stuck none => exact absurd longest.starts (none _ _ longest.spelt)
      | token whole' longest' munches' =>
          obtain ⟨rfl, rfl⟩ := longest.unique longest'
          obtain rfl := List.append_cancel_left (whole.symm.trans whole')
          obtain ⟨rfl, rfl⟩ := ih munches'
          exact ⟨rfl, rfl⟩

/-! ## A whole scan -/

/-- The scan comes from one scanner to the other. -/
inductive Reaches : Scanner → Scanner → Prop where
  | here (s : Scanner) : Reaches s s
  | token {c : Char} {cs : List Char} {kind : TokenKind} {reach : Nat} {p : Position}
      {s : Scanner} :
      firstMatch? rules c cs = some (kind, reach) →
      Reaches ⟨cs.drop reach, p.advance (c :: cs.take reach)⟩ s → Reaches ⟨c :: cs, p⟩ s

/-- A scan cuts off longest lexemes, and comes to the place where it stops. -/
theorem scan_munches (s : Scanner) :
    Munches s (s.scan rules).1 (s.scan rules).2 ∧ Reaches s (s.scan rules).2 := by
  obtain ⟨rest, p⟩ := s
  induction rest, p using @Scanner.scan_induction rules with
  | nil p =>
      rw [Scanner.scan_nil]
      exact ⟨.stuck fun kind cs spelt starts => spelt.ne_nil (List.prefix_nil.mp starts), .here _⟩
  | unfit c cs p unfit =>
      rw [Scanner.scan_none unfit]
      refine ⟨.stuck fun kind cs spelt starts => ?_, .here _⟩
      obtain ⟨_, _, found, _⟩ := munch?_of_lexeme spelt starts
      rw [firstMatch?_eq_munch? reordered_rules, found] at unfit
      cases unfit
  | fit c cs p kind reach fit later =>
      have whole : c :: cs = c :: cs.take reach ++ cs.drop reach := by
        rw [List.cons_append, List.take_append_drop]
      rw [Scanner.scan_some fit]
      refine ⟨.token whole ?_ later.1, .token fit later.2⟩
      rw [firstMatch?_eq_munch? reordered_rules] at fit
      exact longest_of_munch? fit

/-- A scan stops where it stops when it starts from a place that it comes to. -/
theorem Reaches.stop {s t : Scanner} (reaches : Reaches s t) :
    (t.scan rules).2 = (s.scan rules).2 := by
  induction reaches with
  | here s => rfl
  | token fit _ ih => rw [ih, Scanner.scan_some fit]

/-- What a token may start with: a blank, a letter, a digit or an underscore, a punctuation mark, a
sign in front of a digit, or a slash that starts a comment. -/
def Starts (c : Char) (cs : List Char) : Prop :=
  Text.isBlank c = true ∨ c.isAlphanum = true ∨ c = '_' ∨
    c ∈ ['{', '}', ';', ',', '"', '(', ')', '*', '='] ∨
    ((c = '+' ∨ c = '-') ∧ ∃ d rest, cs = d :: rest ∧ d.isDigit = true) ∨
    c = '/' ∧ ((∃ body, cs = '/' :: body) ∨ ∃ body rest, cs = '*' :: body ++ '*' :: '/' :: rest)

theorem blockEnd?_isSome (n : Nat) (body rest : List Char) :
    (blockEnd? n (body ++ '*' :: '/' :: rest)).isSome = true := by
  induction body generalizing n with
  | nil => rfl
  | cons c body ih =>
      rw [List.cons_append, blockEnd?.eq_def]
      split
      case h_1 none => cases none
      case h_2 => rfl
      case h_3 same =>
        obtain ⟨rfl, rfl⟩ := List.cons.inj same
        exact ih (n + 1)

theorem Punct.exists_char : c ∈ ['{', '}', ';', ',', '"', '(', ')', '*', '='] ↔
    ∃ mark : Punct, c = mark.char := by
  constructor
  · simp only [List.mem_cons, List.not_mem_nil, or_false]
    rintro (rfl | rfl | rfl | rfl | rfl | rfl | rfl | rfl | rfl)
    exacts [⟨.leftBrace, rfl⟩, ⟨.rightBrace, rfl⟩, ⟨.semicolon, rfl⟩, ⟨.comma, rfl⟩, ⟨.quote, rfl⟩,
      ⟨.leftParen, rfl⟩, ⟨.rightParen, rfl⟩, ⟨.star, rfl⟩, ⟨.equals, rfl⟩]
  · rintro ⟨mark, rfl⟩
    cases mark <;> decide

theorem munch?_of_starts (starts : Starts c cs) : ∃ found, munch? c cs = some found := by
  rcases starts with blank | alphanumeric | rfl | listed | signed | ⟨rfl, comment⟩
  · exact ⟨_, munch?_blank blank cs⟩
  · rcases Bool.or_eq_true_iff.mp alphanumeric with letter | digit
    · exact ⟨_, munch?_word (Bool.or_eq_true_iff.mpr (.inl letter)) cs⟩
    · exact ⟨_, munch?_digit digit cs⟩
  · exact ⟨_, munch?_word (by decide) cs⟩
  · obtain ⟨mark, rfl⟩ := Punct.exists_char.mp listed
    exact ⟨_, munch?_mark mark cs⟩
  · obtain ⟨sign, d, rest, rfl, digit⟩ := signed
    exact ⟨_, munch?_sign sign digit rest⟩
  · rw [munch?_slash]
    rcases comment with ⟨body, rfl⟩ | ⟨body, rest, rfl⟩
    · exact ⟨_, rfl⟩
    · obtain ⟨reach, fit⟩ := Option.isSome_iff_exists.mp (blockEnd?_isSome 1 body rest)
      exact ⟨_, congrArg (Option.map fun reach => (TokenKind.comment, reach)) fit⟩

theorem starts_of_munch? (found : munch? c cs = some (kind, reach)) : Starts c cs := by
  obtain ⟨rule, mem, rfl, fit⟩ := reach?_of_munch? found
  have first := mayStart_of_reach? mem (by rw [fit]; rfl)
  have ofWord (start : Text.isWordStart c = true) : Starts c cs := by
    rcases Bool.or_eq_true_iff.mp start with letter | underscore
    · exact .inr (.inl (Bool.or_eq_true_iff.mpr (.inl letter)))
    · exact .inr (.inr (.inl (beq_iff_eq.mp underscore)))
  rcases mem_rules mem with ⟨word, rfl⟩ | ⟨mark, rfl⟩ | rfl | rfl | rfl | rfl
  · exact ofWord (Keyword.isWordStart (beq_iff_eq.mp first))
  · exact .inr (.inr (.inr (.inl (Punct.exists_char.mpr ⟨mark, beq_iff_eq.mp first⟩))))
  · exact ofWord first
  · rcases (reach?_integer_eq_some fit).1 with digit | sign
    · exact .inr (.inl (Bool.or_eq_true_iff.mpr (.inr digit)))
    · exact .inr (.inr (.inr (.inr (.inl sign))))
  · obtain ⟨rfl, comment⟩ := commentReach?_eq_some fit
    refine .inr (.inr (.inr (.inr (.inr ⟨rfl, ?_⟩))))
    rcases comment with ⟨body, rfl, -⟩ | ⟨body, rfl, closed⟩
    · exact .inl ⟨body, rfl⟩
    · obtain ⟨inner, rest, rfl, -, -⟩ := blockEnd?_eq_some_iff.mp closed
      exact .inr ⟨inner, rest, rfl⟩
  · exact .inl first

/-- A token is found just where the text starts like one. -/
theorem firstMatch?_eq_none_iff : firstMatch? rules c cs = none ↔ ¬ Starts c cs := by
  rw [firstMatch?_eq_munch? reordered_rules]
  constructor
  · intro none starts
    obtain ⟨_, found⟩ := munch?_of_starts starts
    cases none.symm.trans found
  · intro unfit
    cases found : munch? c cs with
    | none => rfl
    | some _ => exact absurd (starts_of_munch? found) unfit

/-- Scanning fails just if it comes to a place where no token starts, and reports that place. -/
theorem tokenize_eq_error_iff {s : Scanner} {e : LexError} :
    s.tokenize.1 = .error e ↔
      ∃ after, Reaches s ⟨e.found :: after, e.position⟩ ∧ ¬ Starts e.found after := by
  obtain ⟨tokens, ⟨rest, p⟩, found⟩ : ∃ tokens stop, s.scan rules = (tokens, stop) := ⟨_, _, rfl⟩
  constructor
  · intro failed
    have reaches := (scan_munches s).2
    have covers := Scanner.scan_covers rules s
    rw [found] at reaches covers
    cases rest with
    | nil =>
        rw [Scanner.tokenize_of_end found] at failed
        cases failed
    | cons c cs =>
        rw [Scanner.tokenize_of_unfit found] at failed
        cases failed
        exact ⟨cs, reaches, firstMatch?_eq_none_iff.mp (covers.ends c cs rfl)⟩
  · rintro ⟨after, reaches, unfit⟩
    have stop := reaches.stop
    rw [Scanner.scan_none (firstMatch?_eq_none_iff.mpr unfit), found] at stop
    rw [Scanner.tokenize_of_unfit (found.trans (congrArg _ stop.symm))]

/-- The tokens by other rules. -/
def Scanner.tokenizeBy (rs : List Rule) (s : Scanner) :
    Except LexError (List Token) × Scanner :=
  let (tokens, stop) := s.scan rs
  match stop.rest with
  | [] => (.ok (tokens.filter (·.kind != .blank)), stop)
  | c :: _ => (.error ⟨stop.position, c⟩, stop)

theorem scan_reordered {rs : List Rule} (order : Reordered rs) (s : Scanner) :
    s.scan rs = s.scan rules := by
  obtain ⟨rest, p⟩ := s
  have same (c : Char) (cs : List Char) : firstMatch? rs c cs = firstMatch? rules c cs := by
    rw [firstMatch?_eq_munch? order, firstMatch?_eq_munch? reordered_rules]
  induction rest, p using @Scanner.scan_induction rules with
  | nil p => rw [Scanner.scan_nil, Scanner.scan_nil]
  | unfit c cs p unfit =>
      rw [Scanner.scan_none unfit, Scanner.scan_none ((same c cs).trans unfit)]
  | fit c cs p kind reach fit later =>
      rw [Scanner.scan_some fit, Scanner.scan_some ((same c cs).trans fit), later]

theorem tokenizeBy_reordered {rs : List Rule} (order : Reordered rs) (s : Scanner) :
    s.tokenizeBy rs = s.tokenize := by
  rw [Scanner.tokenizeBy, scan_reordered order]
  rfl

/-! ## The lexer is that of maximal munch -/

/-- What is known of the token at the start of `c :: cs`. -/
structure Taken (c : Char) (cs : List Char) (kind : TokenKind) (reach : Nat) : Prop where
  /-- It is the longest lexeme there. -/
  longest : Longest (c :: cs) kind (c :: cs.take reach)
  /-- No rule that fits reaches further. -/
  furthest : ∀ rule ∈ rules, ∀ other, rule.pattern.reach? c cs = some other → other ≤ reach
  /-- It is a reserved word just if the whole run of word characters is. -/
  keyword : ∀ word, kind = .keyword word ↔
    c :: cs.takeWhile Text.isWordChar = word.text.toList
  /-- A line comment ends in front of the next newline or with the text. -/
  line : ∀ body, c :: cs = '/' :: '/' :: body → kind = .comment ∧
    c :: cs.take reach = '/' :: '/' :: body.takeWhile (· ≠ '\n')
  /-- A block comment ends with the first close mark behind its open mark. -/
  block : ∀ body rest, c :: cs = '/' :: '*' :: (body ++ ['*', '/']) ++ rest →
    ¬ ['*', '/'] <:+: body ++ ['*'] → kind = .comment ∧
    c :: cs.take reach = '/' :: '*' :: (body ++ ['*', '/'])

theorem taken_of_munch? (found : munch? c cs = some (kind, reach)) : Taken c cs kind reach where
  longest := longest_of_munch? found
  furthest rule mem other fit := by
    obtain ⟨_, found', -⟩ := munch?_of_reach? mem fit
    cases found.symm.trans found'
    exact Nat.le_refl _
  keyword word := by
    by_cases start : Text.isWordStart c = true
    · cases found.symm.trans (munch?_word start cs)
      exact wordKind_eq_keyword_iff
    · constructor
      · rintro rfl
        have spelt : c :: cs.take reach = word.text.toList := lexeme_of_munch? found
        exact absurd (Keyword.isWordStart (by rw [← spelt]; rfl)) start
      · intro run
        exact absurd (Keyword.isWordStart (by rw [← run]; rfl)) start
  line body text := by
    obtain ⟨rfl, rfl⟩ := List.cons.inj text
    rw [munch?_slash, commentReach?_line] at found
    cases found
    rw [Nat.add_comm, List.take_succ_cons, take_length_takeWhile]
    exact ⟨rfl, rfl⟩
  block body rest text unclosed := by
    rw [List.cons_append] at text
    obtain ⟨rfl, rfl⟩ := List.cons.inj text
    rw [munch?_slash, commentReach?_block unclosed] at found
    cases found
    exact ⟨rfl, congrArg _ (take_block body rest)⟩

/-- The tokens of a text are those of maximal munch: at every place that the scan comes to, the
token is the longest that any rule finds there, and the longest lexeme of any kind. Scanning fails
just where it comes to a character that starts no token. The order of the rules does not matter as
long as the reserved words come before the identifiers. -/
theorem tokenize_maximalMunch (text : List Char) :
    (∀ c cs p, Reaches (.ofText text) ⟨c :: cs, p⟩ →
      ∀ kind reach, firstMatch? rules c cs = some (kind, reach) → Taken c cs kind reach) ∧
    (∀ tokens stop, (Scanner.ofText text).scan rules = (tokens, stop) ↔
      Munches (.ofText text) tokens stop) ∧
    (∀ e, tokenize text = .error e ↔
      ∃ after, Reaches (.ofText text) ⟨e.found :: after, e.position⟩ ∧
        ¬ Starts e.found after) ∧
    ∀ rs, Reordered rs →
      (Scanner.ofText text).tokenizeBy rs = (Scanner.ofText text).tokenize := by
  refine ⟨fun c cs p _ kind reach fit => ?_, fun tokens stop => ⟨?_, ?_⟩,
    fun e => tokenize_eq_error_iff, fun rs order => tokenizeBy_reordered order _⟩
  · rw [firstMatch?_eq_munch? reordered_rules] at fit
    exact taken_of_munch? fit
  · intro found
    have munches := (scan_munches (.ofText text)).1
    rwa [found] at munches
  · intro munches
    obtain ⟨rfl, rfl⟩ := (scan_munches (.ofText text)).1.unique munches
    rfl

/-- The rule of one reserved word may come as late as the rule of identifiers allows. The word is
still found, and with another list or this one the scan fails behind the number. -/
theorem tokenize_constLast :
    let listed : List Rule :=
      [.keyword .typedef, .keyword .enum, .keyword .struct,
        .punct .leftBrace, .punct .rightBrace, .punct .semicolon, .punct .comma, .punct .quote,
        .punct .leftParen, .punct .rightParen, .punct .star, .punct .equals,
        .keyword .const, ⟨.identifier, .identifier⟩, ⟨.integer, .integer⟩, ⟨.comment, .comment⟩,
        ⟨.blank, .blank⟩]
    let text : List Char := ['c', 'o', 'n', 's', 't', '+', '1', '#']
    Reordered listed ∧
      (Scanner.ofText text).tokenizeBy listed = (Scanner.ofText text).tokenize ∧
      tokenize text = .error ⟨⟨7, 1, 8⟩, '#'⟩ ∧ Taken 'c' text.tail (.keyword .const) 4 := by
  intro listed text
  obtain ⟨taken, -, failed, reordered⟩ := tokenize_maximalMunch text
  have word : firstMatch? rules 'c' text.tail = some (.keyword .const, 4) := by decide +kernel
  have number : firstMatch? rules '+' ['1', '#'] = some (.integer, 1) := by decide +kernel
  have unfit : firstMatch? rules '#' [] = none := by decide +kernel
  refine ⟨by decide, reordered listed (by decide), (failed _).mpr ⟨[], ?_, ?_⟩, ?_⟩
  · exact .token word (.token number (.here _))
  · exact firstMatch?_eq_none_iff.mp unfit
  · exact taken 'c' text.tail .start (.here _) _ _ word

end InterfaceHeader
