import InterfaceHeader.Proofs.Token.Lexing

/-!
# Pieces of a written text

A written text is put together from pieces. A piece that is closed spells its terminals whatever
follows it; a piece that is open does so unless a word goes on behind it. What divides words can
follow an open piece. Words are open, punctuation and layout are closed.
-/

namespace InterfaceHeader

/-- No word goes on into the text. -/
def NoWord (rest : List Char) : Prop :=
  rest.head?.any Text.isWordChar = false

/-- The piece spells the terminals. -/
def Closed (s : String) (u : List Terminal) : Prop :=
  ∀ rest v, Lexes rest v → Lexes (s.toList ++ rest) (u ++ v)

/-- The piece spells the terminals if no word goes on behind it. -/
def Open (s : String) (u : List Terminal) : Prop :=
  ∀ rest v, NoWord rest → Lexes rest v → Lexes (s.toList ++ rest) (u ++ v)

/-- No word goes on into the piece. -/
def Divides (s : String) : Prop :=
  ∀ rest, NoWord (s.toList ++ rest)

/-- No word goes on into the piece or, where it is empty, through it. -/
def MayDivide (s : String) : Prop :=
  ∀ rest, NoWord rest → NoWord (s.toList ++ rest)

variable {a b : String} {u v : List Terminal}

theorem Closed.open (closed : Closed a u) : Open a u :=
  fun rest w _ lexes => closed rest w lexes

theorem Divides.mayDivide (divides : Divides a) : MayDivide a :=
  fun rest _ => divides rest

theorem closed_empty : Closed "" [] :=
  fun _ _ lexes => lexes

theorem mayDivide_empty : MayDivide "" :=
  fun _ noWord => noWord

theorem divides_of_head (start : (a.toList.head?.any fun c => !Text.isWordChar c) = true) :
    Divides a := by
  intro rest
  cases same : a.toList with
  | nil =>
      rw [same] at start
      cases start
  | cons c cs =>
      rw [same] at start
      simpa [NoWord] using start

theorem Divides.append (divides : Divides a) (b : String) : Divides (a ++ b) := by
  intro rest
  rw [String.toList_append, List.append_assoc]
  exact divides _

theorem Closed.append (left : Closed a u) (right : Closed b v) : Closed (a ++ b) (u ++ v) := by
  intro rest w lexes
  rw [String.toList_append, List.append_assoc, List.append_assoc]
  exact left _ _ (right _ _ lexes)

theorem Closed.append_open (left : Closed a u) (right : Open b v) : Open (a ++ b) (u ++ v) := by
  intro rest w noWord lexes
  rw [String.toList_append, List.append_assoc, List.append_assoc]
  exact left _ _ (right _ _ noWord lexes)

theorem Open.append (left : Open a u) (divides : MayDivide b) (right : Open b v) :
    Open (a ++ b) (u ++ v) := by
  intro rest w noWord lexes
  rw [String.toList_append, List.append_assoc, List.append_assoc]
  exact left _ _ (divides _ noWord) (right _ _ noWord lexes)

theorem Open.append_closed (left : Open a u) (divides : Divides b) (right : Closed b v) :
    Closed (a ++ b) (u ++ v) := by
  intro rest w lexes
  rw [String.toList_append, List.append_assoc, List.append_assoc]
  exact left _ _ (divides _) (right _ _ lexes)

/-! ## Words -/

/-- A text of word characters is what a word reaches to in front of no word. -/
theorem takeWhile_word {cs rest : List Char} (word : cs.all Text.isWordChar = true)
    (noWord : NoWord rest) : (cs ++ rest).takeWhile Text.isWordChar = cs := by
  rw [List.takeWhile_append_of_pos (List.all_eq_true.mp word)]
  cases rest with
  | nil => simp
  | cons c rest =>
      have ends : Text.isWordChar c = false := noWord
      rw [List.takeWhile_cons_of_neg (by simp [ends]), List.append_nil]

theorem Keyword.all_isWordChar (word : Keyword) : word.text.toList.all Text.isWordChar = true := by
  cases word <;> decide

/-- At a text that starts with a run of word characters only the reserved word fits that the run
    is. -/
theorem eq_of_reach?_word {word : Keyword} {cs rest : List Char} {c : Char}
    (run : (c :: cs).all Text.isWordChar = true) (noWord : NoWord rest)
    (fits : ((Pattern.word word.text).reach? c (cs ++ rest)).isSome) :
    c :: cs = word.text.toList := by
  obtain ⟨reach, fit⟩ := Option.isSome_iff_exists.mp fits
  obtain ⟨⟨rest', whole, noWord'⟩, _⟩ := reach?_word_iff.mp fit
  rw [← takeWhile_word run noWord, List.cons_append, whole]
  exact takeWhile_word word.all_isWordChar noWord'

/-- Where no other rule fits the token is found by the rule that does. -/
theorem firstMatch?_of_only {rule : Rule} (mem : rule ∈ rules) {c : Char} {cs : List Char}
    {reach : Nat} (fit : rule.pattern.reach? c cs = some reach)
    (only : ∀ other ∈ rules, (other.pattern.reach? c cs).isSome → other = rule) :
    firstMatch? rules c cs = some (rule.kind, reach) := by
  obtain ⟨other, mem', reach', fit', found⟩ := exists_firstMatch? mem (by rw [fit]; rfl)
  obtain rfl := only other mem' (by rw [fit']; rfl)
  cases fit.symm.trans fit'
  exact found

/-- How a token of a kind may start. -/
def TokenKind.mayStart : TokenKind → Char → Bool
  | .keyword word, c => word.text.toList.head? == some c
  | .identifier, c => Text.isWordStart c
  | .punct mark, c => c == mark.char
  | .integer, c => c.isDigit || c == '+' || c == '-'
  | .comment, c => c == '/'
  | .blank, c => Text.isBlank c

theorem mayStart_of_reach? {rule : Rule} (mem : rule ∈ rules) {c : Char} {cs : List Char}
    (fits : (rule.pattern.reach? c cs).isSome) : rule.kind.mayStart c = true := by
  obtain ⟨reach, fit⟩ := Option.isSome_iff_exists.mp fits
  rcases mem_rules mem with ⟨word, rfl⟩ | ⟨mark, rfl⟩ | rfl | rfl | rfl | rfl
  · exact beq_iff_eq.mpr (congrArg List.head? (take_of_reach?_word fit)).symm
  all_goals
    simp only [Rule.punct, Pattern.reach?, commentReach?] at fit
    split at fit
  · rename_i same
    exact beq_iff_eq.mpr same
  · cases fit
  · assumption
  · cases fit
  · rename_i digit
    simp [TokenKind.mayStart, digit]
  · split at fit
    · rename_i sign
      rcases sign.1 with rfl | rfl <;> rfl
    · cases fit
  · cases fit
  · rename_i slash
    exact beq_iff_eq.mpr (Classical.not_not.mp slash)
  · assumption
  · cases fit

theorem Text.isWordStart_of_isDigit {c : Char} (digit : c.isDigit = true) :
    Text.isWordStart c = false := by
  cases start : Text.isWordStart c with
  | false => rfl
  | true =>
      simp only [Text.isWordStart, Bool.or_eq_true, beq_iff_eq] at start
      have high : c.toNat ≤ '9'.toNat := (Char.isDigit_iff_toNat.mp digit).2
      rcases start with letter | rfl
      · have low : 'A'.toNat ≤ c.toNat := (Text.range_of_isAlpha letter).1
        exact absurd (Nat.le_trans low high) (by decide)
      · exact absurd high (by decide)

/-- A name in front of no word is a token. -/
theorem firstMatch?_name {c : Char} {cs rest : List Char} (name : IsName (c :: cs))
    (noWord : NoWord rest) : firstMatch? rules c (cs ++ rest) = some (.identifier, cs.length) := by
  obtain ⟨start, word⟩ := Bool.and_eq_true_iff.mp name.1
  have mem : (⟨.identifier, .identifier⟩ : Rule) ∈ rules := by decide
  apply firstMatch?_of_only mem
  · simp only [Pattern.reach?]
    rw [if_pos start, takeWhile_word word noWord]
  · intro other mem fits
    have first := mayStart_of_reach? mem fits
    have wordChar := Text.isWordChar_of_isWordStart start
    rcases mem_rules mem with ⟨word', rfl⟩ | ⟨mark, rfl⟩ | rfl | rfl | rfl | rfl
    · have run : (c :: cs).all Text.isWordChar = true := by
        rw [List.all_cons, wordChar, word]
        rfl
      exact absurd (eq_of_reach?_word run noWord fits) (name.2 word')
    · cases beq_iff_eq.mp first
      cases mark <;> exact absurd start (by decide)
    · rfl
    · simp only [TokenKind.mayStart, Bool.or_eq_true, beq_iff_eq] at first
      rcases first with (digit | rfl) | rfl
      · rw [Text.isWordStart_of_isDigit digit] at start
        cases start
      · exact absurd start (by decide)
      · exact absurd start (by decide)
    · cases beq_iff_eq.mp first
      exact absurd start (by decide)
    · rw [TokenKind.mayStart, Text.not_blank_of_isWordChar wordChar] at first
      cases first

/-- A punctuation mark is a token. -/
theorem firstMatch?_mark (mark : Punct) (cs : List Char) :
    firstMatch? rules mark.char cs = some (.punct mark, 0) := by
  have mem : Rule.punct mark ∈ rules := by cases mark <;> decide
  apply firstMatch?_of_only mem
  · simp [Rule.punct, Pattern.reach?]
  · intro other mem fits
    have first := mayStart_of_reach? mem fits
    rcases mem_rules mem with ⟨word, rfl⟩ | ⟨mark', rfl⟩ | rfl | rfl | rfl | rfl
    · cases word <;> cases mark <;> exact absurd first (by decide)
    · cases mark <;> cases mark' <;> first | rfl | exact absurd first (by decide)
    all_goals
      cases mark <;> exact absurd first (by decide)

/-- A reserved word in front of no word is a token. -/
theorem firstMatch?_reserved (word : Keyword) {c : Char} {cs rest : List Char}
    (same : word.text.toList = c :: cs) (noWord : NoWord rest) :
    firstMatch? rules c (cs ++ rest) = some (.keyword word, cs.length) := by
  have run : (c :: cs).all Text.isWordChar = true := same ▸ word.all_isWordChar
  have fit : (Pattern.word word.text).reach? c (cs ++ rest) = some cs.length := by
    refine reach?_word_iff.mpr ⟨⟨rest, by rw [same]; rfl, noWord⟩, ?_⟩
    rw [← String.length_toList, same]
    rfl
  have fits : ((Pattern.word word.text).reach? c (cs ++ rest)).isSome := by
    rw [fit]
    rfl
  obtain ⟨other, mem, reach, fit', first⟩ := exists_firstMatch? (keyword_mem_rules word) fits
  obtain ⟨word', kind⟩ := firstMatch?_keyword fits first
  rw [first]
  rcases mem_rules mem with ⟨word'', rfl⟩ | ⟨mark, rfl⟩ | rfl | rfl | rfl | rfl
  · have found : (Pattern.word word''.text).reach? c (cs ++ rest) = some reach := fit'
    have spelt := eq_of_reach?_word run noWord (by rw [found]; rfl)
    obtain rfl : word = word'' := by
      rw [← same] at spelt
      revert spelt
      cases word <;> cases word'' <;>
        first | exact fun _ => rfl | exact fun other => absurd other (by decide)
    cases fit.symm.trans found
    rfl
  all_goals cases kind

/-- An integer in front of no word is a token. -/
theorem firstMatch?_integer {c : Char} {cs rest : List Char}
    (start : c.isDigit = true ∨ c = '-' ∧ cs ≠ []) (digits : cs.all Char.isDigit = true)
    (noWord : NoWord rest) : firstMatch? rules c (cs ++ rest) = some (.integer, cs.length) := by
  have run : (cs ++ rest).takeWhile Char.isDigit = cs := by
    rw [List.takeWhile_append_of_pos (List.all_eq_true.mp digits)]
    cases rest with
    | nil => simp
    | cons d rest =>
        have other : ¬ d.isDigit = true := by
          intro digit
          have ends : Text.isWordChar d = false := noWord
          rw [Text.isWordChar_of_isDigit digit] at ends
          cases ends
        rw [List.takeWhile_cons_of_neg other, List.append_nil]
  have mem : (⟨.integer, .integer⟩ : Rule) ∈ rules := by decide
  apply firstMatch?_of_only mem
  · simp only [Pattern.reach?, run]
    rcases start with digit | ⟨rfl, some⟩
    · rw [if_pos digit]
    · rw [if_neg (by decide), if_pos ⟨Or.inr rfl, List.length_pos_iff.mpr some⟩]
  · intro other mem fits
    have first := mayStart_of_reach? mem fits
    rcases start with digit | ⟨rfl, _⟩
    · have notStart := Text.isWordStart_of_isDigit digit
      rcases mem_rules mem with ⟨word, rfl⟩ | ⟨mark, rfl⟩ | rfl | rfl | rfl | rfl
      · cases word <;> cases Option.some.inj (beq_iff_eq.mp first) <;>
          exact absurd digit (by decide)
      · cases beq_iff_eq.mp first
        cases mark <;> exact absurd digit (by decide)
      · rw [TokenKind.mayStart, notStart] at first
        cases first
      · rfl
      · cases beq_iff_eq.mp first
        exact absurd digit (by decide)
      · rw [TokenKind.mayStart,
          Text.not_blank_of_isWordChar (Text.isWordChar_of_isDigit digit)] at first
        cases first
    · rcases mem_rules mem with ⟨word, rfl⟩ | ⟨mark, rfl⟩ | rfl | rfl | rfl | rfl
      · cases word <;> exact absurd first (by decide)
      · cases mark <;> exact absurd first (by decide)
      · exact absurd first (by decide)
      · rfl
      · exact absurd first (by decide)
      · exact absurd first (by decide)

/-! ## Pieces -/

/-- A token that the rules find in front of no word is an open piece. -/
theorem open_of_firstMatch? {s : String} {c : Char} {cs : List Char} {kind : TokenKind}
    (same : s.toList = c :: cs) (blank : kind ≠ .blank) (comment : kind ≠ .comment)
    (fit : ∀ rest, NoWord rest → firstMatch? rules c (cs ++ rest) = some (kind, cs.length)) :
    Open s [⟨kind, s⟩] := by
  intro rest v noWord lexes
  have token := Lexes.token (fit rest noWord) blank comment (u := v) (by rwa [List.drop_left])
  rw [List.take_left, ← same, String.ofList_toList] at token
  rwa [same]

theorem open_name {name : String} (isName : IsName name.toList) :
    Open name [⟨.identifier, name⟩] := by
  cases same : name.toList with
  | nil =>
      rw [same] at isName
      cases isName.1
  | cons c cs =>
      rw [same] at isName
      exact open_of_firstMatch? same (by decide) (by decide) fun _ => firstMatch?_name isName

theorem open_keyword (word : Keyword) : Open word.text [⟨.keyword word, word.text⟩] := by
  cases same : word.text.toList with
  | nil => exact absurd same word.text_toList_ne_nil
  | cons c cs =>
      exact open_of_firstMatch? same nofun nofun fun _ => firstMatch?_reserved word same

/-- The written form of a 64-bit integer. -/
theorem open_integer (value : Int64) :
    Open (String.ofList (Decimal.write value.toInt))
      [⟨.integer, String.ofList (Decimal.write value.toInt)⟩] := by
  have digits (n : Nat) : (Nat.toDigits 10 n).all Char.isDigit = true :=
    List.all_eq_true.mpr fun _ mem => Nat.isDigit_of_mem_toDigits (by decide) (by decide) mem
  have same := String.toList_ofList (l := Decimal.write value.toInt)
  unfold Decimal.write at same ⊢
  split at same
  · rename_i negative
    rw [if_pos negative] at *
    exact open_of_firstMatch? same (by decide) (by decide) fun _ =>
      firstMatch?_integer (Or.inr ⟨rfl, Nat.toDigits_ne_nil⟩) (digits _)
  · rename_i negative
    rw [if_neg negative] at *
    cases text : Nat.toDigits 10 value.toInt.natAbs with
    | nil => exact absurd text Nat.toDigits_ne_nil
    | cons c cs =>
        have all := digits value.toInt.natAbs
        rw [text, List.all_cons, Bool.and_eq_true] at all
        rw [text] at same
        exact open_of_firstMatch? same (by decide) (by decide) fun _ =>
          firstMatch?_integer (Or.inl all.1) all.2

/-- The punctuation mark of a character. -/
def Punct.ofChar? (c : Char) : Option Punct :=
  [.leftBrace, .rightBrace, .semicolon, .comma, .quote, .leftParen, .rightParen, .star,
    .equals].find? fun mark : Punct => mark.char == c

/-- The terminals of a text of punctuation and blanks. -/
def layout? : List Char → Option (List Terminal)
  | [] => some []
  | c :: cs =>
    match Punct.ofChar? c with
    | some mark => (layout? cs).map (⟨.punct mark, String.ofList [c]⟩ :: ·)
    | none => if Text.isBlank c then layout? cs else none

/-- Punctuation and layout are closed. -/
theorem closed_layout {s : String} {u : List Terminal} (laid : layout? s.toList = some u) :
    Closed s u := by
  intro rest v lexes
  generalize s.toList = cs at laid ⊢
  induction cs generalizing u with
  | nil =>
      cases laid
      exact lexes
  | cons c cs ih =>
      rw [layout?] at laid
      split at laid
      · rename_i mark found
        obtain ⟨u, behind, rfl⟩ := Option.map_eq_some_iff.mp laid
        have same : mark.char = c :=
          beq_iff_eq.mp (List.find?_some (p := fun mark : Punct => mark.char == c) found)
        have fit := firstMatch?_mark mark (cs ++ rest)
        rw [same] at fit
        exact .token fit nofun nofun (ih behind)
      · split at laid
        · rename_i blank
          exact .blank blank (ih laid)
        · cases laid

end InterfaceHeader
