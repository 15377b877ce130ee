import InterfaceHeader.Proofs.Token.Breaks
import Mathlib.Data.List.Basic

/-!
# The longest lexeme

The rules are tried in order and the first that fits makes the token, but there is little in the
order. What may stand at the start of a token tells the kinds apart, save for reserved words and
identifiers, and of those two both take the whole word. So whatever the order, as long as reserved
words come before identifiers, the token is the longest text of any kind that starts at the place
(`longest_of_munch?`).

`munch?` says from the character at hand what the token is. It stands between the rules and the
texts of the kinds, and knows no order (`firstMatch?_eq_munch?`).
-/

namespace InterfaceHeader

/-! ## The texts of each kind -/

/-- Two slashes and the rest of a line. -/
def IsLineComment (cs : List Char) : Prop :=
  ∃ line, cs = '/' :: '/' :: line ∧ '\n' ∉ line

/-- A text up to the first close mark behind its open mark. -/
def IsBlockComment (cs : List Char) : Prop :=
  ∃ body, cs = '/' :: '*' :: (body ++ ['*', '/']) ∧ ¬ ['*', '/'] <:+: body ++ ['*']

/-- The texts of each kind of token, whatever stands behind them. -/
def TokenKind.Lexeme : TokenKind → List Char → Prop
  | .keyword word, cs => cs = word.text.toList
  | .identifier, cs => Text.isIdentifier cs = true
  | .punct mark, cs => cs = [mark.char]
  | .integer, cs => ∃ sign digits, cs = sign ++ digits ∧ sign ∈ [[], ['+'], ['-']] ∧
      digits ≠ [] ∧ digits.all Char.isDigit = true
  | .comment, cs => IsLineComment cs ∨ IsBlockComment cs
  | .blank, cs => cs ≠ [] ∧ cs.all Text.isBlank = true

/-- The lexeme is the longest that any kind has at the start of the text. Where two kinds have it
it is a reserved word, not an identifier. -/
structure Longest (text : List Char) (kind : TokenKind) (lexeme : List Char) : Prop where
  starts : lexeme <+: text
  spelt : kind.Lexeme lexeme
  maximal : ∀ (other : TokenKind) (cs : List Char), other.Lexeme cs → cs <+: text →
    cs.length ≤ lexeme.length
  preferred : ∀ other : TokenKind, other.Lexeme lexeme →
    other = kind ∨ other = .identifier ∧ ∃ word, kind = .keyword word

theorem TokenKind.Lexeme.ne_nil {kind : TokenKind} {cs : List Char} (lexeme : kind.Lexeme cs) :
    cs ≠ [] := by
  rintro rfl
  cases kind with
  | keyword word => exact word.text_toList_ne_nil lexeme.symm
  | identifier => cases lexeme
  | punct mark => cases lexeme
  | integer =>
      obtain ⟨sign, digits, whole, -, some, -⟩ := lexeme
      exact some (List.append_eq_nil_iff.mp whole.symm).2
  | comment => rcases lexeme with ⟨_, whole, _⟩ | ⟨_, whole, _⟩ <;> cases whole
  | blank => exact lexeme.1 rfl

theorem Longest.unique {text lexeme lexeme' : List Char} {kind kind' : TokenKind}
    (longest : Longest text kind lexeme) (longest' : Longest text kind' lexeme') :
    kind = kind' ∧ lexeme = lexeme' := by
  have length : lexeme.length = lexeme'.length :=
    Nat.le_antisymm (longest'.maximal _ _ longest.spelt longest.starts)
      (longest.maximal _ _ longest'.spelt longest'.starts)
  obtain rfl : lexeme = lexeme' := by
    rw [List.prefix_iff_eq_take.mp longest.starts, List.prefix_iff_eq_take.mp longest'.starts,
      length]
  refine ⟨?_, rfl⟩
  rcases longest.preferred kind' longest'.spelt with same | ⟨rfl, word, rfl⟩
  · exact same.symm
  · rcases longest'.preferred _ longest.spelt with same | ⟨same, _⟩
    · exact same
    · cases same

/-! ## The token at a place -/

variable {c : Char} {cs : List Char} {kind : TokenKind} {reach : Nat}

/-- The kind of a whole word. -/
def wordKind (run : List Char) : TokenKind :=
  match [Keyword.typedef, .enum, .struct, .const].find? fun word => word.text.toList == run with
  | some word => .keyword word
  | none => .identifier

/-- The kind and the reach of the token at the start of `c :: cs`. -/
def munch? (c : Char) (cs : List Char) : Option (TokenKind × Nat) :=
  if Text.isBlank c then some (.blank, (cs.takeWhile Text.isBlank).length)
  else if Text.isWordStart c then
    some (wordKind (c :: cs.takeWhile Text.isWordChar), (cs.takeWhile Text.isWordChar).length)
  else
    match Punct.ofChar? c with
    | some mark => some (.punct mark, 0)
    | none =>
      if c.isDigit ∨ (c = '+' ∨ c = '-') ∧ cs.head?.any Char.isDigit then
        some (.integer, (cs.takeWhile Char.isDigit).length)
      else (commentReach? c cs).map fun reach => (.comment, reach)

theorem Keyword.text_injective {word word' : Keyword}
    (same : word.text.toList = word'.text.toList) : word = word' := by
  revert same
  cases word <;> cases word' <;> decide

theorem wordKind_eq_keyword_iff {run : List Char} {word : Keyword} :
    wordKind run = .keyword word ↔ run = word.text.toList := by
  have listed : word ∈ [Keyword.typedef, .enum, .struct, .const] := by cases word <;> decide
  unfold wordKind
  constructor
  · intro found
    split at found
    · rename_i word' first
      cases found
      have same := List.find?_some (p := fun w : Keyword => w.text.toList == run) first
      exact (beq_iff_eq.mp same).symm
    · cases found
  · rintro rfl
    split
    · rename_i word' first
      have same := List.find?_some (p := fun w : Keyword => w.text.toList == word.text.toList) first
      rw [Keyword.text_injective (beq_iff_eq.mp same)]
    · rename_i unfound
      exact absurd (beq_self_eq_true _) (List.find?_eq_none.mp unfound word listed)

theorem wordKind_eq (run : List Char) :
    wordKind run = .identifier ∨ ∃ word, wordKind run = .keyword word := by
  unfold wordKind
  split
  · exact Or.inr ⟨_, rfl⟩
  · exact Or.inl rfl

theorem munch?_blank (blank : Text.isBlank c = true) (cs : List Char) :
    munch? c cs = some (.blank, (cs.takeWhile Text.isBlank).length) := by
  rw [munch?, if_pos blank]

theorem munch?_word (start : Text.isWordStart c = true) (cs : List Char) :
    munch? c cs = some
      (wordKind (c :: cs.takeWhile Text.isWordChar), (cs.takeWhile Text.isWordChar).length) := by
  have visible := Text.not_blank_of_isWordChar (Text.isWordChar_of_isWordStart start)
  rw [munch?, if_neg (by simp [visible]), if_pos start]

theorem munch?_mark (mark : Punct) (cs : List Char) :
    munch? mark.char cs = some (.punct mark, 0) := by
  cases mark <;> rfl

theorem munch?_digit (digit : c.isDigit = true) (cs : List Char) :
    munch? c cs = some (.integer, (cs.takeWhile Char.isDigit).length) := by
  have visible := Text.not_blank_of_isWordChar (Text.isWordChar_of_isDigit digit)
  have noMark : Punct.ofChar? c = none := by
    refine List.find?_eq_none.mpr fun mark _ same => ?_
    rw [← beq_iff_eq.mp same] at digit
    cases mark <;> exact absurd digit (by decide)
  rw [munch?, if_neg (by simp [visible]), if_neg (by simp [Text.isWordStart_of_isDigit digit]),
    noMark]
  exact if_pos (Or.inl digit)

theorem munch?_sign (sign : c = '+' ∨ c = '-') {d : Char} (digit : d.isDigit = true)
    (cs : List Char) :
    munch? c (d :: cs) = some (.integer, ((d :: cs).takeWhile Char.isDigit).length) := by
  have some : c.isDigit = true ∨ (c = '+' ∨ c = '-') ∧ (d :: cs).head?.any Char.isDigit = true :=
    Or.inr ⟨sign, digit⟩
  rcases sign with rfl | rfl <;> exact if_pos some

theorem munch?_slash (cs : List Char) :
    munch? '/' cs = (commentReach? '/' cs).map fun reach => (.comment, reach) := rfl

/-! ## The rules find it -/

/-- A list of the rules in which the reserved words come before the identifiers. -/
structure Reordered (rs : List Rule) : Prop where
  perm : rs.Perm rules
  ahead : ∀ word, rs.idxOf (.keyword word) < rs.idxOf ⟨.identifier, .identifier⟩

theorem reordered_iff {rs : List Rule} :
    (rs.Perm rules ∧ ∀ word ∈ [Keyword.typedef, .enum, .struct, .const],
      rs.idxOf (.keyword word) < rs.idxOf ⟨.identifier, .identifier⟩) ↔ Reordered rs := by
  refine ⟨fun both => ⟨both.1, fun word => both.2 word ?_⟩,
    fun reordered => ⟨reordered.perm, fun word _ => reordered.ahead word⟩⟩
  cases word <;> decide

instance (rs : List Rule) : Decidable (Reordered rs) :=
  decidable_of_iff _ reordered_iff

theorem reordered_rules : Reordered rules := by
  decide

/-- A text that starts with digits starts with one. -/
theorem exists_digit (some : 0 < (cs.takeWhile Char.isDigit).length) :
    ∃ d ds, cs = d :: ds ∧ d.isDigit = true := by
  cases cs with
  | nil => cases some
  | cons d ds =>
      cases digit : d.isDigit with
      | true => exact ⟨d, ds, rfl, digit⟩
      | false =>
          rw [List.takeWhile_cons_of_neg (by simp [digit])] at some
          cases some

/-- An integer starts with a digit, or with a sign in front of one, and reaches as far as there are
digits. -/
theorem reach?_integer_eq_some (fit : Pattern.integer.reach? c cs = some reach) :
    (c.isDigit = true ∨
      (c = '+' ∨ c = '-') ∧ ∃ d ds, cs = d :: ds ∧ d.isDigit = true) ∧
      reach = (cs.takeWhile Char.isDigit).length := by
  simp only [Pattern.reach?] at fit
  split at fit
  · rename_i digit
    cases fit
    exact ⟨.inl digit, rfl⟩
  · split at fit
    · rename_i sign
      cases fit
      exact ⟨.inr ⟨sign.1, exists_digit sign.2⟩, rfl⟩
    · cases fit

/-- Behind a whole word no word goes on. -/
theorem noWord_dropWhile (cs : List Char) : NoWord (cs.dropWhile Text.isWordChar) := by
  unfold NoWord
  cases rest : cs.dropWhile Text.isWordChar with
  | nil => rfl
  | cons d ds =>
      have head := List.head_dropWhile_not Text.isWordChar (l := cs) (by simp [rest])
      simpa [rest] using head

/-- The run of word characters in front of no word. -/
theorem cons_takeWhile_word {word : Keyword} {rest : List Char} (start : Text.isWordStart c = true)
    (whole : c :: cs = word.text.toList ++ rest) (noWord : NoWord rest) :
    c :: cs.takeWhile Text.isWordChar = word.text.toList := by
  rw [← List.takeWhile_cons_of_pos (Text.isWordChar_of_isWordStart start), whole,
    takeWhile_word word.all_isWordChar noWord]

theorem Keyword.isWordStart {word : Keyword} (first : word.text.toList.head? = some c) :
    Text.isWordStart c = true := by
  cases word <;> cases first <;> decide

/-- Every rule that fits reaches as far as the token does, and is that of its kind or the rule of
identifiers. -/
theorem munch?_of_reach? {rule : Rule} (mem : rule ∈ rules)
    (fit : rule.pattern.reach? c cs = some reach) :
    ∃ kind, munch? c cs = some (kind, reach) ∧
      (kind = rule.kind ∨ rule = ⟨.identifier, .identifier⟩ ∧ ∃ word, kind = .keyword word) := by
  have first := mayStart_of_reach? mem (by rw [fit]; rfl)
  rcases mem_rules mem with ⟨word, rfl⟩ | ⟨mark, rfl⟩ | rfl | rfl | rfl | rfl
  · obtain ⟨⟨rest, whole, noWord⟩, rfl⟩ := reach?_word_iff.mp fit
    have start := Keyword.isWordStart (beq_iff_eq.mp first)
    have run := cons_takeWhile_word start whole noWord
    refine ⟨_, ?_, .inl rfl⟩
    rw [munch?_word start, wordKind_eq_keyword_iff.mpr run, ← String.length_toList, ← run]
    rfl
  · cases beq_iff_eq.mp first
    simp only [Rule.punct, Pattern.reach?, if_true, Option.some.injEq] at fit
    subst fit
    exact ⟨_, munch?_mark mark cs, .inl rfl⟩
  · have start : Text.isWordStart c = true := first
    simp only [Pattern.reach?, if_pos start, Option.some.injEq] at fit
    subst fit
    refine ⟨_, munch?_word start cs, ?_⟩
    rcases wordKind_eq (c :: cs.takeWhile Text.isWordChar) with kind | keyword
    · exact .inl kind
    · exact .inr ⟨rfl, keyword⟩
  · obtain ⟨digit | ⟨sign, d, ds, rfl, digit⟩, rfl⟩ := reach?_integer_eq_some fit
    · exact ⟨_, munch?_digit digit cs, .inl rfl⟩
    · exact ⟨_, munch?_sign sign digit ds, .inl rfl⟩
  · obtain rfl := beq_iff_eq.mp first
    have fit : commentReach? '/' cs = some reach := fit
    exact ⟨_, by rw [munch?_slash, fit]; rfl, .inl rfl⟩
  · have blank : Text.isBlank c = true := first
    cases (reach?_blank blank cs).symm.trans fit
    exact ⟨_, munch?_blank blank cs, .inl rfl⟩

/-- The rule of the token's kind fits. -/
theorem reach?_of_munch? (found : munch? c cs = some (kind, reach)) :
    ∃ rule ∈ rules, rule.kind = kind ∧ rule.pattern.reach? c cs = some reach := by
  unfold munch? at found
  split at found
  case isTrue blank =>
    cases found
    exact ⟨⟨.blank, .blank⟩, by decide, rfl, reach?_blank blank cs⟩
  split at found
  case isTrue start =>
    cases found
    rcases wordKind_eq (c :: cs.takeWhile Text.isWordChar) with identifier | ⟨word, keyword⟩
    · refine ⟨⟨.identifier, .identifier⟩, by decide, identifier.symm, ?_⟩
      simp only [Pattern.reach?, if_pos start]
    · refine ⟨.keyword word, keyword_mem_rules word, keyword.symm, ?_⟩
      have run := wordKind_eq_keyword_iff.mp keyword
      refine reach?_word_iff.mpr ⟨⟨cs.dropWhile Text.isWordChar, ?_, ?_⟩, ?_⟩
      · rw [← run, List.cons_append, List.takeWhile_append_dropWhile]
      · exact noWord_dropWhile cs
      · rw [← String.length_toList, ← run]
        rfl
  split at found
  case h_1 mark same =>
    cases found
    refine ⟨.punct mark, by cases mark <;> decide, rfl, ?_⟩
    have same : mark.char = c :=
      beq_iff_eq.mp (List.find?_some (p := fun mark : Punct => mark.char == c) same)
    simp [Rule.punct, Pattern.reach?, same]
  split at found
  case isTrue some =>
    cases found
    refine ⟨⟨.integer, .integer⟩, by decide, rfl, ?_⟩
    simp only [Pattern.reach?]
    rcases some with digit | ⟨sign, digit⟩
    · rw [if_pos digit]
    · split
      · rfl
      · cases cs with
        | nil => cases digit
        | cons d ds =>
            have digit : d.isDigit = true := digit
            rw [if_pos ⟨sign, by rw [List.takeWhile_cons_of_pos digit]; exact Nat.succ_pos _⟩]
  case isFalse =>
    obtain ⟨reach, fit, same⟩ := Option.map_eq_some_iff.mp found
    cases same
    exact ⟨⟨.comment, .comment⟩, by decide, rfl, fit⟩

/-- What comes earlier in a list than what stands at a place stands in front of the place. -/
theorem mem_of_idxOf_lt {before after : List Rule} {rule other : Rule}
    (ahead : (before ++ other :: after).idxOf rule < (before ++ other :: after).idxOf other) :
    rule ∈ before := by
  by_cases inside : rule ∈ before
  · exact inside
  · have bound : (before ++ other :: after).idxOf other ≤ before.length := by
      by_cases mem : other ∈ before
      · rw [List.idxOf_append_of_mem mem]
        exact List.idxOf_le_length
      · rw [List.idxOf_append_of_notMem mem, List.idxOf_cons_self]
        exact Nat.le_refl _
    rw [List.idxOf_append_of_notMem inside] at ahead
    omega

/-- The token that is found does not depend on the order in which the rules are tried. -/
theorem firstMatch?_eq_munch? {rs : List Rule} (order : Reordered rs) (c : Char) (cs : List Char) :
    firstMatch? rs c cs = munch? c cs := by
  have listed {rule : Rule} : rule ∈ rs ↔ rule ∈ rules := order.perm.mem_iff
  cases first : firstMatch? rs c cs with
  | none =>
      have unfit := List.findSome?_eq_none_iff.mp first
      cases found : munch? c cs with
      | none => rfl
      | some token =>
          obtain ⟨rule, mem, -, fit⟩ := reach?_of_munch? found
          have := unfit rule (listed.mpr mem)
          rw [fit] at this
          cases this
  | some token =>
      obtain ⟨before, rule, after, split, made, earlier⟩ := List.findSome?_eq_some_iff.mp first
      obtain ⟨reach, fit, rfl⟩ := Option.map_eq_some_iff.mp made
      have mem : rule ∈ rs := by rw [split]; exact List.mem_append_right _ List.mem_cons_self
      obtain ⟨kind, found, agree⟩ := munch?_of_reach? (listed.mp mem) fit
      rcases agree with rfl | ⟨rfl, word, rfl⟩
      · exact found.symm
      · -- The rule of the reserved word fits too, and it comes earlier.
        obtain ⟨other, mem', kind, fit'⟩ := reach?_of_munch? found
        obtain rfl : other = .keyword word := by
          rcases mem_rules mem' with ⟨word', rfl⟩ | ⟨mark, rfl⟩ | rfl | rfl | rfl | rfl <;>
            cases kind
          rfl
        have unfit := earlier _ (mem_of_idxOf_lt (split ▸ order.ahead word))
        rw [fit'] at unfit
        cases unfit

/-! ## It is the longest -/

/-- A close mark that is not at hand starts later or not at all. -/
theorem unclosed_cons {body rest : List Char} (noMark : ∀ tail, c = '*' → cs = '/' :: tail → False)
    (whole : cs = body ++ '*' :: '/' :: rest) (unclosed : ¬ ['*', '/'] <:+: body ++ ['*']) :
    ¬ ['*', '/'] <:+: c :: body ++ ['*'] := by
  intro closes
  rcases List.infix_cons_iff.mp closes with ⟨more, here⟩ | later
  · obtain ⟨star, slash⟩ := List.cons.inj here
    cases body with
    | nil => cases slash
    | cons d body =>
        obtain ⟨rfl, -⟩ := List.cons.inj slash
        exact noMark _ star.symm whole
  · exact unclosed later

/-- The first close mark of a text ends where `blockEnd?` says. -/
theorem blockEnd?_eq_some_iff {n m : Nat} {cs : List Char} :
    blockEnd? n cs = some m ↔ ∃ body rest, cs = body ++ '*' :: '/' :: rest ∧
      ¬ ['*', '/'] <:+: body ++ ['*'] ∧ m = n + body.length + 2 := by
  fun_induction blockEnd? n cs with
  | case1 n => simp
  | case2 n cs =>
      constructor
      · intro found
        cases found
        exact ⟨[], cs, rfl, by decide, rfl⟩
      · rintro ⟨body, rest, whole, unclosed, rfl⟩
        cases body with
        | nil => rfl
        | cons c body =>
            obtain ⟨rfl, tail⟩ := List.cons.inj whole
            cases body with
            | nil => cases tail
            | cons d body =>
                obtain ⟨rfl, -⟩ := List.cons.inj tail
                exact absurd (List.infix_append [] ['*', '/'] (body ++ ['*'])) unclosed
  | case3 n c cs noMark ih =>
      rw [ih]
      constructor
      · rintro ⟨body, rest, whole, unclosed, rfl⟩
        refine ⟨c :: body, rest, congrArg _ whole, unclosed_cons noMark whole unclosed, ?_⟩
        rw [List.length_cons]
        omega
      · rintro ⟨body, rest, whole, unclosed, rfl⟩
        cases body with
        | nil =>
            obtain ⟨star, slash⟩ := List.cons.inj whole
            exact (noMark _ star slash).elim
        | cons d body =>
            obtain ⟨rfl, rfl⟩ := List.cons.inj whole
            refine ⟨body, rest, rfl, fun later => unclosed (List.infix_cons later), ?_⟩
            rw [List.length_cons]
            omega

/-- A line comment reaches to the end of its line. -/
theorem commentReach?_line (body : List Char) :
    commentReach? '/' ('/' :: body) = some (1 + (body.takeWhile (· ≠ '\n')).length) := rfl

/-- A block comment reaches to its first close mark. -/
theorem commentReach?_block {body : List Char} (unclosed : ¬ ['*', '/'] <:+: body ++ ['*'])
    (rest : List Char) :
    commentReach? '/' ('*' :: (body ++ ['*', '/']) ++ rest) = some (body.length + 3) :=
  blockEnd?_eq_some_iff.mpr ⟨body, rest, by simp, unclosed, by omega⟩

theorem take_block (body rest : List Char) :
    ('*' :: (body ++ ['*', '/']) ++ rest).take (body.length + 3) = '*' :: (body ++ ['*', '/']) :=
  List.take_left' (by simp +arith)

/-- A prefix of the right characters lies within their run. -/
theorem length_le_takeWhile {p : Char → Bool} {front : List Char} (starts : front <+: cs)
    (all : front.all p = true) : front.length ≤ (cs.takeWhile p).length := by
  obtain ⟨rest, rfl⟩ := starts
  rw [List.takeWhile_append_of_pos (List.all_eq_true.mp all), List.length_append]
  exact Nat.le_add_right _ _

/-- A prefix as long as a run is the run. -/
theorem eq_takeWhile {p : Char → Bool} {front : List Char} (starts : front <+: cs)
    (length : front.length = (cs.takeWhile p).length) : front = cs.takeWhile p := by
  rw [List.prefix_iff_eq_take.mp starts, length, take_length_takeWhile]

/-- The token at a place is of its kind. -/
theorem lexeme_of_munch? (found : munch? c cs = some (kind, reach)) :
    kind.Lexeme (c :: cs.take reach) := by
  obtain ⟨rule, mem, rfl, fit⟩ := reach?_of_munch? found
  rcases mem_rules mem with ⟨word, rfl⟩ | ⟨mark, rfl⟩ | rfl | rfl | rfl | rfl
  · exact take_of_reach?_word fit
  · cases beq_iff_eq.mp (mayStart_of_reach? mem (by rw [fit]; rfl))
    cases found.symm.trans (munch?_mark mark cs)
    rfl
  · have start : Text.isWordStart c = true := mayStart_of_reach? mem (by rw [fit]; rfl)
    simp only [Pattern.reach?, if_pos start, Option.some.injEq] at fit
    rw [← fit, take_length_takeWhile]
    exact Bool.and_eq_true_iff.mpr ⟨start, List.all_takeWhile⟩
  · obtain ⟨first, rfl⟩ := reach?_integer_eq_some fit
    rw [take_length_takeWhile]
    rcases first with digit | ⟨sign, d, ds, rfl, digit⟩
    · refine ⟨[], _, rfl, by decide, List.cons_ne_nil _ _, ?_⟩
      rw [List.all_cons, digit, List.all_takeWhile]
      rfl
    · refine ⟨[c], (d :: ds).takeWhile Char.isDigit, rfl, ?_, ?_, List.all_takeWhile⟩
      · rcases sign with rfl | rfl <;> decide
      · rw [List.takeWhile_cons_of_pos digit]
        exact List.cons_ne_nil _ _
  · obtain ⟨rfl, ⟨body, rfl, rfl⟩ | ⟨body, rfl, closed⟩⟩ := commentReach?_eq_some fit
    · refine .inl ⟨body.takeWhile (· ≠ '\n'), ?_, ?_⟩
      · rw [Nat.add_comm, List.take_succ_cons, take_length_takeWhile]
      · intro newline
        simpa using List.all_eq_true.mp List.all_takeWhile _ newline
    · obtain ⟨inner, rest, rfl, unclosed, rfl⟩ := blockEnd?_eq_some_iff.mp closed
      have cut := take_block inner rest
      rw [List.cons_append, List.append_assoc] at cut
      exact .inr ⟨inner, congrArg _ (by rw [← cut]; congr 1; omega), unclosed⟩
  · have blank : Text.isBlank c = true := mayStart_of_reach? mem (by rw [fit]; rfl)
    cases (reach?_blank blank cs).symm.trans fit
    rw [take_length_takeWhile]
    refine ⟨List.cons_ne_nil _ _, ?_⟩
    rw [List.all_cons, blank, List.all_takeWhile]
    rfl

/-- Where a kind has a lexeme a token is found that reaches as far, and further unless the kind is
the token's, or that of identifiers and the token is a reserved word. -/
theorem munch?_of_lexeme {lexeme : List Char} (spelt : kind.Lexeme lexeme)
    (starts : lexeme <+: c :: cs) :
    ∃ found reach, munch? c cs = some (found, reach) ∧ lexeme.length ≤ reach + 1 ∧
      (lexeme.length = reach + 1 →
        kind = found ∨ kind = .identifier ∧ ∃ word, found = .keyword word) := by
  cases lexeme with
  | nil => exact absurd rfl spelt.ne_nil
  | cons d lexeme =>
      obtain ⟨rfl, behind⟩ := List.cons_prefix_cons.mp starts
      have reaches {p : Char → Bool} (all : lexeme.all p = true) :
          (d :: lexeme).length ≤ (cs.takeWhile p).length + 1 :=
        Nat.succ_le_succ (length_le_takeWhile behind all)
      have run {p : Char → Bool} (length : (d :: lexeme).length = (cs.takeWhile p).length + 1) :
          lexeme = cs.takeWhile p :=
        eq_takeWhile behind (Nat.succ.inj length)
      cases kind with
      | keyword word =>
          have all := word.all_isWordChar
          rw [← show d :: lexeme = _ from spelt, List.all_cons, Bool.and_eq_true] at all
          have start := Keyword.isWordStart (by rw [← show d :: lexeme = _ from spelt]; rfl)
          refine ⟨_, _, munch?_word start cs, reaches all.2, fun length => .inl ?_⟩
          rw [← run length]
          exact (wordKind_eq_keyword_iff.mpr spelt).symm
      | identifier =>
          obtain ⟨start, all⟩ := Bool.and_eq_true_iff.mp spelt
          refine ⟨_, _, munch?_word start cs, reaches all, fun _ => ?_⟩
          rcases wordKind_eq (d :: cs.takeWhile Text.isWordChar) with other | keyword
          · exact .inl other.symm
          · exact .inr ⟨rfl, keyword⟩
      | punct mark =>
          obtain ⟨rfl, rfl⟩ := List.cons.inj spelt
          exact ⟨_, _, munch?_mark mark cs, Nat.le_refl _, fun _ => .inl rfl⟩
      | integer =>
          obtain ⟨sign, digits, whole, signed, some, all⟩ := spelt
          simp only [List.mem_cons, List.not_mem_nil, or_false] at signed
          rcases signed with rfl | signed
          · rw [← show d :: lexeme = digits from whole, List.all_cons, Bool.and_eq_true] at all
            exact ⟨_, _, munch?_digit all.1 cs, reaches all.2, fun _ => .inl rfl⟩
          · obtain ⟨c, sign, rfl⟩ : ∃ c, (c = '+' ∨ c = '-') ∧ sign = [c] := by
              rcases signed with rfl | rfl <;> exact ⟨_, by decide, rfl⟩
            obtain ⟨rfl, rfl⟩ := List.cons.inj whole
            obtain ⟨e, digits, rfl⟩ := List.exists_cons_of_ne_nil some
            obtain ⟨rest, rfl⟩ := behind
            have digit := (Bool.and_eq_true_iff.mp all).1
            exact ⟨_, _, munch?_sign sign digit _, reaches all, fun _ => .inl rfl⟩
      | comment =>
          rcases spelt with ⟨line, whole, inLine⟩ | ⟨body, whole, unclosed⟩
          · obtain ⟨rfl, rfl⟩ := List.cons.inj whole
            obtain ⟨rest, rfl⟩ := behind
            refine ⟨_, _, by rw [munch?_slash, List.cons_append, commentReach?_line]; rfl, ?_,
              fun _ => .inl rfl⟩
            have all : line.all (· ≠ '\n') = true :=
              List.all_eq_true.mpr fun c mem => decide_eq_true fun same => inLine (same ▸ mem)
            have bound := length_le_takeWhile (List.prefix_append line rest) all
            simp only [List.length_cons]
            omega
          · obtain ⟨rfl, rfl⟩ := List.cons.inj whole
            obtain ⟨rest, rfl⟩ := behind
            refine ⟨_, _, by rw [munch?_slash, commentReach?_block unclosed]; rfl, ?_,
              fun _ => .inl rfl⟩
            simp +arith
      | blank =>
          obtain ⟨blank, all⟩ := Bool.and_eq_true_iff.mp spelt.2
          exact ⟨_, _, munch?_blank blank cs, reaches all, fun _ => .inl rfl⟩

theorem reach_le_of_munch? (found : munch? c cs = some (kind, reach)) : reach ≤ cs.length := by
  rw [← firstMatch?_eq_munch? reordered_rules] at found
  exact reach_le_of_firstMatch? found

/-- The token at a place is the longest lexeme there. -/
theorem longest_of_munch? (found : munch? c cs = some (kind, reach)) :
    Longest (c :: cs) kind (c :: cs.take reach) := by
  have length : (c :: cs.take reach).length = reach + 1 := by
    rw [List.length_cons, List.length_take, Nat.min_eq_left (reach_le_of_munch? found)]
  have starts : c :: cs.take reach <+: c :: cs := List.take_prefix (reach + 1) (c :: cs)
  refine ⟨starts, lexeme_of_munch? found, ?_, ?_⟩
  · intro other lexeme spelt starts
    obtain ⟨_, _, found', bound, -⟩ := munch?_of_lexeme spelt starts
    cases found.symm.trans found'
    rwa [length]
  · intro other spelt
    obtain ⟨_, _, found', -, agree⟩ := munch?_of_lexeme spelt starts
    cases found.symm.trans found'
    exact agree length

end InterfaceHeader
