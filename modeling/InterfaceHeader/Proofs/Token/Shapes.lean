import InterfaceHeader.Proofs.Token.Coverage

/-!
# Shapes of tokens

What the texts of each kind of token look like, as far as the rest of a header can tell: a reserved
word is spelt as it is, an identifier is an identifier that is not reserved, an integer consists of
digits after at most one sign. Tokens of these kinds stand within a line.
-/

namespace InterfaceHeader

/-- A name that can be written in a header. -/
def IsName (name : List Char) : Prop :=
  Text.isIdentifier name = true ∧ ∀ word : Keyword, name ≠ word.text.toList

theorem isName_iff {name : List Char} :
    (Text.isIdentifier name = true ∧
      ∀ word ∈ [Keyword.typedef, .enum, .struct, .const], name ≠ word.text.toList) ↔
      IsName name := by
  refine and_congr_right fun _ => ⟨?_, fun other word _ => other word⟩
  intro other word
  apply other word
  cases word <;> decide

instance (name : List Char) : Decidable (IsName name) :=
  decidable_of_iff _ isName_iff

/-- What a token of a kind looks like. -/
def TokenKind.Spells : TokenKind → List Char → Prop
  | .keyword word, cs => cs = word.text.toList
  | .identifier, cs => IsName cs
  | .punct mark, cs => cs = [mark.char]
  | .integer, cs => ∃ c digits, cs = c :: digits ∧ (c.isDigit ∨ c = '+' ∨ c = '-') ∧
      digits.all Char.isDigit
  | .comment, cs => cs.head? = some '/'
  | .blank, cs => cs ≠ [] ∧ cs.all Text.isBlank

/-- The characters that a run reaches are the run. -/
theorem take_length_takeWhile (p : Char → Bool) (cs : List Char) :
    cs.take (cs.takeWhile p).length = cs.takeWhile p :=
  (List.prefix_iff_eq_take.mp (List.takeWhile_prefix p)).symm

/-- What is left behind a run is what the run does not reach. -/
theorem drop_length_takeWhile (p : Char → Bool) (cs : List Char) :
    cs.drop (cs.takeWhile p).length = cs.dropWhile p :=
  calc cs.drop (cs.takeWhile p).length
      = (cs.takeWhile p ++ cs.dropWhile p).drop (cs.takeWhile p).length := by
        rw [List.takeWhile_append_dropWhile]
    _ = cs.dropWhile p := List.drop_left

theorem mem_rules {rule : Rule} (mem : rule ∈ rules) :
    (∃ word, rule = .keyword word) ∨ (∃ mark, rule = .punct mark) ∨
      rule = ⟨.identifier, .identifier⟩ ∨ rule = ⟨.integer, .integer⟩ ∨
      rule = ⟨.comment, .comment⟩ ∨ rule = ⟨.blank, .blank⟩ := by
  simp only [rules, List.mem_cons, List.not_mem_nil, or_false] at mem
  rcases mem with rfl | rfl | rfl | rfl | rfl | rfl | rfl | rfl | rfl | rfl | rfl | rfl | rfl |
    rfl | rfl | rfl | rfl <;> simp [Rule.keyword, Rule.punct]

theorem keyword_mem_rules (word : Keyword) : Rule.keyword word ∈ rules := by
  cases word <;> decide

/-- The rule that a match comes from. -/
theorem exists_rule_of_firstMatch? {rs : List Rule} {c : Char} {cs : List Char} {kind : TokenKind}
    {reach : Nat} (fit : firstMatch? rs c cs = some (kind, reach)) :
    ∃ rule ∈ rs, rule.kind = kind ∧ rule.pattern.reach? c cs = some reach := by
  obtain ⟨rule, mem, fit⟩ := List.exists_of_findSome?_eq_some fit
  obtain ⟨reach', fit, same⟩ := Option.map_eq_some_iff.mp fit
  cases same
  exact ⟨rule, mem, rfl, fit⟩

/-- Where a rule fits a token is found, by that rule or by another one that fits. -/
theorem exists_firstMatch? {rs : List Rule} {rule : Rule} (mem : rule ∈ rs) {c : Char}
    {cs : List Char} (fits : (rule.pattern.reach? c cs).isSome) :
    ∃ other ∈ rs, ∃ reach, other.pattern.reach? c cs = some reach ∧
      firstMatch? rs c cs = some (other.kind, reach) := by
  cases first : firstMatch? rs c cs with
  | none =>
      have unfit := List.findSome?_eq_none_iff.mp first rule mem
      rw [Option.map_eq_none_iff] at unfit
      rw [unfit] at fits
      cases fits
  | some found =>
      obtain ⟨kind, reach⟩ := found
      obtain ⟨other, mem, rfl, fit⟩ := exists_rule_of_firstMatch? first
      exact ⟨other, mem, reach, fit, rfl⟩

/-- A word fits where it stands and nothing continues it. -/
theorem reach?_word_iff {text : String} {c : Char} {cs : List Char} {reach : Nat} :
    (Pattern.word text).reach? c cs = some reach ↔
      (∃ rest, c :: cs = text.toList ++ rest ∧ rest.head?.any Text.isWordChar = false) ∧
        reach = text.length - 1 := by
  simp only [Pattern.reach?]
  constructor
  · intro fit
    split at fit
    · rename_i fits
      obtain ⟨starts, ends⟩ := Bool.and_eq_true_iff.mp fits
      obtain ⟨rest, whole⟩ := List.isPrefixOf_iff_prefix.mp starts
      refine ⟨⟨rest, whole.symm, ?_⟩, (Option.some.inj fit).symm⟩
      rw [← whole, ← String.length_toList, List.drop_left] at ends
      simpa using ends
    · cases fit
  · rintro ⟨⟨rest, whole, ends⟩, rfl⟩
    have starts : text.toList.isPrefixOf (c :: cs) = true :=
      List.isPrefixOf_iff_prefix.mpr ⟨rest, whole.symm⟩
    rw [if_pos]
    rw [starts, whole, ← String.length_toList, List.drop_left, ends]
    rfl

theorem blank_mem_rules : (⟨.blank, .blank⟩ : Rule) ∈ rules := by
  decide

/-- Where a blank stands, the rule for blank space fits up to the end of the blanks. -/
theorem reach?_blank {c : Char} (blank : Text.isBlank c = true) (cs : List Char) :
    Pattern.blank.reach? c cs = some (cs.takeWhile Text.isBlank).length := by
  simp only [Pattern.reach?]
  rw [if_pos blank]

/-- At a newline a rule fits. -/
theorem firstMatch?_newline (cs : List Char) : firstMatch? rules '\n' cs ≠ none := by
  have fits : (Pattern.blank.reach? '\n' cs).isSome := by
    rw [reach?_blank (by decide)]
    rfl
  obtain ⟨_, _, _, _, found⟩ := exists_firstMatch? blank_mem_rules fits
  rw [found]
  exact Option.some_ne_none _

/-- Where a reserved word fits, the token is a reserved word. -/
theorem firstMatch?_keyword {word : Keyword} {c : Char} {cs : List Char}
    (fits : ((Pattern.word word.text).reach? c cs).isSome) {kind : TokenKind} {reach : Nat}
    (fit : firstMatch? rules c cs = some (kind, reach)) : ∃ word, kind = .keyword word := by
  let words : List Rule := [.keyword .typedef, .keyword .enum, .keyword .struct, .keyword .const]
  have split : rules = words ++ rules.drop 4 := rfl
  have mem : Rule.keyword word ∈ words := by cases word <;> decide
  obtain ⟨rule, mem, _, _, first⟩ := exists_firstMatch? mem fits
  rw [firstMatch?, split, List.findSome?_append] at fit
  rw [show words.findSome? _ = some _ from first, Option.some_or] at fit
  cases fit
  simp only [words, List.mem_cons, List.not_mem_nil, or_false] at mem
  rcases mem with rfl | rfl | rfl | rfl <;> exact ⟨_, rfl⟩

theorem Keyword.text_toList_ne_nil (word : Keyword) : word.text.toList ≠ [] := by
  cases word <;> decide

/-- The token of a reserved word is the word. -/
theorem take_of_reach?_word {word : Keyword} {c : Char} {cs : List Char} {reach : Nat}
    (fit : (Pattern.word word.text).reach? c cs = some reach) :
    c :: cs.take reach = word.text.toList := by
  obtain ⟨⟨rest, whole, _⟩, rfl⟩ := reach?_word_iff.mp fit
  rw [← List.take_succ_cons, whole, ← String.length_toList, Nat.sub_add_cancel, List.take_left]
  exact List.length_pos_iff.mpr word.text_toList_ne_nil

/-- The shape of what is cut off at a place. -/
theorem spells_of_firstMatch? {c : Char} {cs : List Char} {kind : TokenKind} {reach : Nat}
    (fit : firstMatch? rules c cs = some (kind, reach)) : kind.Spells (c :: cs.take reach) := by
  obtain ⟨rule, mem, rfl, reaches⟩ := exists_rule_of_firstMatch? fit
  rcases mem_rules mem with ⟨word, rfl⟩ | ⟨mark, rfl⟩ | rfl | rfl | rfl | rfl
  · exact take_of_reach?_word reaches
  · simp only [Rule.punct, Pattern.reach?] at reaches
    split at reaches
    · rename_i same
      cases reaches
      rw [same]
      rfl
    · cases reaches
  · simp only [Pattern.reach?] at reaches
    split at reaches
    · rename_i start
      cases reaches
      rw [take_length_takeWhile]
      refine ⟨by simp [Text.isIdentifier, start], ?_⟩
      intro word same
      -- The reserved word would fit here, and its rule comes first.
      have fits : (Pattern.word word.text).reach? c cs = some (word.text.length - 1) := by
        refine reach?_word_iff.mpr ⟨⟨cs.dropWhile Text.isWordChar, ?_, ?_⟩, rfl⟩
        · rw [← same, List.cons_append, List.takeWhile_append_dropWhile]
        · cases rest : cs.dropWhile Text.isWordChar with
          | nil => rfl
          | cons d ds =>
              have none : ¬ Text.isWordChar d := by
                have head := List.head_dropWhile_not Text.isWordChar (l := cs) (by simp [rest])
                simpa [rest] using head
              simpa using none
      obtain ⟨word, other⟩ := firstMatch?_keyword (by rw [fits]; rfl) fit
      cases other
    · cases reaches
  · simp only [Pattern.reach?] at reaches
    split at reaches
    · rename_i digit
      cases reaches
      rw [take_length_takeWhile]
      exact ⟨c, _, rfl, Or.inl digit, List.all_takeWhile⟩
    · split at reaches
      · rename_i sign
        cases reaches
        rw [take_length_takeWhile]
        exact ⟨c, _, rfl, Or.inr sign.1, List.all_takeWhile⟩
      · cases reaches
  · simp only [Pattern.reach?, commentReach?] at reaches
    split at reaches
    · cases reaches
    · rename_i slash
      exact congrArg some (Decidable.not_not.mp slash)
  · simp only [Pattern.reach?] at reaches
    split at reaches
    · rename_i blank
      cases reaches
      rw [take_length_takeWhile]
      refine ⟨List.cons_ne_nil _ _, ?_⟩
      rw [List.all_cons, blank, List.all_takeWhile]
      rfl
    · cases reaches

theorem Token.Cut.spells {t : Token} (cut : t.Cut rules) : t.kind.Spells t.lexeme.toList := by
  obtain ⟨c, cs, reach, fit, text⟩ := cut
  rw [text, String.toList_ofList]
  exact spells_of_firstMatch? fit

/-- Only blank space and comments reach over the end of a line. -/
theorem TokenKind.Spells.inLine {kind : TokenKind} {cs : List Char} (spells : kind.Spells cs)
    (blank : kind ≠ .blank) (comment : kind ≠ .comment) : cs ≠ [] ∧ '\n' ∉ cs := by
  have outside {p : Char → Bool} {cs : List Char} (all : cs.all p = true)
      (newline : p '\n' = false) : '\n' ∉ cs := by
    intro mem
    have := List.all_eq_true.mp all _ mem
    rw [newline] at this
    cases this
  cases kind with
  | keyword word =>
      cases spells
      cases word <;> decide
  | punct mark =>
      cases spells
      cases mark <;> decide
  | identifier =>
      cases cs with
      | nil => cases spells.1
      | cons c cs =>
          obtain ⟨start, rest⟩ := Bool.and_eq_true_iff.mp spells.1
          refine ⟨List.cons_ne_nil _ _, ?_⟩
          intro mem
          rcases List.mem_cons.mp mem with rfl | mem
          · exact absurd start (by decide)
          · exact outside rest (by decide) mem
  | integer =>
      obtain ⟨c, digits, rfl, first, all⟩ := spells
      refine ⟨List.cons_ne_nil _ _, ?_⟩
      intro mem
      rcases List.mem_cons.mp mem with rfl | mem
      · exact absurd first (by decide)
      · exact outside all (by decide) mem
  | comment => exact absurd rfl comment
  | blank => exact absurd rfl blank

end InterfaceHeader
