import InterfaceHeader.Proofs.Conditional.Comments
import InterfaceHeader.Proofs.Token.Pieces
import InterfaceHeader.Proofs.Token.Spread

/-!
# Scanning over line breaks

At a line break outside every block comment a text can be cut in two: the tokens of the whole are
those of the text in front of the break and, from the place behind it on, those of the text behind
it (`tokensFrom_append_newline`). Blank space is passed over character by character here, so that
a run of blanks can be cut as well. Which token is found does not depend on where a text stands,
only the places do (`tokensFrom_shift`).
-/

namespace InterfaceHeader

/-- The tokens of a text that starts at a place, blank space apart. -/
def tokensFrom : List Char → Position → Except LexError (List Token)
  | [], _ => .ok []
  | c :: cs, p =>
    if Text.isBlank c then tokensFrom cs (p.next c)
    else
      match firstMatch? rules c cs with
      | none => .error ⟨p, c⟩
      | some (kind, reach) =>
        (tokensFrom (cs.drop reach) (p.advance (c :: cs.take reach))).map
          (⟨kind, String.ofList (c :: cs.take reach), p⟩ :: ·)
termination_by cs => cs.length
decreasing_by
  · simp
  · simp only [List.length_drop, List.length_cons]
    omega

variable {c : Char} {cs : List Char} {p : Position} {kind : TokenKind} {reach : Nat}

@[simp] theorem tokensFrom_nil (p : Position) : tokensFrom [] p = .ok [] := by
  rw [tokensFrom]

theorem tokensFrom_blank (blank : Text.isBlank c = true) (cs : List Char) (p : Position) :
    tokensFrom (c :: cs) p = tokensFrom cs (p.next c) := by
  rw [tokensFrom, if_pos blank]

theorem tokensFrom_none (blank : Text.isBlank c = false) (unfit : firstMatch? rules c cs = none)
    (p : Position) : tokensFrom (c :: cs) p = .error ⟨p, c⟩ := by
  rw [tokensFrom, if_neg (by simp [blank]), unfit]

theorem tokensFrom_some (blank : Text.isBlank c = false)
    (fit : firstMatch? rules c cs = some (kind, reach)) (p : Position) :
    tokensFrom (c :: cs) p =
      (tokensFrom (cs.drop reach) (p.advance (c :: cs.take reach))).map
        (⟨kind, String.ofList (c :: cs.take reach), p⟩ :: ·) := by
  rw [tokensFrom, if_neg (by simp [blank]), fit]

/-! ## The same tokens as a scan finds -/

namespace Scanner

theorem tokenize_nil (p : Position) : (Scanner.mk [] p).tokenize.1 = .ok [] := by
  rw [tokenize_of_end (scan_nil rules p)]
  rfl

theorem tokenize_none (unfit : firstMatch? rules c cs = none) (p : Position) :
    (Scanner.mk (c :: cs) p).tokenize.1 = .error ⟨p, c⟩ := by
  rw [tokenize_of_unfit (scan_none unfit p)]

/-- A token is found and kept, unless it is blank space. -/
theorem tokenize_some (fit : firstMatch? rules c cs = some (kind, reach)) (p : Position) :
    (Scanner.mk (c :: cs) p).tokenize.1 =
      (Scanner.mk (cs.drop reach) (p.advance (c :: cs.take reach))).tokenize.1.map fun tokens =>
        if kind = .blank then tokens
        else ⟨kind, String.ofList (c :: cs.take reach), p⟩ :: tokens := by
  unfold tokenize
  rw [scan_some fit]
  obtain ⟨tokens, ⟨rest, q⟩⟩ := scan rules ⟨cs.drop reach, p.advance (c :: cs.take reach)⟩
  cases rest with
  | cons d ds => rfl
  | nil =>
      by_cases blank : kind = .blank
      · simp [Except.map, blank]
      · simp [Except.map, blank]

/-- Blanks in front are passed over, however many of them there are. -/
theorem tokenize_blanks (cs : List Char) (p : Position) :
    (Scanner.mk cs p).tokenize.1 =
      (Scanner.mk (Text.trimStart cs) (p.advance (cs.takeWhile Text.isBlank))).tokenize.1 := by
  cases cs with
  | nil => rfl
  | cons c cs =>
      cases blank : Text.isBlank c with
      | false => simp [Text.trimStart, blank]
      | true =>
          rw [tokenize_some (firstMatch?_blank blank cs), take_length_takeWhile,
            drop_length_takeWhile, Text.trimStart, List.dropWhile_cons_of_pos blank,
            List.takeWhile_cons_of_pos blank]
          simp only [if_true]
          cases (Scanner.mk (cs.dropWhile Text.isBlank)
            (p.advance (c :: cs.takeWhile Text.isBlank))).tokenize.1 <;> rfl

end Scanner

/-- Blank space starts with a blank. -/
theorem ne_blank_of_firstMatch? (visible : Text.isBlank c = false)
    (fit : firstMatch? rules c cs = some (kind, reach)) : kind ≠ .blank := by
  rintro rfl
  obtain ⟨_, all⟩ := spells_of_firstMatch? fit
  rw [List.all_cons, visible] at all
  cases all

theorem tokenize_eq_tokensFrom_of (cs : List Char) (p : Position) :
    (Scanner.mk cs p).tokenize.1 = tokensFrom cs p := by
  fun_induction tokensFrom cs p with
  | case1 p => exact Scanner.tokenize_nil p
  | case2 c cs p blank ih =>
      rw [← ih, Scanner.tokenize_blanks, Scanner.tokenize_blanks cs, Text.trimStart,
        List.dropWhile_cons_of_pos blank, List.takeWhile_cons_of_pos blank]
      rfl
  | case3 c cs p blank unfit => exact Scanner.tokenize_none unfit p
  | case4 c cs p visible kind reach fit ih =>
      rw [Scanner.tokenize_some fit, ih]
      simp only [if_neg (ne_blank_of_firstMatch? (by simpa using visible) fit)]

theorem tokenize_eq_tokensFrom (text : List Char) : tokenize text = tokensFrom text .start :=
  tokenize_eq_tokensFrom_of text .start

/-! ## Comments among the rules -/

/-- Where a comment ends that starts here. -/
theorem commentReach?_eq_some (fit : commentReach? c cs = some reach) :
    c = '/' ∧
      ((∃ body, cs = '/' :: body ∧ reach = 1 + (body.takeWhile (· ≠ '\n')).length) ∨
        ∃ body, cs = '*' :: body ∧ blockEnd? 1 body = some reach) := by
  unfold commentReach? at fit
  split at fit
  · cases fit
  · rename_i slash
    refine ⟨Decidable.not_not.mp slash, ?_⟩
    split at fit
    · rename_i body
      exact Or.inl ⟨body, rfl, (Option.some.inj fit).symm⟩
    · rename_i body
      exact Or.inr ⟨body, rfl, fit⟩
    · cases fit

theorem blockEnd?_append {n m : Nat} {body : List Char} (closed : blockEnd? n body = some m)
    (rest : List Char) : blockEnd? n (body ++ rest) = some m := by
  fun_induction blockEnd? n body with
  | case1 n => cases closed
  | case2 n cs => simpa [blockEnd?] using closed
  | case3 n c cs noMark ih =>
      cases cs with
      | nil => cases closed
      | cons d ds =>
          have later := ih closed
          simp_all [blockEnd?]

/-- A block comment that has no close mark leaves its text open. -/
theorem behind_of_blockEnd?_none {n : Nat} {body : List Char} (unclosed : blockEnd? n body = none) :
    CommentState.blockComment.behind body = .blockComment := by
  fun_induction blockEnd? n body with
  | case1 n => rfl
  | case2 n cs => cases unclosed
  | case3 n c cs noMark ih =>
      have later := ih unclosed
      cases cs <;> simp_all [CommentState.behind]

/-- Behind the close mark of a block comment is code. -/
theorem behind_of_blockEnd? {n m : Nat} {body : List Char} (closed : blockEnd? n body = some m) :
    ∃ k, m = n + k ∧ k ≤ body.length ∧
      CommentState.blockComment.behind body = CommentState.code.behind (body.drop k) := by
  fun_induction blockEnd? n body with
  | case1 n => cases closed
  | case2 n cs =>
      cases closed
      exact ⟨2, rfl, by simp, by simp [CommentState.behind]⟩
  | case3 n c cs noMark ih =>
      obtain ⟨k, rfl, bound, later⟩ := ih closed
      refine ⟨k + 1, by omega, by simpa using bound, ?_⟩
      cases cs <;> simp_all [CommentState.behind]

/-- A line comment leaves no block comment open. -/
theorem opensBlockComment_lineComment (body : List Char) :
    OpensBlockComment ('/' :: '/' :: body) ↔
      OpensBlockComment (body.drop (body.takeWhile (· ≠ '\n')).length) := by
  have enters : CommentState.code.behind ('/' :: '/' :: body) =
      CommentState.lineComment.behind body := by simp [CommentState.behind]
  unfold OpensBlockComment
  rw [enters, drop_length_takeWhile]
  induction body with
  | nil => simp [CommentState.behind]
  | cons c body ih =>
      by_cases newline : c = '\n'
      · simp [CommentState.behind, newline]
      · simpa [CommentState.behind, newline] using ih

/-- The characters of tokens other than blank space and comments. -/
theorem TokenKind.Spells.chars {cs : List Char} (spells : kind.Spells cs) (blank : kind ≠ .blank)
    (comment : kind ≠ .comment) {d : Char} (mem : d ∈ cs) :
    Text.isWordChar d = true ∨ (∃ mark : Punct, d = mark.char) ∨ d = '+' ∨ d = '-' := by
  cases kind with
  | keyword word =>
      cases spells
      exact Or.inl (List.all_eq_true.mp word.all_isWordChar d mem)
  | identifier =>
      cases cs with
      | nil => cases mem
      | cons c cs =>
          obtain ⟨start, rest⟩ := Bool.and_eq_true_iff.mp spells.1
          rcases List.mem_cons.mp mem with rfl | mem
          · exact Or.inl (Text.isWordChar_of_isWordStart start)
          · exact Or.inl (List.all_eq_true.mp rest d mem)
  | punct mark =>
      cases spells
      exact Or.inr (Or.inl ⟨mark, List.mem_singleton.mp mem⟩)
  | integer =>
      obtain ⟨c, digits, rfl, first, all⟩ := spells
      rcases List.mem_cons.mp mem with rfl | mem
      · exact first.imp Text.isWordChar_of_isDigit Or.inr
      · exact Or.inl (Text.isWordChar_of_isDigit (List.all_eq_true.mp all d mem))
  | comment => exact absurd rfl comment
  | blank => exact absurd rfl blank

/-- A token that is no comment has no mark of one in it. -/
theorem TokenKind.Spells.slash_not_mem {cs : List Char} (spells : kind.Spells cs)
    (blank : kind ≠ .blank) (comment : kind ≠ .comment) : '/' ∉ cs := by
  intro mem
  rcases spells.chars blank comment mem with word | ⟨mark, same⟩ | plus | minus
  · exact absurd word (by decide)
  · cases mark <;> exact absurd same (by decide)
  · exact absurd plus (by decide)
  · exact absurd minus (by decide)

theorem behind_code_cons (other : c ≠ '/') (cs : List Char) :
    CommentState.code.behind (c :: cs) = CommentState.code.behind cs := by
  cases cs <;> simp [CommentState.behind, other]

/-- Text without a slash leaves comments as they are. -/
theorem behind_code_append {lexeme : List Char} (plain : '/' ∉ lexeme) (rest : List Char) :
    CommentState.code.behind (lexeme ++ rest) = CommentState.code.behind rest := by
  induction lexeme with
  | nil => rfl
  | cons c lexeme ih =>
      have other : c ≠ '/' := fun same => plain (same ▸ List.mem_cons_self)
      rw [List.cons_append, behind_code_cons other]
      exact ih fun mem => plain (List.mem_cons_of_mem c mem)

/-- The rule that finds a comment is the rule for comments. -/
theorem commentReach?_of_firstMatch? (fit : firstMatch? rules c cs = some (.comment, reach)) :
    commentReach? c cs = some reach := by
  obtain ⟨rule, mem, same, fit⟩ := exists_rule_of_firstMatch? fit
  rcases mem_rules mem with ⟨word, rfl⟩ | ⟨mark, rfl⟩ | rfl | rfl | rfl | rfl
  · cases same
  · cases same
  · cases same
  · cases same
  · exact fit
  · cases same

/-- What is left open behind a text is what is left open behind the rest of it, once a token has
    been cut off. -/
theorem opensBlockComment_drop (visible : Text.isBlank c = false)
    (fit : firstMatch? rules c cs = some (kind, reach)) :
    OpensBlockComment (c :: cs) ↔ OpensBlockComment (cs.drop reach) := by
  by_cases comment : kind = .comment
  · subst comment
    obtain ⟨rfl, ⟨body, rfl, rfl⟩ | ⟨body, rfl, closed⟩⟩ :=
      commentReach?_eq_some (commentReach?_of_firstMatch? fit)
    · rw [Nat.add_comm, List.drop_succ_cons]
      exact opensBlockComment_lineComment body
    · obtain ⟨k, rfl, -, later⟩ := behind_of_blockEnd? closed
      rw [Nat.add_comm, List.drop_succ_cons]
      simp [OpensBlockComment, CommentState.behind, later]
  · have plain := (spells_of_firstMatch? fit).slash_not_mem
      (ne_blank_of_firstMatch? visible fit) comment
    have whole : c :: cs = (c :: cs.take reach) ++ cs.drop reach := by
      rw [List.cons_append, List.take_append_drop]
    rw [whole, OpensBlockComment, behind_code_append plain]
    rfl

theorem reach_le_of_firstMatch? (fit : firstMatch? rules c cs = some (kind, reach)) :
    reach ≤ cs.length := by
  obtain ⟨rule, mem, -, fit⟩ := exists_rule_of_firstMatch? fit
  have run (p : Char → Bool) : (cs.takeWhile p).length ≤ cs.length :=
    (List.takeWhile_prefix p).length_le
  rcases mem_rules mem with ⟨word, rfl⟩ | ⟨mark, rfl⟩ | rfl | rfl | rfl | rfl
  · obtain ⟨⟨rest, whole, -⟩, rfl⟩ := reach?_word_iff.mp fit
    have length := congrArg List.length whole
    rw [List.length_cons, List.length_append, String.length_toList] at length
    omega
  · simp only [Rule.punct, Pattern.reach?] at fit
    split at fit <;> cases fit
    exact Nat.zero_le _
  · simp only [Pattern.reach?] at fit
    split at fit <;> cases fit
    exact run _
  · simp only [Pattern.reach?] at fit
    split at fit
    · cases fit
      exact run _
    · split at fit <;> cases fit
      exact run _
  · obtain ⟨-, ⟨body, rfl, rfl⟩ | ⟨body, rfl, closed⟩⟩ := commentReach?_eq_some fit
    · have bound := (List.takeWhile_prefix (l := body) (· ≠ '\n')).length_le
      rw [List.length_cons]
      omega
    · obtain ⟨k, rfl, bound, -⟩ := behind_of_blockEnd? closed
      rw [List.length_cons]
      omega
  · simp only [Pattern.reach?] at fit
    split at fit <;> cases fit
    exact run _

/-! ## What a line break separates -/

theorem takeWhile_append_newline {q : Char → Bool} (ends : q '\n' = false) (cs rest : List Char) :
    (cs ++ '\n' :: rest).takeWhile q = cs.takeWhile q := by
  induction cs with
  | nil => simp [ends]
  | cons c cs ih => rw [List.cons_append, List.takeWhile_cons, List.takeWhile_cons, ih]

theorem Keyword.newline_not_mem (word : Keyword) : '\n' ∉ word.text.toList := by
  cases word <;> decide

/-- A reserved word fits in front of a line break just if it fits where nothing follows. -/
theorem reach?_word_append_newline (word : Keyword) (c : Char) (cs rest : List Char) :
    (Pattern.word word.text).reach? c (cs ++ '\n' :: rest) =
      (Pattern.word word.text).reach? c cs := by
  ext reach
  rw [reach?_word_iff, reach?_word_iff]
  refine and_congr_left fun _ => ⟨?_, ?_⟩
  · rintro ⟨behind, whole, ends⟩
    rw [← List.cons_append] at whole
    rcases List.append_eq_append_iff.mp whole with ⟨more, inside, tail⟩ | ⟨more, split, tail⟩
    · -- The word would reach over the line break.
      cases more with
      | nil => exact ⟨[], by simpa using inside.symm, rfl⟩
      | cons d more =>
          obtain ⟨rfl, -⟩ := List.cons.inj tail
          refine absurd ?_ word.newline_not_mem
          rw [inside]
          exact List.mem_append_right _ List.mem_cons_self
    · refine ⟨more, split, ?_⟩
      cases more with
      | nil => rfl
      | cons d more =>
          rw [tail] at ends
          exact ends
  · rintro ⟨behind, whole, ends⟩
    refine ⟨behind ++ '\n' :: rest, ?_, ?_⟩
    · rw [← List.cons_append, whole, List.append_assoc]
    · cases behind with
      | nil => exact (by decide : Text.isWordChar '\n' = false)
      | cons d behind => exact ends

/-- A comment that is not left open ends in front of the line break or has ended before. -/
theorem commentReach?_append_newline (closed : ¬ OpensBlockComment (c :: cs)) (rest : List Char) :
    commentReach? c (cs ++ '\n' :: rest) = commentReach? c cs := by
  unfold commentReach?
  split
  · rfl
  · rename_i slash
    obtain rfl := Decidable.not_not.mp slash
    cases cs with
    | nil => rfl
    | cons d body =>
        by_cases line : d = '/'
        · simp only [line, List.cons_append]
          rw [takeWhile_append_newline (by decide)]
        · by_cases block : d = '*'
          · simp only [block, List.cons_append]
            cases ends : blockEnd? 1 body with
            | some m => exact blockEnd?_append ends _
            | none =>
                refine absurd ?_ closed
                have unclosed := behind_of_blockEnd?_none ends
                simp [OpensBlockComment, CommentState.behind, block, unclosed]
          · simp [line, block]

/-- Where every rule fits as far in one text as in the other, the same token is found. -/
theorem firstMatch?_congr {rs : List Rule} {cs' : List Char}
    (same : ∀ rule ∈ rs, rule.pattern.reach? c cs = rule.pattern.reach? c cs') :
    firstMatch? rs c cs = firstMatch? rs c cs' := by
  unfold firstMatch?
  induction rs with
  | nil => rfl
  | cons rule rs ih =>
      rw [List.findSome?_cons, List.findSome?_cons, same rule List.mem_cons_self,
        ih fun other mem => same other (List.mem_cons_of_mem rule mem)]

/-- The token at a place is the same whether the text goes on behind a line break or not. -/
theorem firstMatch?_append_newline (visible : Text.isBlank c = false)
    (closed : ¬ OpensBlockComment (c :: cs)) (rest : List Char) :
    firstMatch? rules c (cs ++ '\n' :: rest) = firstMatch? rules c cs := by
  refine firstMatch?_congr fun rule mem => ?_
  rcases mem_rules mem with ⟨word, rfl⟩ | ⟨mark, rfl⟩ | rfl | rfl | rfl | rfl
  · exact reach?_word_append_newline word c cs rest
  · rfl
  · simp only [Pattern.reach?]
    rw [takeWhile_append_newline (by decide)]
  · simp only [Pattern.reach?]
    rw [takeWhile_append_newline (by decide)]
  · exact commentReach?_append_newline closed rest
  · simp only [Pattern.reach?, visible]
    rfl

/-- A blank leaves comments as they are. -/
theorem opensBlockComment_blank (blank : Text.isBlank c = true) (cs : List Char) :
    OpensBlockComment (c :: cs) ↔ OpensBlockComment cs := by
  have other : c ≠ '/' := by
    rintro rfl
    exact absurd blank (by decide)
  rw [OpensBlockComment, behind_code_cons other]
  rfl

/-- At a line break outside every block comment a text can be cut in two. -/
theorem tokensFrom_append_newline (closed : ¬ OpensBlockComment cs) (rest : List Char)
    (p : Position) :
    tokensFrom (cs ++ '\n' :: rest) p = (do
      let front ← tokensFrom cs p
      let behind ← tokensFrom ('\n' :: rest) (p.advance cs)
      return front ++ behind) := by
  fun_induction tokensFrom cs p with
  | case1 p =>
      show tokensFrom ('\n' :: rest) p = (tokensFrom ('\n' :: rest) p).bind fun behind => .ok behind
      cases tokensFrom ('\n' :: rest) p <;> rfl
  | case2 c cs p blank ih =>
      rw [List.cons_append, tokensFrom_blank blank]
      exact ih fun opens => closed ((opensBlockComment_blank blank cs).mpr opens)
  | case3 c cs p visible unfit =>
      have visible : Text.isBlank c = false := by simpa using visible
      rw [List.cons_append, tokensFrom_none visible]
      · rfl
      · rwa [firstMatch?_append_newline visible closed]
  | case4 c cs p visible kind reach fit ih =>
      have visible : Text.isBlank c = false := by simpa using visible
      have bound := reach_le_of_firstMatch? fit
      have fit' := firstMatch?_append_newline visible closed rest
      rw [fit] at fit'
      have later := ih fun opens => closed ((opensBlockComment_drop visible fit).mpr opens)
      rw [List.cons_append, tokensFrom_some visible fit', List.take_append_of_le_length bound,
        List.drop_append_of_le_length bound, later, ← Position.advance_append, List.cons_append,
        List.take_append_drop]
      cases tokensFrom (cs.drop reach) (p.advance (c :: cs.take reach)) with
      | error e => rfl
      | ok front => cases tokensFrom ('\n' :: rest) (p.advance (c :: cs)) <;> rfl

/-- What scanning succeeds on leaves no block comment open. -/
theorem not_opensBlockComment_of_tokensFrom {tokens : List Token}
    (scanned : tokensFrom cs p = .ok tokens) : ¬ OpensBlockComment cs := by
  fun_induction tokensFrom cs p generalizing tokens with
  | case1 p => exact (by decide : ¬ OpensBlockComment [])
  | case2 c cs p blank ih =>
      rw [opensBlockComment_blank blank]
      exact ih scanned
  | case3 c cs p visible unfit => cases scanned
  | case4 c cs p visible kind reach fit ih =>
      rw [opensBlockComment_drop (by simpa using visible) fit]
      cases later : tokensFrom (cs.drop reach) (p.advance (c :: cs.take reach)) with
      | error e =>
          rw [later] at scanned
          cases scanned
      | ok tokens => exact ih later

@[simp] theorem tokensFrom_newline (cs : List Char) (p : Position) :
    tokensFrom ('\n' :: cs) p = tokensFrom cs (p.next '\n') :=
  tokensFrom_blank (by decide) cs p

/-! ## Where the text stands -/

/-- A place moved on by bytes and by whole lines. -/
def Position.shift (p : Position) (bytes lines : Nat) : Position :=
  ⟨p.offset + bytes, p.line + lines, p.column⟩

/-- A token moved on by bytes and by whole lines. -/
def Token.shift (t : Token) (bytes lines : Nat) : Token :=
  { t with position := t.position.shift bytes lines }

/-- An error of scanning moved on by bytes and by whole lines. -/
def LexError.shift (e : LexError) (bytes lines : Nat) : LexError :=
  { e with position := e.position.shift bytes lines }

theorem Position.next_shift (p : Position) (bytes lines : Nat) (c : Char) :
    (p.shift bytes lines).next c = (p.next c).shift bytes lines := by
  unfold next shift
  split
  · simp only [mk.injEq, and_true]
    omega
  · simp only [mk.injEq, and_true]
    omega

theorem Position.advance_shift (p : Position) (bytes lines : Nat) (cs : List Char) :
    (p.shift bytes lines).advance cs = (p.advance cs).shift bytes lines := by
  induction cs generalizing p with
  | nil => rfl
  | cons c cs ih => rw [advance_cons, advance_cons, next_shift, ih]

/-- A text that stands further on has the same tokens, further on. -/
theorem tokensFrom_shift (cs : List Char) (p : Position) (bytes lines : Nat) :
    tokensFrom cs (p.shift bytes lines) =
      match tokensFrom cs p with
      | .ok tokens => .ok (tokens.map (·.shift bytes lines))
      | .error e => .error (e.shift bytes lines) := by
  fun_induction tokensFrom cs p with
  | case1 p => exact tokensFrom_nil _
  | case2 c cs p blank ih => rw [tokensFrom_blank blank, Position.next_shift, ih]
  | case3 c cs p visible unfit =>
      rw [tokensFrom_none (by simpa using visible) unfit]
      rfl
  | case4 c cs p visible kind reach fit ih =>
      rw [tokensFrom_some (by simpa using visible) fit, Position.advance_shift, ih]
      cases tokensFrom (cs.drop reach) (p.advance (c :: cs.take reach)) <;> rfl

/-- Each token of a text stands behind some of it. -/
theorem exists_before_of_tokensFrom {tokens : List Token} (scanned : tokensFrom cs p = .ok tokens)
    {t : Token} (mem : t ∈ tokens) :
    ∃ before after, cs = before ++ t.lexeme.toList ++ after ∧ t.lexeme.toList ≠ [] ∧
      t.position = p.advance before := by
  fun_induction tokensFrom cs p generalizing tokens with
  | case1 p =>
      cases scanned
      cases mem
  | case2 c cs p blank ih =>
      obtain ⟨before, after, whole, some, place⟩ := ih scanned mem
      exact ⟨c :: before, after, by simp [whole], some, place⟩
  | case3 c cs p visible unfit => cases scanned
  | case4 c cs p visible kind reach fit ih =>
      cases later : tokensFrom (cs.drop reach) (p.advance (c :: cs.take reach)) with
      | error e =>
          rw [later] at scanned
          cases scanned
      | ok rest =>
          rw [later] at scanned
          cases scanned
          rcases List.mem_cons.mp mem with rfl | mem
          · refine ⟨[], cs.drop reach, ?_, ?_, rfl⟩
            · simp
            · simp
          · obtain ⟨before, after, whole, some, place⟩ := ih later mem
            refine ⟨c :: cs.take reach ++ before, after, ?_, some, ?_⟩
            · rw [List.append_assoc, List.append_assoc, ← List.append_assoc before, ← whole,
                List.cons_append, List.take_append_drop]
            · rw [place, Position.advance_append]

theorem Position.advance_offset (p : Position) (cs : List Char) :
    (p.advance cs).offset = p.offset + (String.ofList cs).utf8ByteSize := by
  induction cs generalizing p with
  | nil => rfl
  | cons c cs ih =>
      have bytes : (String.ofList (c :: cs)).utf8ByteSize =
          c.utf8Size + (String.ofList cs).utf8ByteSize := by
        rw [← List.singleton_append, String.ofList_append, String.utf8ByteSize_append]
        exact congrArg (· + _) String.utf8ByteSize_singleton
      have step : (p.next c).offset = p.offset + c.utf8Size := by
        unfold next
        split <;> rfl
      rw [advance_cons, ih, step, bytes, Nat.add_assoc]

/-- Each token of a text stands within it. -/
theorem offsets_of_tokensFrom {tokens : List Token} (scanned : tokensFrom cs p = .ok tokens)
    {t : Token} (mem : t ∈ tokens) :
    p.offset ≤ t.position.offset ∧
      t.position.offset + t.lexeme.utf8ByteSize ≤ (p.advance cs).offset := by
  obtain ⟨before, after, whole, -, here⟩ := exists_before_of_tokensFrom scanned mem
  have bytes : (String.ofList t.lexeme.toList).utf8ByteSize = t.lexeme.utf8ByteSize := by
    rw [String.ofList_toList]
  simp only [here, whole, Position.advance_append, Position.advance_offset, bytes]
  omega

/-- Each token of a text starts in front of its end. -/
theorem offset_lt_of_tokensFrom {tokens : List Token} (scanned : tokensFrom cs p = .ok tokens)
    {t : Token} (mem : t ∈ tokens) : t.position.offset < (p.advance cs).offset := by
  obtain ⟨_, _, _, some, _⟩ := exists_before_of_tokensFrom scanned mem
  have bytes : t.lexeme.utf8ByteSize ≠ 0 := by
    intro empty
    rw [String.utf8ByteSize_eq_zero_iff.mp empty] at some
    exact some rfl
  have ends := (offsets_of_tokensFrom scanned mem).2
  omega

/-- The tokens of a text start one behind the other. -/
theorem increasing_of_tokensFrom {tokens : List Token} (scanned : tokensFrom cs p = .ok tokens) :
    tokens.Pairwise fun t s => t.position.offset < s.position.offset := by
  fun_induction tokensFrom cs p generalizing tokens with
  | case1 p =>
      cases scanned
      exact .nil
  | case2 c cs p blank ih => exact ih scanned
  | case3 c cs p blank unfit => cases scanned
  | case4 c cs p visible kind reach fit ih =>
      cases later : tokensFrom (cs.drop reach) (p.advance (c :: cs.take reach)) with
      | error e =>
          rw [later] at scanned
          cases scanned
      | ok others =>
          rw [later] at scanned
          cases scanned
          refine List.Pairwise.cons ?_ (ih later)
          intro s mem
          have behind := (offsets_of_tokensFrom later mem).1
          have moves : p.offset < (p.next c).offset := p.offset_lt_next c
          rw [Position.advance_cons, Position.advance_offset] at behind
          exact Nat.lt_of_lt_of_le moves (Nat.le_trans (Nat.le_add_right _ _) behind)

/-! ## What stands behind a line break -/

/-- Behind a text and a line break a line starts. -/
theorem Position.advance_newline_eq_shift (text : List Char) :
    (start.advance text).next '\n' =
      start.shift ((String.ofList text).utf8ByteSize + 1) (text.count '\n' + 1) := by
  rw [advance_start]
  simp only [behind, next, shift, start, if_true, mk.injEq, and_true]
  exact ⟨by rw [Nat.zero_add]; rfl, Nat.add_assoc 1 _ 1⟩

/-- What stands behind a line break has the tokens that it has alone. -/
theorem tokenize_append_newline {text : List Char} {tokens : List Token}
    (scanned : tokenize text = .ok tokens) (rest : List Char) :
    tokenize (text ++ '\n' :: rest) =
      match tokenize rest with
      | .ok others => .ok (tokens ++ others.map
          (·.shift ((String.ofList text).utf8ByteSize + 1) (text.count '\n' + 1)))
      | .error e =>
        .error (e.shift ((String.ofList text).utf8ByteSize + 1) (text.count '\n' + 1)) := by
  rw [tokenize_eq_tokensFrom] at scanned
  rw [tokenize_eq_tokensFrom, tokenize_eq_tokensFrom,
    tokensFrom_append_newline (not_opensBlockComment_of_tokensFrom scanned), scanned,
    tokensFrom_newline, Position.advance_newline_eq_shift, tokensFrom_shift]
  cases tokensFrom rest .start <;> rfl

end InterfaceHeader
