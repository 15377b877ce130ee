import InterfaceHeader.Proofs.Token.Breaks

/-!
# Lines inside comment tokens

Scanning finds comments token by token, conditional compilation follows them from line to line.
In a text that scans the two agree: in front of a line a block comment is open just if one of the
comment tokens starts before the line and ends behind its start (`opensBlockComment_iff_token`).
-/

namespace InterfaceHeader

variable {cs front rest : List Char} {p : Position} {tokens : List Token}

/-! ## Line breaks at the end -/

/-- The text is empty or its last character is a newline. -/
def EndsLine (cs : List Char) : Prop :=
  ∀ c, cs.getLast? = some c → c = '\n'

theorem EndsLine.of_append {as bs : List Char} (ended : EndsLine (as ++ bs)) : EndsLine bs := by
  intro c last
  exact ended c (by rw [List.getLast?_append, last, Option.some_or])

theorem EndsLine.eq (ended : EndsLine cs) : cs = [] ∨ ∃ line, cs = line ++ ['\n'] := by
  cases last : cs.getLast? with
  | none => exact Or.inl (List.getLast?_eq_none_iff.mp last)
  | some c =>
      obtain rfl := ended c last
      exact Or.inr (List.getLast?_eq_some_iff.mp last)

theorem endsLine_unlines (ls : List String) : EndsLine (Text.unlines ls).toList := by
  intro c last
  rw [Text.toList_unlines] at last
  rcases List.eq_nil_or_concat ls with rfl | ⟨before, line, rfl⟩
  · cases last
  · simpa [List.getLast?_append] using last.symm

/-- A piece of a text without newlines lies within the whole lines that the text starts with. -/
theorem EndsLine.exists_behind {piece more : List Char} (ended : EndsLine front) (some : front ≠ [])
    (inLine : '\n' ∉ piece) (whole : front ++ rest = piece ++ more) :
    ∃ behind, front = piece ++ behind ∧ more = behind ++ rest := by
  rcases List.append_eq_append_iff.mp whole with ⟨more, same, -⟩ | ⟨behind, same, tail⟩
  · obtain rfl | ⟨line, rfl⟩ := ended.eq
    · exact absurd rfl some
    · exact absurd (by simp [same]) inLine
  · exact ⟨behind, same, tail⟩

/-- A block comment stays open over a line break. -/
theorem OpensBlockComment.append_newline (opens : OpensBlockComment cs) :
    OpensBlockComment (cs ++ ['\n']) := by
  have stays (state : CommentState) (cs : List Char) (opens : state.behind cs = .blockComment) :
      state.behind (cs ++ ['\n']) = .blockComment := by
    fun_induction CommentState.behind state cs with
    | case1 state =>
        subst opens
        rfl
    | case2 cs ih => simpa [CommentState.behind] using ih opens
    | case3 c cs noMark ih =>
        have later := ih opens
        cases cs <;> simp_all [CommentState.behind]
    | case4 c cs ih => simpa [CommentState.behind] using ih opens
    | case5 cs ih => simpa [CommentState.behind] using ih opens
    | case6 cs ih => simpa [CommentState.behind] using ih opens
    | case7 c cs noBlock noLine ih =>
        have later := ih opens
        cases cs <;> simp_all [CommentState.behind]
  exact stays .code cs opens

/-- Where whole lines leave no block comment open a text can be cut in two. -/
theorem tokensFrom_append (ended : EndsLine front) (closed : ¬ OpensBlockComment front)
    (rest : List Char) (p : Position) :
    tokensFrom (front ++ rest) p = (do
      let before ← tokensFrom front p
      let behind ← tokensFrom rest (p.advance front)
      return before ++ behind) := by
  obtain rfl | ⟨line, rfl⟩ := ended.eq
  · show tokensFrom rest p = (tokensFrom [] p).bind fun before =>
      (tokensFrom rest p).bind fun behind => .ok (before ++ behind)
    rw [tokensFrom_nil]
    cases tokensFrom rest p <;> rfl
  · have closed' : ¬ OpensBlockComment line := fun opens => closed opens.append_newline
    rw [List.append_assoc, List.singleton_append, tokensFrom_append_newline closed',
      tokensFrom_append_newline closed', tokensFrom_newline, tokensFrom_newline, tokensFrom_nil,
      Position.advance_append]
    cases tokensFrom line p with
    | error e => rfl
    | ok before =>
        show (tokensFrom rest ((p.advance line).next '\n')).bind _ =
          (tokensFrom rest ((p.advance line).next '\n')).bind fun behind =>
            .ok (before ++ [] ++ behind)
        rw [List.append_nil]
        rfl

theorem tokensFrom_append_ok (ended : EndsLine front) (closed : ¬ OpensBlockComment front)
    (scanned : tokensFrom (front ++ rest) p = .ok tokens) :
    ∃ first later, tokensFrom front p = .ok first ∧
      tokensFrom rest (p.advance front) = .ok later ∧ tokens = first ++ later := by
  rw [tokensFrom_append ended closed] at scanned
  cases before : tokensFrom front p with
  | error e =>
      rw [before] at scanned
      cases scanned
  | ok first =>
      cases behind : tokensFrom rest (p.advance front) with
      | error e =>
          rw [before, behind] at scanned
          cases scanned
      | ok later =>
          rw [before, behind] at scanned
          cases scanned
          exact ⟨first, later, rfl, rfl, rfl⟩

/-! ## Comments across line breaks -/

/-- The close mark of a block comment takes two characters. -/
theorem le_of_blockEnd? {n m : Nat} {body : List Char} (ends : blockEnd? n body = some m) :
    n + 2 ≤ m := by
  fun_induction blockEnd? n body with
  | case1 n => cases ends
  | case2 n cs =>
      cases ends
      exact Nat.le_refl _
  | case3 n c cs noMark ih => exact Nat.le_trans (by omega) (ih ends)

/-- A block comment that ends within a text ends there whatever follows. -/
theorem blockEnd?_of_append {n m : Nat} {body : List Char}
    (ends : blockEnd? n (body ++ rest) = some m) (within : m ≤ n + body.length) :
    blockEnd? n body = some m := by
  fun_induction blockEnd? n body with
  | case1 n =>
      have bound := le_of_blockEnd? ends
      simp at within
      omega
  | case2 n cs => simpa [blockEnd?] using ends
  | case3 n c cs noMark ih =>
      have bound := le_of_blockEnd? ends
      rw [List.length_cons] at within
      cases cs with
      | nil =>
          simp at within
          omega
      | cons d ds =>
          refine ih ?_ (by omega)
          simp_all [blockEnd?]

theorem takeWhile_of_append {q : Char → Bool} {body : List Char}
    (within : ((body ++ rest).takeWhile q).length ≤ body.length) :
    (body ++ rest).takeWhile q = body.takeWhile q := by
  induction body with
  | nil =>
      rw [List.nil_append] at within ⊢
      exact List.length_eq_zero_iff.mp (Nat.le_zero.mp within)
  | cons c body ih =>
      rw [List.cons_append, List.takeWhile_cons, List.takeWhile_cons] at *
      split
      · rename_i holds
        rw [if_pos holds, List.length_cons, List.length_cons] at within
        rw [ih (Nat.le_of_succ_le_succ within)]
      · rfl

/-- What is left open behind whole lines is what is left open behind the rest of them, once a token
    within them has been cut off. -/
theorem opensBlockComment_drop_within {c : Char} {kind : TokenKind} {reach : Nat}
    (visible : Text.isBlank c = false)
    (fit : firstMatch? rules c (cs ++ rest) = some (kind, reach)) (within : reach ≤ cs.length) :
    OpensBlockComment (c :: cs) ↔ OpensBlockComment (cs.drop reach) := by
  have piece : (cs ++ rest).take reach = cs.take reach := List.take_append_of_le_length within
  by_cases comment : kind = .comment
  · subst comment
    obtain ⟨rfl, ⟨body, whole, rfl⟩ | ⟨body, whole, closed⟩⟩ :=
      commentReach?_eq_some (commentReach?_of_firstMatch? fit)
    · cases cs with
      | nil => simp at within
      | cons d body' =>
          rw [List.cons_append] at whole
          obtain ⟨rfl, rfl⟩ := List.cons.inj whole
          rw [List.length_cons, Nat.add_comm] at within
          rw [takeWhile_of_append (Nat.le_of_succ_le_succ within), Nat.add_comm,
            List.drop_succ_cons]
          exact opensBlockComment_lineComment body'
    · cases cs with
      | nil =>
          have bound := le_of_blockEnd? closed
          simp at within
          omega
      | cons d body' =>
          rw [List.cons_append] at whole
          obtain ⟨rfl, rfl⟩ := List.cons.inj whole
          rw [List.length_cons, Nat.add_comm] at within
          obtain ⟨k, rfl, -, later⟩ := behind_of_blockEnd? (blockEnd?_of_append closed within)
          rw [Nat.add_comm, List.drop_succ_cons]
          simp [OpensBlockComment, CommentState.behind, later]
  · have plain := (spells_of_firstMatch? fit).slash_not_mem
      (ne_blank_of_firstMatch? visible fit) comment
    rw [piece] at plain
    have whole : c :: cs = (c :: cs.take reach) ++ cs.drop reach := by
      rw [List.cons_append, List.take_append_drop]
    rw [whole, OpensBlockComment, behind_code_append plain]
    rfl

/-- A token that reaches over the end of whole lines is a comment. -/
theorem comment_of_beyond {c : Char} {kind : TokenKind} {reach : Nat} (ended : EndsLine (c :: cs))
    (visible : Text.isBlank c = false)
    (fit : firstMatch? rules c (cs ++ rest) = some (kind, reach)) (beyond : cs.length < reach) :
    kind = .comment := by
  have bound := reach_le_of_firstMatch? fit
  have length : (c :: (cs ++ rest).take reach).length = reach + 1 := by
    rw [List.length_cons, List.length_take, Nat.min_eq_left bound]
  refine Decidable.byContradiction fun comment => ?_
  obtain ⟨-, inLine⟩ :=
    (spells_of_firstMatch? fit).inLine (ne_blank_of_firstMatch? visible fit) comment
  have whole : (c :: cs) ++ rest = (c :: (cs ++ rest).take reach) ++ (cs ++ rest).drop reach := by
    rw [List.cons_append, List.cons_append, List.take_append_drop]
  obtain ⟨behind, same, -⟩ := ended.exists_behind (List.cons_ne_nil c cs) inLine whole
  have lengths := congrArg List.length same
  rw [List.length_append, length, List.length_cons] at lengths
  omega

/-- A token that reaches over the end of a text ends behind it. -/
theorem offset_lt_of_beyond {reach : Nat} (p : Position) (c : Char) (beyond : cs.length < reach)
    (bound : reach ≤ (cs ++ rest).length) :
    (p.advance (c :: cs)).offset <
      p.offset + (String.ofList (c :: (cs ++ rest).take reach)).utf8ByteSize := by
  obtain ⟨k, rfl⟩ : ∃ k, reach = cs.length + (k + 1) := ⟨reach - cs.length - 1, by omega⟩
  cases rest with
  | nil =>
      rw [List.append_nil] at bound
      omega
  | cons d rest =>
      have whole : c :: (cs ++ d :: rest).take (cs.length + (k + 1)) =
          (c :: cs) ++ d :: rest.take k := by
        rw [List.take_length_add_append]
        rfl
      have further := Position.offset_lt_next (p.advance (c :: cs)) d
      have grows : ((p.advance (c :: cs)).next d).offset ≤
          (((p.advance (c :: cs)).next d).advance (rest.take k)).offset := by
        rw [Position.advance_offset]
        exact Nat.le_add_right _ _
      rw [whole, ← Position.advance_offset, Position.advance_append, Position.advance_cons]
      exact Nat.lt_of_lt_of_le further grows

/-- Where a line starts inside a block comment, a comment token goes on over its start. -/
theorem exists_comment_of_opens (ended : EndsLine front) (opens : OpensBlockComment front)
    (scanned : tokensFrom (front ++ rest) p = .ok tokens) :
    ∃ t ∈ tokens, t.kind = .comment ∧ t.position.offset < (p.advance front).offset ∧
      (p.advance front).offset < t.position.offset + t.lexeme.utf8ByteSize := by
  induction length : front.length using Nat.strongRecOn generalizing front p tokens with
  | ind n ih =>
      cases front with
      | nil => exact absurd opens (by decide)
      | cons c cs =>
          rw [List.length_cons] at length
          rw [List.cons_append] at scanned
          have starts : p.offset < (p.advance (c :: cs)).offset := by
            rw [Position.advance_cons, Position.advance_offset]
            exact Nat.lt_of_lt_of_le (p.offset_lt_next c) (Nat.le_add_right _ _)
          cases visible : Text.isBlank c with
          | true =>
              rw [tokensFrom_blank visible] at scanned
              rw [opensBlockComment_blank visible] at opens
              have behind : EndsLine ([c] ++ cs) := ended
              have found := ih cs.length (by omega) behind.of_append opens scanned rfl
              exact found
          | false =>
              cases fit : firstMatch? rules c (cs ++ rest) with
              | none =>
                  rw [tokensFrom_none visible fit] at scanned
                  cases scanned
              | some found =>
                  obtain ⟨kind, reach⟩ := found
                  rw [tokensFrom_some visible fit] at scanned
                  generalize behind : tokensFrom ((cs ++ rest).drop reach)
                    (p.advance (c :: (cs ++ rest).take reach)) = result at scanned
                  cases result with
                  | error e => cases scanned
                  | ok later =>
                      cases scanned
                      by_cases beyond : cs.length < reach
                      · -- the token is the comment that is open at the end of the lines
                        have comment := comment_of_beyond ended visible fit beyond
                        have ends := offset_lt_of_beyond p c beyond (reach_le_of_firstMatch? fit)
                        exact ⟨_, List.mem_cons_self, comment, starts, ends⟩
                      · -- it ends within them, and behind it the same comment is open
                        have within : reach ≤ cs.length := Nat.le_of_not_lt beyond
                        have split : c :: cs = (c :: cs.take reach) ++ cs.drop reach := by
                          rw [List.cons_append, List.take_append_drop]
                        rw [opensBlockComment_drop_within visible fit within] at opens
                        rw [List.take_append_of_le_length within,
                          List.drop_append_of_le_length within] at behind
                        rw [split] at ended
                        obtain ⟨t, mem, found⟩ := ih (cs.drop reach).length
                          (by rw [List.length_drop]; omega) ended.of_append opens behind rfl
                        rw [← Position.advance_append, ← split] at found
                        exact ⟨t, List.mem_cons_of_mem _ mem, found⟩

/-- Where whole lines leave no block comment open, no token goes on over their end. -/
theorem not_over_of_closed (ended : EndsLine front) (closed : ¬ OpensBlockComment front)
    (scanned : tokensFrom (front ++ rest) p = .ok tokens) {t : Token} (mem : t ∈ tokens) :
    t.position.offset + t.lexeme.utf8ByteSize ≤ (p.advance front).offset ∨
      (p.advance front).offset ≤ t.position.offset := by
  obtain ⟨first, later, before, behind, rfl⟩ := tokensFrom_append_ok ended closed scanned
  rcases List.mem_append.mp mem with mem | mem
  · exact Or.inl (offsets_of_tokensFrom before mem).2
  · exact Or.inr (offsets_of_tokensFrom behind mem).1

/-- In front of a line a block comment is open just if a comment token goes on over the start of
    the line. -/
theorem opensBlockComment_iff_token (ended : EndsLine front)
    (scanned : tokensFrom (front ++ rest) p = .ok tokens) :
    OpensBlockComment front ↔
      ∃ t ∈ tokens, t.kind = .comment ∧ t.position.offset < (p.advance front).offset ∧
        (p.advance front).offset < t.position.offset + t.lexeme.utf8ByteSize := by
  refine ⟨fun opens => exists_comment_of_opens ended opens scanned, ?_⟩
  rintro ⟨t, mem, -, starts, ends⟩
  refine Decidable.byContradiction fun closed => ?_
  have outside := not_over_of_closed ended closed scanned mem
  omega

end InterfaceHeader
