import InterfaceHeader.Proofs.Reading.Declarations

/-!
# Where the tokens stand

Reading looks at the places of tokens for two things only: a comment belongs to the token before
it if it starts on the token's line, and of two errors the one further on is the one to report. So
tokens that are alike one by one are read alike, as long as the two agree on which comments trail a
token (`Matched`) and the places are related in a way that keeps their order (`Orderly`).
-/

namespace InterfaceHeader

variable {Place : Position → Position → Prop}

/-- A comment stands directly behind the token, on the token's line. -/
def Token.isTrailed (t : Token) : List Token → Bool
  | [] => false
  | next :: _ => next.isComment && next.position.line == t.position.line

/-- The tokens are alike one by one, and a significant one is trailed by a comment on both sides
    or on neither. -/
inductive Matched (Place : Position → Position → Prop) : List Token → List Token → Prop where
  | nil : Matched Place [] []
  | cons {t t' : Token} {ts ts' : List Token} :
      t.Alike Place t' → (t.isComment = false → t.isTrailed ts = t'.isTrailed ts') →
        Matched Place ts ts' → Matched Place (t :: ts) (t' :: ts')

/-- Related places come in the same order on both sides, and before the end on both or on
    neither. -/
structure Orderly (Place : Position → Position → Prop) : Prop where
  lt_iff {p p' q q' : Position} :
    Place p p' → Place q q' → (p.offset < q.offset ↔ p'.offset < q'.offset)
  eq_iff {p p' q q' : Position} : Place p p' → Place q q' → (p = q ↔ p' = q')
  before_end {p p' : Position} :
    Place p p' → (p.offset < SyntaxError.endDepth ↔ p'.offset < SyntaxError.endDepth)

/-- The deeper of two errors is the same one on both sides. -/
theorem Orderly.depth_lt (orderly : Orderly Place) {e e' f f' : SyntaxError}
    (alike : e.Alike Place e')
    (alike' : f.Alike Place f') : e.depth < f.depth ↔ e'.depth < f'.depth := by
  have places := alike.position
  have places' := alike'.position
  unfold SyntaxError.depth
  generalize e.position = p, e'.position = p' at places ⊢
  generalize f.position = q, f'.position = q' at places' ⊢
  cases places with
  | none =>
      cases places' with
      | none => simp
      | some placed' =>
          dsimp only
          omega
  | some placed =>
      have atEnd := orderly.before_end placed
      cases places' with
      | none =>
          dsimp only
          omega
      | some placed' =>
          have inOrder := orderly.lt_iff placed placed'
          have atEnd' := orderly.before_end placed'
          dsimp only
          omega

namespace Matched

variable {ts ts' : List Token}

theorem length_eq (matched : Matched Place ts ts') : ts.length = ts'.length := by
  induction matched with
  | nil => rfl
  | cons _ _ _ ih => rw [List.length_cons, List.length_cons, ih]

theorem terminals_eq (matched : Matched Place ts ts') : terminals ts = terminals ts' := by
  induction matched with
  | nil => rfl
  | @cons t t' ts ts' alike _ _ ih =>
      cases commented : t.isComment with
      | true =>
          rw [terminals_cons_comment commented,
            terminals_cons_comment (alike.isComment_eq ▸ commented), ih]
      | false =>
          rw [terminals_cons_significant commented,
            terminals_cons_significant (alike.isComment_eq ▸ commented), ih, Token.terminal,
            Token.terminal, alike.kind, alike.lexeme]

/-- Tokens that are alike one by one match if the places say the same about what is on a line. -/
theorem of_forall₂ (sameLine : ∀ {p p' q q' : Position}, Place p p' → Place q q' →
      (p.line = q.line ↔ p'.line = q'.line))
    (alikes : List.Forall₂ (Token.Alike Place) ts ts') : Matched Place ts ts' := by
  induction alikes with
  | nil => exact .nil
  | @cons t t' _ _ alike others ih =>
      refine .cons alike (fun _ => ?_) ih
      cases others with
      | nil => rfl
      | cons next _ =>
          rw [Token.isTrailed, Token.isTrailed, next.isComment_eq, Bool.eq_iff_iff,
            Bool.and_eq_true, Bool.and_eq_true, beq_iff_eq, beq_iff_eq,
            sameLine next.place alike.place]

/-- The comments in front of the next significant token are the same on both sides. -/
theorem dropWhile (matched : Matched Place ts ts') :
    Matched Place (ts.dropWhile Token.isComment) (ts'.dropWhile Token.isComment) := by
  induction matched with
  | nil => exact .nil
  | @cons t t' ts ts' alike trailed rest ih =>
      cases commented : t.isComment with
      | true =>
          rwa [List.dropWhile_cons_of_pos commented,
            List.dropWhile_cons_of_pos (alike.isComment_eq ▸ commented)]
      | false =>
          have noComment : t'.isComment = false := alike.isComment_eq ▸ commented
          rw [List.dropWhile_cons_of_neg (by simp [commented]),
            List.dropWhile_cons_of_neg (by simp [noComment])]
          exact .cons alike trailed rest

end Matched

namespace Cursor

/-- The tokens ahead match, and the first cursor has counted so many tokens more. -/
structure MeetsMatched (Place : Position → Position → Prop) (total lead : Nat) (c c' : Cursor) :
    Prop where
  ahead : Matched Place c.ahead c'.ahead
  consumed : c.consumed = c'.consumed + lead
  count : c.consumed + c.terminals.length = total

/-- Directly behind both cursors is a significant token, trailed by a comment or not. -/
structure BehindMatched (Place : Position → Position → Prop) (total lead : Nat)
    (c c' : Cursor) : Prop extends MeetsMatched Place total lead c c' where
  trailing : c.hasTrailingComment = c'.hasTrailingComment

theorem hasTrailingComment_behind (t : Token) (rest : List Token) (n : Nat) :
    hasTrailingComment ⟨rest, n, some t.position⟩ = t.isTrailed rest := by
  cases rest <;> rfl

variable {total lead : Nat} {c c' : Cursor}

theorem MeetsMatched.significant (meets : MeetsMatched Place total lead c c') :
    (c.significant = [] ∧ c'.significant = []) ∨
      ∃ t rest t' rest', c.significant = t :: rest ∧ c'.significant = t' :: rest' ∧
        t.Alike Place t' ∧
        BehindMatched Place total lead ⟨rest, c.consumed + 1, some t.position⟩
          ⟨rest', c'.consumed + 1, some t'.position⟩ := by
  have matched := meets.ahead.dropWhile
  change Matched Place c.significant c'.significant at matched
  generalize front : c.significant = ts, front' : c'.significant = ts' at matched
  cases matched with
  | nil => exact Or.inl ⟨rfl, rfl⟩
  | @cons t t' rest rest' alike trailed restMatched =>
      have noComment := isComment_of_significant front
      refine Or.inr ⟨t, rest, t', rest', rfl, rfl, alike, ⟨restMatched, ?_, ?_⟩, ?_⟩
      · show c.consumed + 1 = c'.consumed + 1 + lead
        rw [meets.consumed]
        omega
      · have count := meets.count
        rw [c.terminals_eq_significant, front, terminals_cons_significant noComment,
          List.length_cons] at count
        show c.consumed + 1 + (InterfaceHeader.terminals rest).length = total
        omega
      · rw [hasTrailingComment_behind, hasTrailingComment_behind, trailed noComment]

/-- A comment is taken on both sides or on neither. -/
theorem MeetsMatched.comment (meets : MeetsMatched Place total lead c c') :
    ∃ a d d', Reader.comment c = .ok a d ∧ Reader.comment c' = .ok a d' ∧
      MeetsMatched Place total lead d d' ∧ d.consumed = c.consumed := by
  have matched := meets.ahead
  generalize ahead : c.ahead = ts, ahead' : c'.ahead = ts' at matched
  cases matched with
  | nil =>
      exact ⟨none, c, c', Reader.comment_of_nil ahead, Reader.comment_of_nil ahead', meets, rfl⟩
  | @cons t t' rest rest' alike _ restMatched =>
      cases commented : t.isComment with
      | false =>
          exact ⟨none, c, c', Reader.comment_of_significant ahead commented,
            Reader.comment_of_significant ahead' (alike.isComment_eq ▸ commented), meets, rfl⟩
      | true =>
          refine ⟨some t.lexeme, { c with ahead := rest }, { c' with ahead := rest' },
            Reader.comment_of_isComment ahead commented, ?_, ⟨restMatched, meets.consumed, ?_⟩, rfl⟩
          · rw [alike.lexeme]
            exact Reader.comment_of_isComment ahead' (alike.isComment_eq ▸ commented)
          · have count := meets.count
            rw [terminals, ahead, terminals_cons_comment commented] at count
            exact count

theorem BehindMatched.orTrailing (behind : BehindMatched Place total lead c c')
    (comment? : Option String) :
    ∃ a d d', Reader.orTrailing comment? c = .ok a d ∧ Reader.orTrailing comment? c' = .ok a d' ∧
      MeetsMatched Place total lead d d' ∧ d.consumed = c.consumed := by
  cases comment? with
  | some text => exact ⟨some text, c, c', rfl, rfl, behind.toMeetsMatched, rfl⟩
  | none =>
      show ∃ a d d', Reader.trailingComment c = .ok a d ∧ Reader.trailingComment c' = .ok a d' ∧
        MeetsMatched Place total lead d d' ∧ d.consumed = c.consumed
      unfold Reader.trailingComment
      rw [← behind.trailing]
      split
      · exact behind.toMeetsMatched.comment
      · exact ⟨none, c, c', rfl, rfl, behind.toMeetsMatched, rfl⟩

end Cursor

namespace Correspondence

open Reader

/-- Reading tokens that match. -/
def matched (orderly : Orderly Place) (total lead : Nat) : Correspondence where
  Meets := Cursor.MeetsMatched Place total lead
  Behind := Cursor.BehindMatched Place total lead
  Place := Place
  shown comment := comment
  total := total
  lead := lead
  meets_of_behind meets := meets.toMeetsMatched
  consumed_eq meets := meets.consumed
  count meets := ⟨meets.count, by rw [Cursor.terminals, Cursor.terminals, meets.ahead.terminals_eq]⟩
  significant meets := meets.significant
  comment meets := by
    obtain ⟨a, d, d', ran, ran', stops, consumed⟩ := meets.comment
    exact ⟨a, d, a, d', ran, ran', rfl, stops, consumed⟩
  orTrailing {c c' a a'} meets same := by
    cases same
    obtain ⟨b, d, d', ran, ran', stops, consumed⟩ := meets.orTrailing a
    exact ⟨b, d, b, d', ran, ran', rfl, stops, consumed⟩
  depth_lt := orderly.depth_lt
  place_eq := orderly.eq_iff

end Correspondence

/-- Leaving all comments as they are leaves a declaration as it is. -/
theorem Declaration.mapComments_id (d : Declaration) :
    d.mapComments (fun comment => comment) = d := by
  have kept (field : StructField) : field.mapComment (fun comment => comment) = field := by
    cases field <;> rfl
  cases d with
  | comment _ => rfl
  | typeAlias _ => rfl
  | function _ => rfl
  | enum decl => simp [mapComments, EnumDecl.mapComments, EnumValue.mapComment]
  | struct decl => simp [mapComments, StructDecl.mapComments, kept]

namespace Correspondence

open Reader

variable {total lead : Nat} {c c' : Cursor}

theorem declarations_matched (orderly : Orderly Place) {n n' : Nat}
    (meets : c.MeetsMatched Place total lead c') (fits : c.ahead.length ≤ n)
    (fits' : c'.ahead.length ≤ n') :
    (matched orderly total lead).Outcomes (· = ·) (fun _ _ => True) (declarations n c)
      (declarations n' c') := by
  induction n generalizing c c' n' with
  | zero =>
      have ahead : c.ahead = [] := List.length_eq_zero_iff.mp (by omega)
      have ahead' : c'.ahead = [] := List.length_eq_zero_iff.mp (by
        rw [← meets.ahead.length_eq, ahead]
        rfl)
      rw [declarations_of_nil ahead, declarations_of_nil ahead']
      exact .ok rfl trivial
  | succ n ih =>
      have matching := meets.ahead
      generalize ahead : c.ahead = ts, ahead' : c'.ahead = ts' at matching
      cases matching with
      | nil =>
          rw [declarations_of_nil ahead, declarations_of_nil ahead']
          exact .ok rfl trivial
      | @cons t t' rest rest' alike _ restMatching =>
          rw [ahead, List.length_cons] at fits
          rw [ahead', List.length_cons] at fits'
          obtain ⟨n', rfl⟩ : ∃ k, n' = k + 1 := ⟨n' - 1, by omega⟩
          cases commented : t.isComment with
          | true =>
              have isComment' : t'.isComment = true := alike.isComment_eq ▸ commented
              rw [declarations_of_comment ahead commented,
                declarations_of_comment ahead' isComment', alike.lexeme]
              have count := meets.count
              rw [Cursor.terminals, ahead, terminals_cons_comment commented] at count
              have meets' : Cursor.MeetsMatched Place total lead { c with ahead := rest }
                  { c' with ahead := rest' } := ⟨restMatching, meets.consumed, count⟩
              refine (ih meets' (Nat.le_of_succ_le_succ fits) (Nat.le_of_succ_le_succ fits')).bind
                fun ds ds' _ _ sameRest _ => ?_
              exact .ok (congrArg _ sameRest) trivial
          | false =>
              have noComment' : t'.isComment = false := alike.isComment_eq ▸ commented
              refine declarations_of_round (K := matched orderly total lead) meets ahead ahead'
                commented noComment' alike.place (Nat.le_of_succ_le_succ fits)
                (Nat.le_of_succ_le_succ fits') (fun {d d' _ _} sameShown sameRest => ?_) ih
              have same : d = d' := by
                rw [← d.mapComments_id, ← d'.mapComments_id]
                exact sameShown
              rw [same, sameRest]

end Correspondence

/-- A header is what the loop over its declarations finds. -/
theorem Header.ofTokens?_eq (tokens : List Token) :
    Header.ofTokens? tokens =
      match Reader.declarations (Cursor.ofTokens tokens).ahead.length (Cursor.ofTokens tokens) with
      | .ok ds _ => .ok ⟨ds⟩
      | .error e _ => .error e := by
  have unfolded (c : Cursor) : Reader.header c =
      (Reader.declarations c.ahead.length >>= fun ds => pure ⟨ds⟩) c := rfl
  rw [Header.ofTokens?, unfolded, Reader.bind_apply]
  cases Reader.declarations _ (Cursor.ofTokens tokens) <;> rfl

/-- Tokens that match are read as the same header, or refused with errors that are alike. -/
theorem ofTokens?_matched (orderly : Orderly Place) {tokens tokens' : List Token}
    (matching : Matched Place (Cursor.ofTokens tokens).ahead (Cursor.ofTokens tokens').ahead) :
    (∃ header, Header.ofTokens? tokens = .ok header ∧ Header.ofTokens? tokens' = .ok header) ∨
      ∃ e e', Header.ofTokens? tokens = .error e ∧ Header.ofTokens? tokens' = .error e' ∧
        e.Alike Place e' := by
  have meets : Cursor.MeetsMatched Place
      (0 + (Cursor.ofTokens tokens).terminals.length) 0 (Cursor.ofTokens tokens)
      (Cursor.ofTokens tokens') := ⟨matching, rfl, rfl⟩
  have outcomes := Correspondence.declarations_matched orderly meets (Nat.le_refl _) (Nat.le_refl _)
  rw [Header.ofTokens?_eq, Header.ofTokens?_eq]
  generalize Reader.declarations _ (Cursor.ofTokens tokens) = result,
    Reader.declarations _ (Cursor.ofTokens tokens') = result' at outcomes ⊢
  cases outcomes with
  | ok same _ =>
      cases same
      exact Or.inl ⟨_, rfl, rfl⟩
  | error alike _ => exact Or.inr ⟨_, _, rfl, rfl, alike⟩

end InterfaceHeader
