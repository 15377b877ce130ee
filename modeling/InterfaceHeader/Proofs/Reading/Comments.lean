import InterfaceHeader.Proofs.Reading.Declarations

/-!
# Comments never influence the grammar

Reading tokens and reading them without the comments among them run in parallel: a cursor meets
the one with the comments ahead taken out. A reader that takes a comment moves on where there is
one and stays where it is on the other side, but the cursors still meet, and nothing is shown of
the comment. So the two readings settle every choice in the same way, find the same tree but for
its comments, and fail with the same error (`reading_ignores_comments`).
-/

namespace InterfaceHeader

theorem SyntaxError.Alike.eq {e e' : SyntaxError} (alike : e.Alike (· = ·) e') : e = e' := by
  obtain ⟨position, found, expected⟩ := e
  obtain ⟨position', found', expected'⟩ := e'
  obtain ⟨places, rfl, rfl⟩ := alike
  cases places with
  | none => rfl
  | some same =>
      cases same
      rfl

/-- The cursor with the comments ahead taken out. -/
def Cursor.withoutComments (c : Cursor) : Cursor :=
  { c with ahead := c.ahead.filter Token.isSignificant }

namespace Cursor

variable {c : Cursor} {t : Token} {rest : List Token}

theorem terminals_withoutComments (c : Cursor) : c.withoutComments.terminals = c.terminals := by
  unfold terminals InterfaceHeader.terminals withoutComments
  rw [List.filter_filter]
  simp only [Bool.and_self]

theorem ahead_withoutComments (c : Cursor) :
    c.withoutComments.ahead = c.significant.filter Token.isSignificant := by
  obtain ⟨comments, ahead, silent⟩ := c.ahead_eq_comments_append
  rw [InterfaceHeader.terminals, List.map_eq_nil_iff] at silent
  rw [withoutComments, ahead, List.filter_append, silent, List.nil_append]

theorem significant_withoutComments_of_nil (ended : c.significant = []) :
    c.withoutComments.significant = [] := by
  rw [significant, ahead_withoutComments, ended]
  rfl

theorem significant_withoutComments (front : c.significant = t :: rest) :
    c.withoutComments.significant = t :: rest.filter Token.isSignificant := by
  have noComment := isComment_of_significant front
  rw [significant, ahead_withoutComments, front,
    List.filter_cons_of_pos (by simp [Token.isSignificant, noComment]),
    List.dropWhile_cons_of_neg (by simp [noComment])]

theorem withoutComments_of_comment (ahead : c.ahead = t :: rest) (isComment : t.isComment = true) :
    withoutComments { c with ahead := rest } = c.withoutComments := by
  unfold withoutComments
  rw [ahead, List.filter_cons_of_neg (by simp [Token.isSignificant, isComment])]

theorem withoutComments_ofTokens (tokens : List Token) :
    (ofTokens tokens).withoutComments = ofTokens (tokens.filter Token.isSignificant) := by
  simp only [withoutComments, ofTokens, List.filter_filter, Bool.and_comm]

/-- Without comments there is none to be taken. -/
theorem takeComment?_withoutComments (c : Cursor) : c.withoutComments.takeComment? = none := by
  unfold takeComment?
  split
  · rfl
  · rename_i t rest ahead
    have mem : t ∈ c.withoutComments.ahead := by
      rw [ahead]
      exact List.mem_cons_self
    have noComment : t.isComment = false := by
      simpa [Token.isSignificant] using (List.mem_filter.mp mem).2
    rw [noComment]
    rfl

end Cursor

namespace Reader

theorem comment_withoutComments (c : Cursor) :
    comment c.withoutComments = .ok none c.withoutComments := by
  unfold comment
  rw [c.takeComment?_withoutComments]

theorem orTrailing_withoutComments (comment? : Option String) (c : Cursor) :
    ∃ a, orTrailing comment? c.withoutComments = .ok a c.withoutComments := by
  cases comment? with
  | some text => exact ⟨some text, rfl⟩
  | none =>
      show ∃ a, trailingComment c.withoutComments = .ok a c.withoutComments
      unfold trailingComment
      rw [comment_withoutComments, ite_self]
      exact ⟨none, rfl⟩

/-- Where a comment is taken, what is ahead without comments stays the same. -/
theorem comment_passes_comment (c : Cursor) :
    ∃ a d, comment c = .ok a d ∧ d.withoutComments = c.withoutComments := by
  cases ahead : c.ahead with
  | nil => exact ⟨none, c, comment_of_nil ahead, rfl⟩
  | cons t rest =>
      cases commented : t.isComment with
      | false => exact ⟨none, c, comment_of_significant ahead commented, rfl⟩
      | true =>
          exact ⟨some t.lexeme, { c with ahead := rest }, comment_of_isComment ahead commented,
            Cursor.withoutComments_of_comment ahead commented⟩

theorem orTrailing_passes_comment (comment? : Option String) (c : Cursor) :
    ∃ a d, orTrailing comment? c = .ok a d ∧ d.withoutComments = c.withoutComments := by
  cases comment? with
  | some text => exact ⟨some text, c, rfl, rfl⟩
  | none =>
      show ∃ a d, trailingComment c = .ok a d ∧ d.withoutComments = c.withoutComments
      unfold trailingComment
      split
      · exact comment_passes_comment c
      · exact ⟨none, c, rfl, rfl⟩

end Reader

/-- The second cursor is the first one without comments, and so many significant tokens there are
    in all. -/
structure Cursor.MeetsUncommented (total : Nat) (c c' : Cursor) : Prop where
  eq : c' = c.withoutComments
  count : c.consumed + c.terminals.length = total

namespace Cursor.MeetsUncommented

variable {total : Nat} {c c' d : Cursor}

theorem significant (meets : c.MeetsUncommented total c') :
    (c.significant = [] ∧ c'.significant = []) ∨
      ∃ t rest t' rest', c.significant = t :: rest ∧ c'.significant = t' :: rest' ∧
        t.Alike (· = ·) t' ∧
        MeetsUncommented total ⟨rest, c.consumed + 1, some t.position⟩
          ⟨rest', c'.consumed + 1, some t'.position⟩ := by
  obtain ⟨rfl, count⟩ := meets
  cases front : c.significant with
  | nil => exact Or.inl ⟨rfl, significant_withoutComments_of_nil front⟩
  | cons t rest =>
      refine Or.inr ⟨t, rest, t, _, rfl, significant_withoutComments front, ⟨rfl, rfl, rfl⟩, rfl,
        ?_⟩
      rw [c.terminals_eq_significant, front,
        terminals_cons_significant (isComment_of_significant front), List.length_cons] at count
      show c.consumed + 1 + (InterfaceHeader.terminals rest).length = total
      omega

theorem passComment (meets : c.MeetsUncommented total c')
    (same : d.withoutComments = c.withoutComments) :
    d.MeetsUncommented total c' ∧ d.consumed = c.consumed := by
  have consumed : d.consumed = c.consumed :=
    show d.withoutComments.consumed = c.withoutComments.consumed by rw [same]
  refine ⟨⟨by rw [same, meets.eq], ?_⟩, consumed⟩
  rw [← d.terminals_withoutComments, same, terminals_withoutComments, consumed, meets.count]

end Cursor.MeetsUncommented

namespace Correspondence

open Reader

/-- Reading as if there were no comments. -/
def uncommented (total : Nat) : Correspondence where
  Meets := Cursor.MeetsUncommented total
  Behind := Cursor.MeetsUncommented total
  Place := (· = ·)
  shown _ := none
  total := total
  lead := 0
  meets_of_behind meets := meets
  consumed_eq meets := by rw [meets.eq]; rfl
  count meets := ⟨meets.count, by rw [meets.eq, Cursor.terminals_withoutComments]⟩
  significant := Cursor.MeetsUncommented.significant
  comment {c c'} meets := by
    obtain ⟨a, d, ran, same⟩ := comment_passes_comment c
    obtain ⟨meets', consumed⟩ := meets.passComment same
    rw [meets.eq]
    exact ⟨a, d, none, _, ran, comment_withoutComments c, rfl, meets.eq ▸ meets', consumed⟩
  orTrailing {c c' a a'} meets _ := by
    obtain ⟨b, d, ran, same⟩ := orTrailing_passes_comment a c
    obtain ⟨b', ran'⟩ := orTrailing_withoutComments a' c
    obtain ⟨meets', consumed⟩ := meets.passComment same
    rw [meets.eq]
    exact ⟨b, d, b', _, ran, ran', rfl, meets.eq ▸ meets', consumed⟩
  depth_lt alike alike' := by rw [alike.eq, alike'.eq]
  place_eq same same' := by rw [same, same']

variable {total : Nat} {c c' : Cursor}

/-- Of a declaration without comments there is no more than what is the same on both sides. -/
theorem withoutComments?_congr {d d' : Declaration}
    (same : d.mapComments (fun _ => none) = d'.mapComments fun _ => none) :
    d.withoutComments? = d'.withoutComments? := by
  have erasedField (field : StructField) :
      (field.mapComment fun _ => none).withoutComment = field.withoutComment := by
    cases field <;> rfl
  have erased (d : Declaration) :
      (d.mapComments fun _ => none).withoutComments? = d.withoutComments? := by
    cases d with
    | comment _ => rfl
    | typeAlias _ => rfl
    | function _ => rfl
    | enum decl =>
        simp [Declaration.mapComments, Declaration.withoutComments?, EnumDecl.mapComments,
          EnumDecl.withoutComments, EnumValue.mapComment, EnumValue.withoutComment]
    | struct decl =>
        simp [Declaration.mapComments, Declaration.withoutComments?, StructDecl.mapComments,
          StructDecl.withoutComments, erasedField]
  rw [← erased, same, erased]

/-- The loop takes the comments between declarations one by one, and none on the other side. -/
theorem declarations_uncommented {n n' : Nat} (meets : c.MeetsUncommented total c')
    (fits : c.ahead.length ≤ n) (fits' : c'.ahead.length ≤ n') :
    (uncommented total).Outcomes
      (fun ds ds' => ds.filterMap Declaration.withoutComments? =
        ds'.filterMap Declaration.withoutComments?)
      (fun _ _ => True) (declarations n c) (declarations n' c') := by
  induction n generalizing c c' n' with
  | zero =>
      have ahead : c.ahead = [] := List.length_eq_zero_iff.mp (by omega)
      have ahead' : c'.ahead = [] := by rw [meets.eq, Cursor.withoutComments, ahead]; rfl
      rw [declarations_of_nil ahead, declarations_of_nil ahead']
      exact .ok rfl trivial
  | succ n ih =>
      cases ahead : c.ahead with
      | nil =>
          have ahead' : c'.ahead = [] := by rw [meets.eq, Cursor.withoutComments, ahead]; rfl
          rw [declarations_of_nil ahead, declarations_of_nil ahead']
          exact .ok rfl trivial
      | cons t rest =>
          rw [ahead, List.length_cons] at fits
          cases commented : t.isComment with
          | true =>
              -- only one side has the comment, and the other one waits
              have same := Cursor.withoutComments_of_comment ahead commented
              have outcomes := ih (meets.passComment same).1 (by simpa using fits) fits'
              rw [declarations_of_comment ahead commented, bind_apply]
              generalize declarations n _ = result, declarations n' c' = result' at outcomes ⊢
              cases outcomes with
              | ok sameRest stops => exact .ok sameRest stops
              | error alike stops => exact .error alike stops
          | false =>
              have ahead' : c'.ahead = t :: rest.filter Token.isSignificant := by
                rw [meets.eq, Cursor.withoutComments, ahead,
                  List.filter_cons_of_pos (by simp [Token.isSignificant, commented])]
              rw [ahead', List.length_cons] at fits'
              obtain ⟨n', rfl⟩ : ∃ k, n' = k + 1 := ⟨n' - 1, by omega⟩
              refine declarations_of_round meets ahead ahead' commented commented rfl
                (Nat.le_of_succ_le_succ fits) (Nat.le_of_succ_le_succ fits')
                (fun sameFirst sameRest => ?_) ih
              rw [List.filterMap_cons, List.filterMap_cons, withoutComments?_congr sameFirst,
                sameRest]

theorem Outcomes.outcome_eq {α β : Type} {value : α → α → Prop}
    {post : Cursor → Cursor → Prop} {x x' : EStateM.Result SyntaxError Cursor α}
    (outcomes : (uncommented total).Outcomes value post x x') {f : α → β}
    (agree : ∀ a a', value a a' → f a = f a') : (outcome x).map f = (outcome x').map f := by
  cases outcomes with
  | ok related _ => exact congrArg Except.ok (agree _ _ related)
  | error alike _ => exact congrArg Except.error alike.eq

theorem header_uncommented (meets : c.MeetsUncommented total c') :
    (uncommented total).Outcomes (fun h h' => h.withoutComments = h'.withoutComments)
      (fun _ _ => True) (header c) (header c') :=
  (declarations_uncommented meets (Nat.le_refl _) (Nat.le_refl _)).bind
    fun _ _ _ _ sameDeclarations _ =>
    .ok (congrArg Header.mk sameDeclarations) trivial

/-- Every cursor meets itself without comments. -/
theorem at_withoutComments (c : Cursor) :
    (uncommented (c.consumed + c.terminals.length)).At false c.consumed c c.withoutComments :=
  ⟨⟨rfl, rfl⟩, fun never => (by cases never), Nat.le_refl _⟩

end Correspondence

open Reader Correspondence in
/-- Comments among the tokens of a header change nothing about how it is read but the comments
    in its tree: the same is accepted, and what is refused is refused with the same error. So it
    is for the tokens of a type. At every cursor each choice of the grammar is settled as it is
    without the comments ahead, with as many levels of function types as are needed or more. -/
theorem reading_ignores_comments (tokens : List Token) :
    (Header.ofTokens? tokens).map Header.withoutComments =
      (Header.ofTokens? (tokens.filter Token.isSignificant)).map Header.withoutComments ∧
    CType.ofTokens? tokens = CType.ofTokens? (tokens.filter Token.isSignificant) ∧
    ∀ c : Cursor,
      settle declarationAlternatives c = settle declarationAlternatives c.withoutComments ∧
      settle memberAlternatives c = settle memberAlternatives c.withoutComments ∧
      ∀ spare spare' : Nat,
        settle (typeAlternatives (c.terminals.length + spare)) c =
          settle (typeAlternatives (c.terminals.length + spare')) c.withoutComments := by
  have starts := at_withoutComments (Cursor.ofTokens tokens)
  refine ⟨?_, ?_, fun c => ?_⟩
  · rw [Header.ofTokens?, Header.ofTokens?, ← Cursor.withoutComments_ofTokens]
    exact (header_uncommented starts.meets).outcome_eq fun h h' same => same
  · rw [CType.ofTokens?, CType.ofTokens?, ← Cursor.withoutComments_ofTokens]
    have sameType := (wholeType_parallel starts).outcome_eq (f := id) fun t t' same => same
    simpa only [Except.map_id, id_eq] using sameType
  · have aligned := at_withoutComments c
    refine ⟨settle_eq declarationAlternatives_parallel aligned,
      settle_eq memberAlternatives_parallel aligned, fun spare spare' => ?_⟩
    refine settle_eq (typeAlternatives_parallel fun fresh k atLeast => typeAt_parallel ?_ ?_)
      aligned
    · show c.consumed + c.terminals.length ≤ _
      omega
    · show c.consumed + c.terminals.length ≤ _
      omega

end InterfaceHeader
