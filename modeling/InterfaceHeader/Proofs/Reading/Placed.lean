import InterfaceHeader.Proofs.Grammar.Derivation
import InterfaceHeader.Proofs.Reading.Placement
import InterfaceHeader.Proofs.Source.Concatenation

/-!
# Every comment has its place

A header is read just if it is placed over the tokens, and tokens have one placement. So the places
of its comments are exact: none is missing, and none goes anywhere else. Read in order they are
some of the comments among the tokens, in the order in which they stand there
(`HeaderPlaced.comments_sublist`).
-/

namespace InterfaceHeader

/-! ## The order of comments -/

/-- The comment of a member. -/
def StructField.comment? : StructField → Option String
  | .data _ => none
  | .method m => m.comment

/-- The comments in a declaration, in order. -/
def Declaration.comments : Declaration → List String
  | .comment text => [text]
  | .enum decl => decl.values.filterMap EnumValue.comment
  | .typeAlias _ => []
  | .function _ => []
  | .struct decl => decl.fields.filterMap StructField.comment?

/-- The texts of the comments among tokens. -/
def commentTexts (tokens : List Token) : List String :=
  (tokens.filter Token.isComment).map Token.lexeme

section

variable {p tokens gap rest : List Token} {t : Token}

@[simp] theorem commentTexts_append (p q : List Token) :
    commentTexts (p ++ q) = commentTexts p ++ commentTexts q := by
  simp [commentTexts]

theorem commentTexts_sublist (sublist : p.Sublist tokens) :
    (commentTexts p).Sublist (commentTexts tokens) :=
  (sublist.filter _).map _

theorem commentTexts_cons_comment (isComment : t.isComment = true) (rest : List Token) :
    commentTexts (t :: rest) = t.lexeme :: commentTexts rest := by
  simp [commentTexts, isComment]

theorem firstComment?_sublist (tokens : List Token) :
    (firstComment? tokens).toList.Sublist (commentTexts tokens) := by
  cases tokens with
  | nil => exact .slnil
  | cons t rest =>
      cases commented : t.isComment with
      | true =>
          rw [firstComment?, if_pos commented, commentTexts_cons_comment commented]
          exact (List.nil_sublist _).cons_cons _
      | false => simp [firstComment?, commented]

theorem trailing?_sublist (t : Token) (tokens : List Token) :
    (t.trailing? tokens).toList.Sublist (commentTexts tokens) := by
  unfold Token.trailing?
  split
  · exact firstComment?_sublist tokens
  · exact List.nil_sublist _

/-- The comment that trails a token comes in front of those behind the next significant token. -/
theorem trailing?_append_sublist (t : Token) (rest : List Token) :
    ((t.trailing? rest).toList ++ commentTexts (rest.dropWhile Token.isComment)).Sublist
      (commentTexts rest) := by
  cases rest with
  | nil => simp [Token.trailing?, Token.isTrailed]
  | cons s rest =>
      cases commented : s.isComment with
      | false => simp [Token.trailing?, Token.isTrailed, commented]
      | true =>
          have later := commentTexts_sublist (List.dropWhile_sublist Token.isComment (l := rest))
          rw [List.dropWhile_cons_of_pos commented, commentTexts_cons_comment commented,
            Token.trailing?, firstComment?, if_pos commented]
          split
          · exact later.cons_cons _
          · exact later.cons _

/-- In front of a significant token only leading comments are dropped. -/
theorem exists_dropWhile_append (noComment : t.isComment = false) (p rest : List Token) :
    ∃ q, (p ++ t :: rest).dropWhile Token.isComment = q ++ t :: rest := by
  induction p with
  | nil => exact ⟨[], by rw [List.nil_append, List.dropWhile_cons_of_neg (by simp [noComment])]⟩
  | cons s p ih =>
      cases commented : s.isComment with
      | true =>
          rw [List.cons_append, List.dropWhile_cons_of_pos commented]
          exact ih
      | false =>
          refine ⟨s :: p, ?_⟩
          rw [List.cons_append, List.dropWhile_cons_of_neg (by simp [commented])]

end

/-- A comment directly in front of a mark or behind it, and the comments of what follows, are in
    order. -/
theorem comment_append_sublist {direct : Option String} {gap rest : List Token} {mark : Token}
    {later : List String} (directKept : direct.toList.Sublist (commentTexts gap))
    (laterKept : later.Sublist (commentTexts (rest.dropWhile Token.isComment))) :
    ((direct.or (mark.trailing? rest)).toList ++ later).Sublist
      (commentTexts (gap ++ mark :: rest)) := by
  have markKept : (commentTexts rest).Sublist (commentTexts (mark :: rest)) :=
    commentTexts_sublist (List.sublist_cons_self _ _)
  rw [commentTexts_append]
  cases direct with
  | some text =>
      have restKept := commentTexts_sublist (List.dropWhile_sublist Token.isComment (l := rest))
      exact directKept.append ((laterKept.trans restKept).trans markKept)
  | none =>
      have both := (List.Sublist.refl (mark.trailing? rest).toList).append laterKept
      have all := (both.trans (trailing?_append_sublist mark rest)).trans markKept
      exact all.trans (List.sublist_append_right _ _)

theorem EnumBodyPlaced.comments_sublist {vs : List EnumValue} {tokens : List Token}
    (placed : EnumBodyPlaced vs tokens) :
    (vs.filterMap EnumValue.comment).Sublist
      (commentTexts (tokens.dropWhile Token.isComment)) := by
  have first (v : EnumValue) (vs : List EnumValue) : (v :: vs).filterMap EnumValue.comment =
      v.comment.toList ++ vs.filterMap EnumValue.comment := by
    cases held : v.comment <;> simp [held]
  induction placed with
  | empty _ => exact List.nil_sublist _
  | @last v p gap t _ noComment _ commented =>
      obtain ⟨q, dropped⟩ := exists_dropWhile_append noComment p gap
      rw [dropped, first, commented, List.filterMap_nil, List.append_nil]
      refine (trailing?_sublist t gap).trans (commentTexts_sublist ?_)
      exact (List.sublist_cons_self t gap).trans (List.sublist_append_right _ _)
  | @cons v vs p gap rest t comma _ noComment _ _ commented _ ih =>
      obtain ⟨q, dropped⟩ := exists_dropWhile_append noComment p (gap ++ comma :: rest)
      rw [dropped, first, commented]
      refine (comment_append_sublist (trailing?_sublist t gap) ih).trans (commentTexts_sublist ?_)
      exact (List.sublist_cons_self t _).trans (List.sublist_append_right _ _)

theorem StructBodyPlaced.comments_sublist {fields : List StructField} {tokens : List Token}
    (placed : StructBodyPlaced fields tokens) :
    (fields.filterMap StructField.comment?).Sublist
      (commentTexts (tokens.dropWhile Token.isComment)) := by
  induction placed with
  | empty _ => exact List.nil_sublist _
  | @data v fields p rest semicolon _ semicolonKind _ ih =>
      obtain ⟨q, dropped⟩ := exists_dropWhile_append (Token.isComment_of_punct semicolonKind) p rest
      rw [dropped]
      refine (ih.trans (commentTexts_sublist (List.dropWhile_sublist _))).trans
        (commentTexts_sublist ?_)
      exact (List.sublist_cons_self semicolon rest).trans (List.sublist_append_right _ _)
  | @method m fields p gap rest right semicolon _ rightKind _ _ commented _ ih =>
      obtain ⟨q, dropped⟩ :=
        exists_dropWhile_append (Token.isComment_of_punct rightKind) p (gap ++ semicolon :: rest)
      have first : (StructField.method m :: fields).filterMap StructField.comment? =
          m.comment.toList ++ fields.filterMap StructField.comment? := by
        cases held : m.comment <;> simp [StructField.comment?, held]
      rw [dropped, first, commented]
      refine (comment_append_sublist (firstComment?_sublist gap) ih).trans
        (commentTexts_sublist ?_)
      exact (List.sublist_cons_self right _).trans (List.sublist_append_right _ _)

theorem DeclarationPlaced.comments_sublist {d : Declaration} {tokens : List Token}
    (placed : DeclarationPlaced d tokens) : d.comments.Sublist (commentTexts tokens) := by
  have inside {front body back : List Token} {left right : Token} :
      (body.dropWhile Token.isComment).Sublist (front ++ left :: (body ++ right :: back)) :=
    (List.dropWhile_sublist _).trans (((List.sublist_append_left _ _).cons _).trans
      (List.sublist_append_right _ _))
  cases placed with
  | enum _ _ _ _ _ _ valuesPlaced =>
      exact valuesPlaced.comments_sublist.trans (commentTexts_sublist inside)
  | typeAlias _ => exact List.nil_sublist _
  | function _ => exact List.nil_sublist _
  | struct _ _ _ _ _ _ fieldsPlaced =>
      exact fieldsPlaced.comments_sublist.trans (commentTexts_sublist inside)

/-- The comments of a header in order are some of the comments among its tokens in order. -/
theorem HeaderPlaced.comments_sublist {ds : List Declaration} {tokens : List Token}
    (placed : HeaderPlaced ds tokens) :
    (ds.flatMap Declaration.comments).Sublist (commentTexts tokens) := by
  induction placed with
  | nil => exact .slnil
  | comment isComment _ ih =>
      rw [commentTexts_cons_comment isComment]
      exact ih.cons_cons _
  | declaration declPlaced _ _ _ ih =>
      rw [List.flatMap_cons, commentTexts_append]
      exact declPlaced.comments_sublist.append ih

/-! ## Placed headers are derived -/

/-- What a mark behind a gap divides. -/
theorem terminals_divided {p gap rest : List Token} {t mark : Token} (comments : AllComments gap)
    (noComment : mark.isComment = false) :
    terminals (p ++ t :: (gap ++ mark :: rest)) =
      terminals (p ++ [t]) ++ mark.terminal :: terminals rest := by
  rw [List.append_cons, terminals_append _ (gap ++ _), terminals_append gap, comments.terminals,
    List.nil_append, terminals_cons_significant noComment]

theorem EnumBodyPlaced.form {vs : List EnumValue} {tokens : List Token}
    (placed : EnumBodyPlaced vs tokens) :
    EnumBodyForm (vs.map EnumValue.withoutComment) (terminals tokens) := by
  induction placed with
  | empty comments =>
      rw [comments.terminals]
      exact .empty
  | @last v p gap t valueForm _ comments _ =>
      rw [List.append_cons, terminals_append, comments.terminals]
      exact .values (.one valueForm) .absent
  | @cons v vs p gap rest t comma valueForm _ comments commaKind _ _ ih =>
      rw [terminals_divided comments (Token.isComment_of_punct commaKind), Token.terminal,
        commaKind]
      exact .cons comma.lexeme valueForm ih

theorem StructBodyPlaced.form {fields : List StructField} {tokens : List Token}
    (placed : StructBodyPlaced fields tokens) :
    SequenceForm StructFieldForm (fields.map StructField.withoutComment) (terminals tokens) := by
  induction placed with
  | empty comments =>
      rw [comments.terminals]
      exact .nil
  | data variableForm _ _ ih =>
      rw [List.append_cons, terminals_append]
      exact .cons variableForm ih
  | @method m fields p gap rest right semicolon methodForm _ comments semicolonKind _ _ ih =>
      have noComment := Token.isComment_of_punct semicolonKind
      have spelt : terminals (p ++ right :: (gap ++ semicolon :: rest)) =
          (terminals (p ++ [right]) ++ [⟨.punct .semicolon, semicolon.lexeme⟩]) ++
            terminals rest := by
        rw [terminals_divided comments noComment, Token.terminal, semicolonKind, List.append_assoc,
          List.singleton_append]
      rw [spelt]
      exact .cons (.method _ methodForm) ih

theorem DeclarationPlaced.form {d : Declaration} {tokens : List Token}
    (placed : DeclarationPlaced d tokens) :
    ∃ d', d.withoutComments? = some d' ∧ DeclarationForm d' (terminals tokens) := by
  cases placed with
  | enum _ _ declForm => exact ⟨_, rfl, declForm⟩
  | typeAlias declForm => exact ⟨_, rfl, declForm⟩
  | function declForm => exact ⟨_, rfl, declForm⟩
  | struct _ _ declForm => exact ⟨_, rfl, declForm⟩

theorem HeaderPlaced.form {ds : List Declaration} {tokens : List Token}
    (placed : HeaderPlaced ds tokens) :
    SequenceForm DeclarationForm (ds.filterMap Declaration.withoutComments?)
      (terminals tokens) := by
  induction placed with
  | nil => exact .nil
  | comment isComment _ ih =>
      rw [terminals_cons_comment isComment]
      exact ih
  | declaration declPlaced _ _ _ ih =>
      obtain ⟨d', erased, declForm⟩ := declPlaced.form
      rw [List.filterMap_cons_some erased, terminals_append]
      exact .cons declForm ih

/-! ## One placement -/

/-- What a reader finds at a place, and where it stops, are not open to choice. -/
theorem Reader.Finds.unique {α : Type} {r : Reader α} {c : Cursor} {post post' : α → Prop}
    {w w' : List Terminal} (finds : Finds r c post w) (finds' : Finds r c post' w') :
    w = w' ∧ ∃ a, post a ∧ post' a := by
  obtain ⟨a, d, ran, holds, left, -⟩ := finds
  obtain ⟨b, e, ran', holds', left', -⟩ := finds'
  cases ran.symm.trans ran'
  exact ⟨left.symm.trans left', a, holds, holds'⟩

section

variable {p q x y tokens : List Token} {t s : Token}

/-- Tokens are cut at a significant token in one way if as many terminals are to be behind it. -/
theorem cut_unique (same : p ++ t :: x = q ++ s :: y) (noComment : t.isComment = false)
    (noComment' : s.isComment = false) (sameBehind : terminals x = terminals y) :
    p = q ∧ t = s ∧ x = y := by
  have counts := congrArg (fun tokens => (terminals tokens).length) same
  simp only [terminals_append, terminals_cons_significant noComment,
    terminals_cons_significant noComment', List.length_append, List.length_cons,
    sameBehind] at counts
  obtain ⟨rfl, rfl⟩ :=
    Cursor.last_of_terminals noComment noComment' same (Nat.add_right_cancel counts)
  exact ⟨rfl, rfl, (List.cons.inj (List.append_cancel_left same)).2⟩

/-- What one reader finds in two ways in front of the same tokens. -/
theorem cut_of_finds {α : Type} {r : Reader α} {post post' : α → Prop}
    (same : p ++ t :: x = q ++ s :: y) (noComment : t.isComment = false)
    (noComment' : s.isComment = false)
    (finds : ∀ c : Cursor, c.terminals = terminals (p ++ [t]) ++ terminals x →
      r.Finds c post (terminals x))
    (finds' : ∀ c : Cursor, c.terminals = terminals (q ++ [s]) ++ terminals y →
      r.Finds c post' (terminals y)) :
    p = q ∧ t = s ∧ x = y ∧ ∃ a, post a ∧ post' a := by
  have front : (⟨p ++ t :: x, 0, none⟩ : Cursor).terminals =
      terminals (p ++ [t]) ++ terminals x := by
    rw [Cursor.terminals, List.append_cons, terminals_append]
  have front' : (⟨p ++ t :: x, 0, none⟩ : Cursor).terminals =
      terminals (q ++ [s]) ++ terminals y := by
    rw [Cursor.terminals, same, List.append_cons, terminals_append]
  obtain ⟨sameBehind, a, found⟩ := (finds _ front).unique (finds' _ front')
  obtain ⟨rfl, rfl, rfl⟩ := cut_unique same noComment noComment' sameBehind
  exact ⟨rfl, rfl, rfl, a, found⟩

end

/-- A value without its comment, and the comment, are the value. -/
theorem EnumValue.eq_of_withoutComment {v v' : EnumValue}
    (same : v.withoutComment = v'.withoutComment) (sameComment : v.comment = v'.comment) :
    v = v' := by
  obtain ⟨name, value, comment⟩ := v
  obtain ⟨name', value', comment'⟩ := v'
  cases same
  cases sameComment
  rfl

/-- Two values at the start of the same tokens take the same of them. -/
theorem enumValue_cut {v v' : EnumValue} {p q x y : List Token} {t s : Token}
    (valueForm : EnumValueForm v (terminals (p ++ [t])))
    (valueForm' : EnumValueForm v' (terminals (q ++ [s])))
    (noComment : t.isComment = false) (noComment' : s.isComment = false)
    (same : p ++ t :: x = q ++ s :: y)
    (noEquals : nextKind? (terminals x) ≠ some (.punct .equals))
    (noEquals' : nextKind? (terminals y) ≠ some (.punct .equals)) :
    p = q ∧ t = s ∧ x = y ∧ v = v' := by
  obtain ⟨sameFront, sameToken, sameBack, a, rfl, sameValue⟩ :=
    cut_of_finds same noComment noComment'
      (fun _ ahead => Reader.enumValue_finds valueForm ahead noEquals)
      (fun _ ahead => Reader.enumValue_finds valueForm' ahead noEquals')
  exact ⟨sameFront, sameToken, sameBack, sameValue⟩

theorem EnumBodyPlaced.unique {vs vs' : List EnumValue} {tokens tokens' : List Token}
    (placed : EnumBodyPlaced vs tokens) (placed' : EnumBodyPlaced vs' tokens')
    (same : tokens = tokens') : vs = vs' := by
  have gapNext {gap : List Token} (comments : AllComments gap) :
      nextKind? (terminals gap) ≠ some (.punct .equals) := by
    rw [comments.terminals]
    simp
  have commaNext {gap rest : List Token} {comma : Token} (comments : AllComments gap)
      (commaKind : comma.kind = .punct .comma) :
      nextKind? (terminals (gap ++ comma :: rest)) ≠ some (.punct .equals) := by
    rw [comments.terminals_append, terminals_cons_significant (Token.isComment_of_punct commaKind),
      nextKind?_cons, Token.terminal, commaKind]
    simp
  induction placed generalizing vs' tokens' with
  | empty comments =>
      cases placed' with
      | empty _ => rfl
      | last _ noComment => exact (comments.false_of_significant noComment same).elim
      | cons _ noComment => exact (comments.false_of_significant noComment same).elim
  | last valueForm noComment comments commented =>
      cases placed' with
      | empty comments' => exact (comments'.false_of_significant noComment same.symm).elim
      | last valueForm' noComment' comments' commented' =>
          obtain ⟨rfl, rfl, rfl, sameValue⟩ :=
            enumValue_cut valueForm valueForm' noComment noComment' same
              (gapNext comments) (gapNext comments')
          rw [EnumValue.eq_of_withoutComment sameValue (commented.trans commented'.symm)]
      | cons valueForm' noComment' comments' commaKind' =>
          obtain ⟨rfl, rfl, sameBack, -⟩ :=
            enumValue_cut valueForm valueForm' noComment noComment' same
              (gapNext comments) (commaNext comments' commaKind')
          exact (comments.false_of_significant (Token.isComment_of_punct commaKind') sameBack).elim
  | cons valueForm noComment comments commaKind commented _ ih =>
      cases placed' with
      | empty comments' => exact (comments'.false_of_significant noComment same.symm).elim
      | last valueForm' noComment' comments' =>
          obtain ⟨rfl, rfl, sameBack, -⟩ :=
            enumValue_cut valueForm valueForm' noComment noComment' same
              (commaNext comments commaKind) (gapNext comments')
          exact (comments'.false_of_significant (Token.isComment_of_punct commaKind)
            sameBack.symm).elim
      | cons valueForm' noComment' comments' commaKind' commented' valuesPlaced' =>
          obtain ⟨rfl, rfl, sameBack, sameValue⟩ :=
            enumValue_cut valueForm valueForm' noComment noComment' same
              (commaNext comments commaKind) (commaNext comments' commaKind')
          obtain ⟨rfl, rfl⟩ := Cursor.last_of_terminals (Token.isComment_of_punct commaKind)
            (Token.isComment_of_punct commaKind') sameBack
            (by rw [comments.terminals, comments'.terminals])
          obtain rfl := (List.cons.inj (List.append_cancel_left sameBack)).2
          rw [EnumValue.eq_of_withoutComment sameValue (commented.trans commented'.symm),
            ih valuesPlaced' rfl]

/-- Two members at the start of the same tokens take the same of them. -/
theorem structField_cut {field field' : StructField} {p q x y : List Token} {t s : Token}
    (fieldForm : StructFieldForm field (terminals (p ++ [t])))
    (fieldForm' : StructFieldForm field' (terminals (q ++ [s])))
    (semicolonKind : t.kind = .punct .semicolon) (semicolonKind' : s.kind = .punct .semicolon)
    (same : p ++ t :: x = q ++ s :: y) : p = q ∧ t = s ∧ x = y ∧ field = field' := by
  obtain ⟨sameFront, sameToken, sameBack, a, rfl, sameField⟩ :=
    cut_of_finds same (Token.isComment_of_punct semicolonKind)
      (Token.isComment_of_punct semicolonKind')
      (fun _ ahead => Reader.structField_finds fieldForm ahead)
      (fun _ ahead => Reader.structField_finds fieldForm' ahead)
  exact ⟨sameFront, sameToken, sameBack, sameField⟩

theorem StructBodyPlaced.unique {fields fields' : List StructField} {tokens tokens' : List Token}
    (placed : StructBodyPlaced fields tokens) (placed' : StructBodyPlaced fields' tokens')
    (same : tokens = tokens') : fields = fields' := by
  -- a method up to its semicolon, with the comments in front of that
  have wholeMethod {m : Method} {p gap : List Token} {right semicolon : Token}
      (methodForm : MethodForm m.function (terminals (p ++ [right]))) (comments : AllComments gap)
      (semicolonKind : semicolon.kind = .punct .semicolon) :
      StructFieldForm (.method ⟨m.function, none⟩)
        (terminals (p ++ right :: gap ++ [semicolon])) := by
    have noComment := Token.isComment_of_punct semicolonKind
    have spelt : terminals (p ++ right :: gap ++ [semicolon]) =
        terminals (p ++ [right]) ++ [⟨.punct .semicolon, semicolon.lexeme⟩] := by
      rw [List.append_assoc, List.cons_append, terminals_divided comments noComment, Token.terminal,
        semicolonKind]
      rfl
    rw [spelt]
    exact .method _ methodForm
  have regroup (p gap rest : List Token) (right semicolon : Token) :
      p ++ right :: (gap ++ semicolon :: rest) = (p ++ right :: gap) ++ semicolon :: rest := by
    simp
  induction placed generalizing fields' tokens' with
  | empty comments =>
      cases placed' with
      | empty _ => rfl
      | data _ semicolonKind =>
          exact (comments.false_of_significant (Token.isComment_of_punct semicolonKind) same).elim
      | method _ rightKind =>
          exact (comments.false_of_significant (Token.isComment_of_punct rightKind) same).elim
  | @data v fields p rest semicolon variableForm semicolonKind _ ih =>
      cases placed' with
      | empty comments' =>
          exact (comments'.false_of_significant (Token.isComment_of_punct semicolonKind)
            same.symm).elim
      | data variableForm' semicolonKind' fieldsPlaced' =>
          obtain ⟨-, -, rfl, sameField⟩ :=
            structField_cut variableForm variableForm' semicolonKind semicolonKind' same
          rw [sameField, ih fieldsPlaced' rfl]
      | method methodForm' _ comments' semicolonKind' =>
          rw [regroup] at same
          obtain ⟨-, -, -, sameField⟩ :=
            structField_cut variableForm (wholeMethod methodForm' comments' semicolonKind')
              semicolonKind semicolonKind' same
          cases sameField
  | @method m fields p gap rest right semicolon methodForm rightKind comments semicolonKind
      commented _ ih =>
      cases placed' with
      | empty comments' =>
          exact (comments'.false_of_significant (Token.isComment_of_punct rightKind) same.symm).elim
      | data variableForm' semicolonKind' =>
          rw [regroup] at same
          obtain ⟨-, -, -, sameField⟩ :=
            structField_cut (wholeMethod methodForm comments semicolonKind) variableForm'
              semicolonKind semicolonKind' same
          cases sameField
      | @method m' _ p' gap' _ right' _ methodForm' rightKind' comments' semicolonKind'
          commented' fieldsPlaced' =>
          rw [regroup, regroup] at same
          obtain ⟨sameFront, rfl, rfl, sameField⟩ :=
            structField_cut (wholeMethod methodForm comments semicolonKind)
              (wholeMethod methodForm' comments' semicolonKind') semicolonKind semicolonKind' same
          obtain ⟨rfl, rfl, rfl⟩ := cut_unique sameFront (Token.isComment_of_punct rightKind)
            (Token.isComment_of_punct rightKind') (by rw [comments.terminals, comments'.terminals])
          have sameMethod : m = m' := by
            obtain ⟨function, comment⟩ := m
            obtain ⟨function', comment'⟩ := m'
            cases sameField
            rw [show comment = comment' from commented.trans commented'.symm]
          rw [sameMethod, ih fieldsPlaced' rfl]

/-- What stands between the braces of a declaration. -/
theorem body_cut {front front' body body' back back' : List Token}
    {left left' right right' : Token} {α : Type} {r : Reader α} {post post' : α → Prop}
    (same : front ++ left :: (body ++ right :: back) =
      front' ++ left' :: (body' ++ right' :: back'))
    (fronts : (terminals front).length = (terminals front').length)
    (leftKind : left.kind = .punct .leftBrace) (leftKind' : left'.kind = .punct .leftBrace)
    (rightKind : right.kind = .punct .rightBrace) (rightKind' : right'.kind = .punct .rightBrace)
    (finds : ∀ c : Cursor, c.terminals = terminals body ++ terminals (right :: back) →
      r.Finds c post (terminals (right :: back)))
    (finds' : ∀ c : Cursor, c.terminals = terminals body' ++ terminals (right' :: back') →
      r.Finds c post' (terminals (right' :: back'))) :
    body = body' := by
  have noComment := Token.isComment_of_punct rightKind
  have noComment' := Token.isComment_of_punct rightKind'
  obtain ⟨rfl, rfl⟩ := Cursor.last_of_terminals (Token.isComment_of_punct leftKind)
    (Token.isComment_of_punct leftKind') same fronts
  have sameInside := (List.cons.inj (List.append_cancel_left same)).2
  obtain ⟨sameBehind, -⟩ := (finds ⟨body ++ right :: back, 0, none⟩ (terminals_append _ _)).unique
    (finds' ⟨body ++ right :: back, 0, none⟩
      (by rw [Cursor.terminals, sameInside, terminals_append]))
  rw [terminals_cons_significant noComment, terminals_cons_significant noComment', List.cons.injEq]
    at sameBehind
  exact (cut_unique sameInside noComment noComment' sameBehind.2).1

theorem DeclarationPlaced.unique {d d' : Declaration} {tokens tokens' : List Token}
    (placed : DeclarationPlaced d tokens) (placed' : DeclarationPlaced d' tokens')
    (same : tokens = tokens') (erased : d.withoutComments? = d'.withoutComments?) : d = d' := by
  have closes {right : Token} (rightKind : right.kind = .punct .rightBrace) (back : List Token) :
      nextKind? (terminals (right :: back)) = some (.punct .rightBrace) := by
    rw [terminals_cons_significant (Token.isComment_of_punct rightKind), nextKind?_cons,
      Token.terminal, rightKind]
  cases placed with
  | @enum decl front body back left right _ _ _ frontTerminals leftKind rightKind valuesPlaced =>
      cases placed' with
      | @enum decl' front' body' back' left' right' _ _ _ frontTerminals' leftKind' rightKind'
          valuesPlaced' =>
          have sameBody := body_cut
            (r := Reader.enumValues ((terminals body).length + (terminals body').length))
            same (by rw [frontTerminals, frontTerminals']; rfl) leftKind leftKind'
            rightKind rightKind'
            (fun _ ahead => Reader.enumValues_finds valuesPlaced.form (closes rightKind back)
              (Nat.le_add_right _ _) ahead)
            (fun _ ahead => Reader.enumValues_finds valuesPlaced'.form (closes rightKind' back')
              (Nat.le_add_left _ _) ahead)
          have sameAll := valuesPlaced.unique valuesPlaced' sameBody
          obtain ⟨name, values⟩ := decl
          obtain ⟨name', values'⟩ := decl'
          cases sameAll
          cases erased
          rfl
      | typeAlias _ => cases erased
      | function _ => cases erased
      | struct => cases erased
  | typeAlias _ =>
      cases placed' with
      | enum => cases erased
      | typeAlias _ =>
          cases erased
          rfl
      | function _ => cases erased
      | struct => cases erased
  | function _ =>
      cases placed' with
      | enum => cases erased
      | typeAlias _ => cases erased
      | function _ =>
          cases erased
          rfl
      | struct => cases erased
  | @struct decl front body back left right _ _ _ frontTerminals leftKind rightKind fieldsPlaced =>
      cases placed' with
      | enum => cases erased
      | typeAlias _ => cases erased
      | function _ => cases erased
      | @struct decl' front' body' back' left' right' _ _ _ frontTerminals' leftKind' rightKind'
          fieldsPlaced' =>
          have sameBody := body_cut
            (r := Reader.structFields ((terminals body).length + (terminals body').length))
            same (by rw [frontTerminals, frontTerminals']; rfl) leftKind leftKind'
            rightKind rightKind'
            (fun _ ahead => Reader.structFields_finds fieldsPlaced.form (closes rightKind back)
              (Nat.le_add_right _ _) ahead)
            (fun _ ahead => Reader.structFields_finds fieldsPlaced'.form (closes rightKind' back')
              (Nat.le_add_left _ _) ahead)
          have sameAll := fieldsPlaced.unique fieldsPlaced' sameBody
          obtain ⟨name, fields⟩ := decl
          obtain ⟨name', fields'⟩ := decl'
          cases sameAll
          cases erased
          rfl

/-- Tokens are those of one header. -/
theorem HeaderPlaced.unique {ds ds' : List Declaration} {tokens tokens' : List Token}
    (placed : HeaderPlaced ds tokens) (placed' : HeaderPlaced ds' tokens')
    (same : tokens = tokens') : ds = ds' := by
  -- the tokens of a declaration, of which the last one is significant
  have concat {d : Declaration} {p : List Token} (declPlaced : DeclarationPlaced d p)
      (lastSignificant : ∀ t ∈ p.getLast?, t.isComment = false) :
      ∃ d' q t, d.withoutComments? = some d' ∧ p = q ++ [t] ∧ t.isComment = false ∧
        DeclarationForm d' (terminals (q ++ [t])) := by
    obtain ⟨d', erasedTo, declForm⟩ := declPlaced.form
    rcases List.eq_nil_or_concat p with rfl | ⟨q, t, rfl⟩
    · exact absurd rfl (Reader.ne_nil_of_declarationForm declForm)
    · rw [List.concat_eq_append] at lastSignificant declForm
      exact ⟨d', q, t, erasedTo, List.concat_eq_append, lastSignificant t List.getLast?_concat,
        declForm⟩
  induction placed generalizing ds' tokens' with
  | nil =>
      cases placed' with
      | nil => rfl
      | comment => cases same
      | declaration declPlaced' _ lastSignificant' =>
          obtain ⟨_, q, t, -, rfl, -⟩ := concat declPlaced' lastSignificant'
          simp at same
  | comment isComment _ ih =>
      cases placed' with
      | nil => cases same
      | comment _ othersPlaced' =>
          obtain ⟨rfl, sameRest⟩ := List.cons.inj same
          rw [ih othersPlaced' sameRest]
      | @declaration d' ds' p' rest' declPlaced' startsSignificant' lastSignificant' _ =>
          obtain ⟨_, q, t, -, rfl, -⟩ := concat declPlaced' lastSignificant'
          cases q with
          | nil => simp_all
          | cons s q => simp_all
  | @declaration d ds p rest declPlaced startsSignificant lastSignificant _ ih =>
      obtain ⟨d₀, q, t, erasedTo, rfl, noComment, declForm⟩ := concat declPlaced lastSignificant
      cases placed' with
      | nil => simp at same
      | comment isComment' =>
          cases q with
          | nil => simp_all
          | cons s q => simp_all
      | @declaration d' ds' p' rest' declPlaced' _ lastSignificant' othersPlaced' =>
          obtain ⟨d₀', q', t', erasedTo', rfl, noComment', declForm'⟩ :=
            concat declPlaced' lastSignificant'
          rw [← List.append_cons, ← List.append_cons] at same
          obtain ⟨rfl, rfl, rfl, a, found, found'⟩ := cut_of_finds same noComment noComment'
            (fun _ ahead => Reader.declaration_finds declForm ahead)
            (fun _ ahead => Reader.declaration_finds declForm' ahead)
          rw [declPlaced.unique declPlaced' rfl
            (erasedTo.trans (found.symm.trans (found'.trans erasedTo'.symm))), ih othersPlaced' rfl]

/-! ## What is read is placed -/

theorem HeaderPlaced.of_ofTokens? {tokens : List Token} {h : Header}
    (read : Header.ofTokens? tokens = .ok h) :
    HeaderPlaced h.declarations (Cursor.ofTokens tokens).ahead := by
  rw [Header.ofTokens?_eq] at read
  split at read
  · rename_i ds c ran
    cases read
    exact Reader.declarations_placed (Nat.le_refl _) ran
  · cases read

/-- Tokens over which a header is placed are read as that header. -/
theorem HeaderPlaced.read {tokens : List Token} {h : Header}
    (placed : HeaderPlaced h.declarations (Cursor.ofTokens tokens).ahead) :
    Header.ofTokens? tokens = .ok h := by
  have headerForm : HeaderForm h.withoutComments (terminalsOf tokens) := by
    rw [← terminals_ofTokens]
    exact placed.form
  obtain ⟨h', read, -⟩ := ofTokens?_of_headerForm headerForm
  obtain ⟨ds⟩ := h
  obtain ⟨ds'⟩ := h'
  obtain rfl : ds' = ds := (HeaderPlaced.of_ofTokens? read).unique placed rfl
  exact read

/-- A text is read as a header just if the header is placed over all its tokens, comments
    included. Then the comments of the header, in order, are some of those among the tokens, in
    the order in which they stand there and with their texts. -/
theorem ofText?_iff_placed (text : String) (h : Header) :
    (Header.ofText? text = .ok h ↔
      ∃ tokens, tokenize text.toList = .ok tokens ∧ HeaderPlaced h.declarations tokens) ∧
    ∀ tokens, tokenize text.toList = .ok tokens → Header.ofText? text = .ok h →
      (h.declarations.flatMap Declaration.comments).Sublist (commentTexts tokens) := by
  have placedIff : Header.ofText? text = .ok h ↔
      ∃ tokens, tokenize text.toList = .ok tokens ∧ HeaderPlaced h.declarations tokens := by
    constructor
    · intro read
      obtain ⟨tokens, scanned, headerRead⟩ := tokens_of_ofText?_ok read
      have placed := HeaderPlaced.of_ofTokens? headerRead
      rw [Cursor.ofTokens_ahead scanned] at placed
      exact ⟨tokens, scanned, placed⟩
    · rintro ⟨tokens, scanned, placed⟩
      rw [← Cursor.ofTokens_ahead scanned] at placed
      rw [Header.ofText?_eq, scanned]
      simp only [placed.read]
  refine ⟨placedIff, ?_⟩
  intro tokens scanned read
  obtain ⟨tokens', scanned', placed⟩ := placedIff.mp read
  rw [scanned] at scanned'
  cases scanned'
  exact placed.comments_sublist

/-- A header with a comment in each of the places that keep one, and one that is dropped. -/
def annotatedText : String :=
  "// a\ntypedef enum \x7b A /* b */, B, // c\n\x7d E; // d\n" ++
    "typedef struct \x7b int (*f)(int) /* e */; // f\n\x7d S;"

/-- All but the second comment of the method are in the header. -/
theorem annotatedText_placed :
    ∃ h tokens, Header.ofText? annotatedText = .ok h ∧
      tokenize annotatedText.toList = .ok tokens ∧ HeaderPlaced h.declarations tokens ∧
      h.declarations.flatMap Declaration.comments = ["// a", "/* b */", "// c", "// d", "/* e */"] ∧
      commentTexts tokens = ["// a", "/* b */", "// c", "// d", "/* e */", "// f"] ∧
      (h.declarations.flatMap Declaration.comments).Sublist (commentTexts tokens) := by
  have kept : (Header.ofText? annotatedText).toOption.map
      (·.declarations.flatMap Declaration.comments) =
        some ["// a", "/* b */", "// c", "// d", "/* e */"] := by decide +kernel
  have texts : (tokenize annotatedText.toList).map commentTexts =
      .ok ["// a", "/* b */", "// c", "// d", "/* e */", "// f"] := by decide +kernel
  cases read : Header.ofText? annotatedText with
  | error e =>
      rw [read] at kept
      cases kept
  | ok h =>
      obtain ⟨places, sublist⟩ := ofText?_iff_placed annotatedText h
      obtain ⟨tokens, scanned, placed⟩ := places.mp read
      rw [read] at kept
      rw [scanned] at texts
      exact ⟨h, tokens, rfl, scanned, placed, Option.some.inj kept, Except.ok.inj texts,
        sublist tokens scanned read⟩

end InterfaceHeader
