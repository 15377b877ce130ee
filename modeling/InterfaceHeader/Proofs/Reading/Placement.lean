import InterfaceHeader.Proofs.Reading.Extension
import InterfaceHeader.Proofs.Reading.Layout

/-!
# Where comments go

A header keeps a comment in three places. Between two declarations every comment is a part of the
header by itself. The comment of an enumeration value is the one directly behind the value's last
token, if it starts on the line of that token, or else the one directly behind the value's comma,
if it starts on the line of the comma. The comment of a method is the one directly in front of its
semicolon, or else the one directly behind, if it starts on the line of the semicolon. All other
comments are passed over.

`HeaderPlaced` says so of the parts of a header and all tokens of a text, comments included. It
cuts the tokens into pieces, each with the form of the part that it spells.
-/

namespace InterfaceHeader

/-! ## Comments at a place -/

/-- Nothing but comments. -/
def AllComments (tokens : List Token) : Prop :=
  ∀ t ∈ tokens, t.isComment = true

/-- The text of the comment that tokens start with. -/
def firstComment? : List Token → Option String
  | [] => none
  | t :: _ => if t.isComment then some t.lexeme else none

/-- The text of the comment directly behind a token, if it starts on the token's line. -/
def Token.trailing? (t : Token) (behind : List Token) : Option String :=
  if t.isTrailed behind then firstComment? behind else none

section

variable {t close : Token} {tokens gap : List Token}

theorem Token.isComment_of_punct {mark : Punct} (kind : t.kind = .punct mark) :
    t.isComment = false := by
  simp [Token.isComment, kind]

theorem AllComments.nil : AllComments [] := fun _ mem => nomatch mem

theorem AllComments.append {p q : List Token} (first : AllComments p) (second : AllComments q) :
    AllComments (p ++ q) := by
  intro t mem
  rcases List.mem_append.mp mem with within | within
  · exact first t within
  · exact second t within

theorem AllComments.terminals (comments : AllComments gap) : terminals gap = [] := by
  rw [InterfaceHeader.terminals, List.map_eq_nil_iff, List.filter_eq_nil_iff]
  intro t mem
  simp [Token.isSignificant, comments t mem]

theorem AllComments.terminals_append (comments : AllComments gap) (tokens : List Token) :
    InterfaceHeader.terminals (gap ++ tokens) = InterfaceHeader.terminals tokens := by
  rw [InterfaceHeader.terminals_append, comments.terminals, List.nil_append]

/-- A significant token is not among comments. -/
theorem AllComments.false_of_significant {p rest : List Token} (comments : AllComments gap)
    (noComment : t.isComment = false) (split : gap = p ++ t :: rest) : False := by
  have isComment := comments t (by simp [split])
  rw [noComment] at isComment
  cases isComment

theorem AllComments.of_maybeComment {a : Option String} (maybe : Reader.MaybeComment a gap) :
    AllComments gap := by
  cases a with
  | none =>
      cases maybe
      exact .nil
  | some text =>
      obtain ⟨t, rfl, isComment, -⟩ := maybe
      intro s mem
      rwa [List.mem_singleton.mp mem]

/-- What stands behind a significant token does not make the tokens before it start with a
    comment. -/
theorem firstComment?_append (noComment : close.isComment = false) (rest : List Token) :
    firstComment? (tokens ++ close :: rest) = firstComment? tokens := by
  cases tokens with
  | nil => simp [firstComment?, noComment]
  | cons _ _ => rfl

theorem trailing?_append (noComment : close.isComment = false) (rest : List Token) :
    t.trailing? (tokens ++ close :: rest) = t.trailing? tokens := by
  have sameLine : t.isTrailed (tokens ++ close :: rest) = t.isTrailed tokens := by
    cases tokens with
    | nil => simp [Token.isTrailed, noComment]
    | cons _ _ => rfl
  rw [Token.trailing?, Token.trailing?, sameLine, firstComment?_append noComment]

end

/-! ## Placement -/

/-- The values of an enumeration over the tokens between its braces. -/
inductive EnumBodyPlaced : List EnumValue → List Token → Prop where
  | empty {gap : List Token} : AllComments gap → EnumBodyPlaced [] gap
  | last {v : EnumValue} {p gap : List Token} {t : Token} :
      EnumValueForm v.withoutComment (terminals (p ++ [t])) → t.isComment = false →
        AllComments gap → v.comment = t.trailing? gap → EnumBodyPlaced [v] (p ++ t :: gap)
  | cons {v : EnumValue} {vs : List EnumValue} {p gap rest : List Token} {t comma : Token} :
      EnumValueForm v.withoutComment (terminals (p ++ [t])) → t.isComment = false →
        AllComments gap → comma.kind = .punct .comma →
        v.comment = (t.trailing? gap).or (comma.trailing? rest) → EnumBodyPlaced vs rest →
        EnumBodyPlaced (v :: vs) (p ++ t :: (gap ++ comma :: rest))

/-- The members of a structure over the tokens between its braces. -/
inductive StructBodyPlaced : List StructField → List Token → Prop where
  | empty {gap : List Token} : AllComments gap → StructBodyPlaced [] gap
  | data {v : Variable} {fields : List StructField} {p rest : List Token} {semicolon : Token} :
      StructFieldForm (.data v) (terminals (p ++ [semicolon])) →
        semicolon.kind = .punct .semicolon → StructBodyPlaced fields rest →
        StructBodyPlaced (.data v :: fields) (p ++ semicolon :: rest)
  | method {m : Method} {fields : List StructField} {p gap rest : List Token}
      {right semicolon : Token} :
      MethodForm m.function (terminals (p ++ [right])) → right.kind = .punct .rightParen →
        AllComments gap → semicolon.kind = .punct .semicolon →
        m.comment = (firstComment? gap).or (semicolon.trailing? rest) →
        StructBodyPlaced fields rest →
        StructBodyPlaced (.method m :: fields) (p ++ right :: (gap ++ semicolon :: rest))

/-- A declaration over its tokens, from the first to its semicolon. -/
inductive DeclarationPlaced : Declaration → List Token → Prop where
  | enum {decl : EnumDecl} {front body back : List Token} {left right : Token}
      (typedef enum : String) :
      DeclarationForm (.enum decl.withoutComments)
          (terminals (front ++ left :: (body ++ right :: back))) →
        terminals front = [⟨.keyword .typedef, typedef⟩, ⟨.keyword .enum, enum⟩] →
        left.kind = .punct .leftBrace → right.kind = .punct .rightBrace →
        EnumBodyPlaced decl.values body →
        DeclarationPlaced (.enum decl) (front ++ left :: (body ++ right :: back))
  | typeAlias {decl : AliasDecl} {p : List Token} :
      DeclarationForm (.typeAlias decl) (terminals p) → DeclarationPlaced (.typeAlias decl) p
  | function {decl : FunctionType} {p : List Token} :
      DeclarationForm (.function decl) (terminals p) → DeclarationPlaced (.function decl) p
  | struct {decl : StructDecl} {front body back : List Token} {left right : Token}
      (typedef struct : String) :
      DeclarationForm (.struct decl.withoutComments)
          (terminals (front ++ left :: (body ++ right :: back))) →
        terminals front = [⟨.keyword .typedef, typedef⟩, ⟨.keyword .struct, struct⟩] →
        left.kind = .punct .leftBrace → right.kind = .punct .rightBrace →
        StructBodyPlaced decl.fields body →
        DeclarationPlaced (.struct decl) (front ++ left :: (body ++ right :: back))

/-- The parts of a header over all its tokens: a declaration takes the tokens from its first
    significant one to its semicolon, and every token between two declarations is a comment that is
    a part by itself. -/
inductive HeaderPlaced : List Declaration → List Token → Prop where
  | nil : HeaderPlaced [] []
  | comment {t : Token} {ds : List Declaration} {rest : List Token} :
      t.isComment = true → HeaderPlaced ds rest →
        HeaderPlaced (.comment t.lexeme :: ds) (t :: rest)
  | declaration {d : Declaration} {ds : List Declaration} {p rest : List Token} :
      DeclarationPlaced d p → (∀ t ∈ p.head?, t.isComment = false) →
        (∀ t ∈ p.getLast?, t.isComment = false) → HeaderPlaced ds rest →
        HeaderPlaced (d :: ds) (p ++ rest)

/-- A comment in front of the values is passed over. -/
theorem EnumBodyPlaced.behind {vs : List EnumValue} {gap tokens : List Token}
    (placed : EnumBodyPlaced vs tokens) (comments : AllComments gap) :
    EnumBodyPlaced vs (gap ++ tokens) := by
  cases placed with
  | empty others => exact .empty (comments.append others)
  | last valueForm noComment others commented =>
      rw [← List.append_assoc]
      exact .last (by rwa [List.append_assoc, comments.terminals_append]) noComment others commented
  | cons valueForm noComment others commaKind commented valuesPlaced =>
      rw [← List.append_assoc]
      exact .cons (by rwa [List.append_assoc, comments.terminals_append]) noComment others commaKind
        commented valuesPlaced

/-- A comment in front of the members is passed over. -/
theorem StructBodyPlaced.behind {fields : List StructField} {gap tokens : List Token}
    (placed : StructBodyPlaced fields tokens) (comments : AllComments gap) :
    StructBodyPlaced fields (gap ++ tokens) := by
  cases placed with
  | empty others => exact .empty (comments.append others)
  | data variableForm semicolonKind fieldsPlaced =>
      rw [← List.append_assoc]
      exact .data (by rwa [List.append_assoc, comments.terminals_append]) semicolonKind fieldsPlaced
  | method methodForm rightKind others semicolonKind commented fieldsPlaced =>
      rw [← List.append_assoc]
      exact .method (by rwa [List.append_assoc, comments.terminals_append]) rightKind others
        semicolonKind commented fieldsPlaced

/-! ## What readers take -/

namespace Cursor

variable {c d : Cursor} {p : List Token} {t : Token}

theorem Passes.previous_eq (passes : c.Passes (p ++ [t]) d) (noComment : t.isComment = false) :
    d.previous = some t.position := by
  rw [passes.previous]
  simp [List.filter_append, Token.isSignificant, noComment]

theorem Passes.eq_of_passes {q : List Token} (passes : c.Passes p d) (passes' : c.Passes q d) :
    p = q :=
  List.append_cancel_right (passes.ahead.symm.trans passes'.ahead)

/-- Taking a token of a kind passes over it and the comments in front of it. -/
theorem passes_of_take? {kind : TokenKind} (taken : c.take? kind = some (t, d)) :
    ∃ gap, AllComments gap ∧ c.Passes (gap ++ [t]) d ∧ t.kind = kind ∧ t.isComment = false := by
  unfold take? at taken
  split at taken
  · cases taken
  · rename_i first rest front
    split at taken
    · rename_i sameKind
      cases taken
      obtain ⟨gap, ahead, silent⟩ := c.ahead_eq_comments_append
      obtain ⟨passed, passes, -, -⟩ := passes_of_significant front
      have same : passed = gap ++ [t] := by
        rw [front, List.append_cons, passes.ahead] at ahead
        exact List.append_cancel_right ahead
      refine ⟨gap, ?_, same ▸ passes, sameKind, isComment_of_significant front⟩
      intro u mem
      rw [InterfaceHeader.terminals, List.map_eq_nil_iff, List.filter_eq_nil_iff] at silent
      simpa [Token.isSignificant] using silent u mem
    · cases taken

end Cursor

namespace Reader

variable {c d : Cursor} {t : Token}

theorem comment_eq_ok {a : Option String} (ran : comment c = .ok a d) :
    a = firstComment? c.ahead := by
  cases ahead : c.ahead with
  | nil =>
      rw [comment_of_nil ahead] at ran
      cases ran
      rfl
  | cons s rest =>
      cases commented : s.isComment with
      | true =>
          rw [comment_of_isComment ahead commented] at ran
          cases ran
          simp [firstComment?, commented]
      | false =>
          rw [comment_of_significant ahead commented] at ran
          cases ran
          simp [firstComment?, commented]

/-- Directly behind a token the comment that trails the token is taken. -/
theorem trailingComment_eq_ok {a : Option String} (previous : c.previous = some t.position)
    (ran : trailingComment c = .ok a d) : a = t.trailing? c.ahead := by
  have sameLine : c.hasTrailingComment = t.isTrailed c.ahead := by
    rw [Cursor.hasTrailingComment, previous]
    cases c.ahead <;> rfl
  unfold trailingComment at ran
  rw [sameLine] at ran
  unfold Token.trailing?
  split at ran
  · rename_i trailed
    rw [if_pos trailed]
    exact comment_eq_ok ran
  · rename_i trailed
    rw [if_neg trailed]
    cases ran
    rfl

/-- A comment that is there is kept, and otherwise the one that trails the token is taken. -/
theorem orTrailing_eq_ok {a b : Option String} (previous : c.previous = some t.position)
    (ran : orTrailing a c = .ok b d) :
    b = a.or (t.trailing? c.ahead) ∧ ∃ gap, AllComments gap ∧ c.Passes gap d := by
  cases a with
  | some text =>
      cases ran
      exact ⟨rfl, [], .nil, .refl c⟩
  | none =>
      obtain ⟨gap, passes, maybe⟩ := trailingComment_reads.ok ran
      exact ⟨trailingComment_eq_ok previous ran, gap, .of_maybeComment maybe, passes⟩

theorem expect_eq_ok {kind : TokenKind} (ran : expect kind c = .ok t d) :
    ∃ gap, AllComments gap ∧ c.Passes (gap ++ [t]) d ∧ t.kind = kind ∧ t.isComment = false := by
  unfold expect at ran
  split at ran
  · rename_i taken
    cases ran
    exact Cursor.passes_of_take? taken
  · cases ran

theorem punct_eq_ok {mark : Punct} {u : Unit} (ran : punct mark c = .ok u d) :
    ∃ gap t, AllComments gap ∧ c.Passes (gap ++ [t]) d ∧ t.kind = .punct mark ∧
      t.isComment = false := by
  obtain ⟨t, expected, -⟩ := return_eq_ok ran
  obtain ⟨gap, taken⟩ := expect_eq_ok expected
  exact ⟨gap, t, taken⟩

theorem accept_eq_ok {kind : TokenKind} {a : Option Token} (ran : accept kind c = .ok a d) :
    (a = none ∧ d = c) ∨ ∃ gap t, a = some t ∧ AllComments gap ∧ c.Passes (gap ++ [t]) d ∧
      t.kind = kind ∧ t.isComment = false := by
  unfold accept at ran
  split at ran
  · rename_i t _ taken
    cases ran
    obtain ⟨gap, passes⟩ := Cursor.passes_of_take? taken
    exact Or.inr ⟨gap, t, rfl, passes⟩
  · cases ran
    exact Or.inl ⟨rfl, rfl⟩

theorem identifier_lands {name : String} (ran : identifier c = .ok name d) : c.LandsAt d := by
  obtain ⟨t, expected, -⟩ := return_eq_ok ran
  exact expect_lands expected

/-! ## Enumerations -/

theorem initializer_lands {i : Initializer} (ran : initializer c = .ok i d) : c.LandsAt d := by
  obtain ⟨isInt, c₁, looked, ran⟩ := bind_eq_ok.mp ran
  cases looked
  cases isInteger : c.isAt .integer with
  | true =>
      rw [isInteger] at ran
      obtain ⟨value, valueRan, -⟩ := return_eq_ok ran
      obtain ⟨t, c₂, expected, ran⟩ := bind_eq_ok.mp valueRan
      cases parsed : Decimal.readWord? t.lexeme.toList with
      | none =>
          rw [parsed] at ran
          cases ran
      | some word =>
          rw [parsed] at ran
          cases ran
          exact expect_lands expected
  | false =>
      rw [isInteger] at ran
      obtain ⟨isName, c₂, looked', ran⟩ := bind_eq_ok.mp ran
      cases looked'
      cases isIdentifier : c.isAt .identifier with
      | true =>
          rw [isIdentifier] at ran
          obtain ⟨name, nameRan, -⟩ := return_eq_ok ran
          exact identifier_lands nameRan
      | false =>
          rw [isIdentifier] at ran
          cases ran

/-- A value ends directly behind its last token. -/
theorem enumValue_lands {v : EnumValue} (ran : enumValue c = .ok v d) : c.LandsAt d := by
  obtain ⟨name, c₁, nameRan, restRan⟩ := bind_eq_ok.mp ran
  obtain ⟨equals?, c₂, equalsRan, lastRan⟩ := bind_eq_ok.mp restRan
  rcases accept_eq_ok equalsRan with ⟨rfl, rfl⟩ | ⟨gap, t, rfl, -, passes, -⟩
  · cases lastRan
    exact identifier_lands nameRan
  · obtain ⟨i, initRan, -⟩ := return_eq_ok lastRan
    obtain ⟨q, namePasses, -⟩ := identifier_reads.ok nameRan
    exact (initializer_lands initRan).of_passes (namePasses.trans passes)

/-- Values are placed over the tokens that are passed, and the comments behind these up to the
    closing brace. -/
theorem enumValues_placed {n : Nat} {vs : List EnumValue} (ran : enumValues n c = .ok vs d) :
    ∃ p, c.Passes p d ∧ ∀ gap close rest, d.ahead = gap ++ close :: rest → AllComments gap →
      close.isComment = false → EnumBodyPlaced vs (p ++ gap) := by
  induction n generalizing c vs with
  | zero =>
      cases ran
      exact ⟨[], .refl _, fun gap _ _ _ comments _ => .empty comments⟩
  | succ n ih =>
      obtain ⟨close, c₀, looked, ran₁⟩ := bind_eq_ok.mp ran
      cases looked
      cases closed : c.isAt (.punct .rightBrace) with
      | true =>
          rw [closed] at ran₁
          cases ran₁
          exact ⟨[], .refl _, fun gap _ _ _ comments _ => .empty comments⟩
      | false =>
          rw [closed] at ran₁
          obtain ⟨v, c₁, valueRan, ran₂⟩ := bind_eq_ok.mp ran₁
          obtain ⟨direct, c₂, directRan, ran₃⟩ := bind_eq_ok.mp ran₂
          obtain ⟨comma?, c₃, commaRan, ran₄⟩ := bind_eq_ok.mp ran₃
          obtain ⟨p, t, lands, noComment⟩ := enumValue_lands valueRan
          obtain ⟨q, passes, valueForm⟩ := enumValue_reads.ok valueRan
          obtain rfl := passes.eq_of_passes lands
          obtain ⟨r, directPasses, maybe⟩ := trailingComment_reads.ok directRan
          have directComments := AllComments.of_maybeComment maybe
          have directFound := trailingComment_eq_ok (lands.previous_eq noComment) directRan
          have spelt (comment : Option String) :
              EnumValueForm (EnumValue.withoutComment { v with comment := comment })
                (terminals (p ++ [t])) := by
            rwa [withoutComment_of_enumValueForm valueForm]
          rcases accept_eq_ok commaRan with
            ⟨rfl, rfl⟩ | ⟨s, comma, rfl, commaComments, commaPasses, commaKind, commaSignificant⟩
          · cases ran₄
            refine ⟨p ++ [t] ++ r, lands.trans directPasses,
              fun gap close rest ahead comments noComment' => ?_⟩
            rw [List.append_assoc, List.append_assoc, List.singleton_append]
            refine .last (spelt direct) noComment (directComments.append comments) ?_
            rw [directFound, directPasses.ahead, ahead, ← List.append_assoc,
              trailing?_append noComment']
          · dsimp only at ran₄
            rw [← orTrailing_bind] at ran₄
            obtain ⟨comment, c₄, commentRan, ran₅⟩ := bind_eq_ok.mp ran₄
            obtain ⟨vs, valuesRan, rfl⟩ := return_eq_ok ran₅
            obtain ⟨rfl, w, trailComments, trailPasses⟩ :=
              orTrailing_eq_ok (commaPasses.previous_eq commaSignificant) commentRan
            obtain ⟨z, restPasses, placed⟩ := ih valuesRan
            refine ⟨p ++ [t] ++ (r ++ (s ++ [comma] ++ (w ++ z))),
              lands.trans (directPasses.trans (commaPasses.trans (trailPasses.trans restPasses))),
              fun gap close rest ahead comments noComment' => ?_⟩
            have bodyPlaced :=
              (placed gap close rest ahead comments noComment').behind trailComments
            have tokens : p ++ [t] ++ (r ++ (s ++ [comma] ++ (w ++ z))) ++ gap =
                p ++ t :: ((r ++ s) ++ comma :: (w ++ (z ++ gap))) := by simp
            rw [tokens]
            refine .cons (spelt _) noComment (directComments.append commaComments) commaKind ?_
              bodyPlaced
            have before : c₁.ahead = (r ++ s) ++ comma :: c₃.ahead := by
              rw [directPasses.ahead, commaPasses.ahead]
              simp
            have behind : c₃.ahead = (w ++ (z ++ gap)) ++ close :: rest := by
              rw [trailPasses.ahead, restPasses.ahead, ahead]
              simp
            rw [directFound, before, trailing?_append commaSignificant, behind,
              trailing?_append noComment']

/-- A declaration with its parts between its braces: what is read inside is placed over the tokens
    up to the right brace, comments in front of that included. -/
theorem braced_placed {α β : Type} {word : Keyword} {inside : Cursor → Reader α}
    {ending : α → Reader β} {Placed : α → List Token → Prop} {result : α → β → Prop} {b : β}
    (insidePlaced : ∀ {s c d : Cursor} {a : α}, inside s c = .ok a d → ∃ p, c.Passes p d ∧
      ∀ gap close rest, d.ahead = gap ++ close :: rest → AllComments gap →
        close.isComment = false → Placed a (p ++ gap))
    (endingReads : ∀ a, Reads (ending a) fun b _ => result a b)
    (ran : (do
      keyword .typedef
      keyword word
      punct .leftBrace
      let a ← inside (← get)
      punct .rightBrace
      ending a) c = .ok b d) :
    ∃ a front left body right back, result a b ∧
      c.Passes (front ++ left :: (body ++ right :: back)) d ∧
      (∃ typedef name, terminals front =
        [⟨.keyword .typedef, typedef⟩, ⟨.keyword word, name⟩]) ∧
      left.kind = .punct .leftBrace ∧ right.kind = .punct .rightBrace ∧ Placed a body := by
  obtain ⟨_, c₁, typedefRan, ran₁⟩ := bind_eq_ok.mp ran
  obtain ⟨_, c₂, nameRan, ran₂⟩ := bind_eq_ok.mp ran₁
  obtain ⟨_, c₃, leftRan, ran₃⟩ := bind_eq_ok.mp ran₂
  obtain ⟨start, c₃', looked, ran₄⟩ := bind_eq_ok.mp ran₃
  cases looked
  obtain ⟨a, c₄, bodyRan, ran₅⟩ := bind_eq_ok.mp ran₄
  obtain ⟨_, c₅, rightRan, backRan⟩ := bind_eq_ok.mp ran₅
  obtain ⟨p, typedefPasses, typedef, typedefTerminals⟩ := (keyword_reads _).ok typedefRan
  obtain ⟨q, namePasses, name, nameTerminals⟩ := (keyword_reads _).ok nameRan
  obtain ⟨r, left, leftComments, leftPasses, leftKind, -⟩ := punct_eq_ok leftRan
  obtain ⟨z, bodyPasses, placed⟩ := insidePlaced bodyRan
  obtain ⟨gap, right, rightComments, rightPasses, rightKind, noComment⟩ := punct_eq_ok rightRan
  obtain ⟨back, backPasses, resulted⟩ := (endingReads a).ok backRan
  refine ⟨a, p ++ q ++ r, left, z ++ gap, right, back, resulted, ?_, ⟨typedef, name, ?_⟩,
    leftKind, rightKind, ?_⟩
  · have allPasses := (typedefPasses.trans namePasses).trans
      (leftPasses.trans (bodyPasses.trans (rightPasses.trans backPasses)))
    simpa using allPasses
  · simp [typedefTerminals, nameTerminals, leftComments.terminals]
  · exact placed gap right c₅.ahead (by rw [rightPasses.ahead]; simp) rightComments noComment

/-- An enumeration with its values between its braces. -/
theorem enumDecl_placed {decl : EnumDecl} (ran : enumDecl c = .ok decl d) :
    ∃ front left body right back, c.Passes (front ++ left :: (body ++ right :: back)) d ∧
      (∃ typedef enum, terminals front =
        [⟨.keyword .typedef, typedef⟩, ⟨.keyword .enum, enum⟩]) ∧
      left.kind = .punct .leftBrace ∧ right.kind = .punct .rightBrace ∧
      EnumBodyPlaced decl.values body := by
  have endingReads (vs : List EnumValue) :
      Reads (do return EnumDecl.mk ((← accept .identifier).map Token.lexeme) vs)
        fun decl _ => decl.values = vs :=
    (accept_reads _).bind fun _ _ _ => .pure rfl
  obtain ⟨vs, front, left, body, right, back, rfl, placed⟩ :=
    braced_placed enumValues_placed endingReads ran
  exact ⟨front, left, body, right, back, placed⟩

/-! ## Structures -/

theorem signature_lands_right {arguments : Reader (List Argument)}
    {form : List Argument → List Token → Prop} (argumentsRead : Reads arguments form)
    {f : FunctionType} (ran : signature arguments c = .ok f d) :
    ∃ p right, c.Passes (p ++ [right]) d ∧ right.kind = .punct .rightParen ∧
      right.isComment = false := by
  obtain ⟨type, c₁, typeRan, ran₁⟩ := bind_eq_ok.mp ran
  obtain ⟨name, c₂, nameRan, ran₂⟩ := bind_eq_ok.mp ran₁
  obtain ⟨_, c₃, leftRan, ran₃⟩ := bind_eq_ok.mp ran₂
  obtain ⟨as, c₄, argumentsRan, ran₄⟩ := bind_eq_ok.mp ran₃
  obtain ⟨_, rightRan, rfl⟩ := return_eq_ok ran₄
  obtain ⟨p₁, passes₁, -⟩ := primitive_reads.ok typeRan
  obtain ⟨p₂, passes₂, -⟩ := pointerName_reads.ok nameRan
  obtain ⟨p₃, passes₃, -⟩ := (punct_reads _).ok leftRan
  obtain ⟨p₄, passes₄, -⟩ := argumentsRead.ok argumentsRan
  obtain ⟨gap, right, -, rightPasses, kind, noComment⟩ := punct_eq_ok rightRan
  have allPasses := (((passes₁.trans passes₂).trans passes₃).trans passes₄).trans rightPasses
  rw [← List.append_assoc] at allPasses
  exact ⟨_, right, allPasses, kind, noComment⟩

/-- A member over the tokens up to its semicolon. The comment behind that goes with the member if
    it is the member's, and stands in front of the other members in any case. -/
theorem structField_placed {field : StructField} (ran : structField c = .ok field d) :
    ∃ p gap, c.Passes (p ++ gap) d ∧ AllComments gap ∧
      ∀ fields body close rest, d.ahead = body ++ close :: rest → close.isComment = false →
        StructBodyPlaced fields (gap ++ body) →
        StructBodyPlaced (field :: fields) (p ++ (gap ++ body)) := by
  rw [structField_eq] at ran
  obtain ⟨member, c₁, chosen, ran₁⟩ := bind_eq_ok.mp ran
  obtain ⟨_, c₂, semicolonRan, completedRan⟩ := bind_eq_ok.mp ran₁
  obtain ⟨alternative, mem, memberRan⟩ := chooseFrom_mem chosen
  obtain ⟨s, semicolon, gapComments, semicolonPasses, kind, significant⟩ := punct_eq_ok semicolonRan
  simp only [memberAlternatives, List.mem_cons, List.not_mem_nil, or_false] at mem
  rcases mem with rfl | rfl
  · obtain ⟨v, variableRan, rfl⟩ := return_eq_ok memberRan
    cases completedRan
    obtain ⟨q, passes, u, variableForm, spelt⟩ := variableField_reads.ok variableRan
    refine ⟨q ++ (s ++ [semicolon]), [], ?_, .nil, ?_⟩
    · simpa using passes.trans semicolonPasses
    · intro fields body close rest _ _ fieldsPlaced
      have tokens : q ++ (s ++ [semicolon]) ++ ([] ++ body) =
          (q ++ s) ++ semicolon :: body := by simp
      rw [tokens]
      refine .data ?_ kind fieldsPlaced
      rw [List.append_assoc, terminals_append, spelt, terminals_append, gapComments.terminals,
        terminals_cons_significant significant, Token.terminal, kind, List.append_assoc]
      exact .data v.name semicolon.lexeme variableForm
  · obtain ⟨m, methodRan, rfl⟩ := return_eq_ok memberRan
    obtain ⟨comment, lastRan, rfl⟩ := return_eq_ok completedRan
    obtain ⟨f, c₃, functionRan, commentedRan⟩ := bind_eq_ok.mp methodRan
    obtain ⟨direct, directRan, rfl⟩ := return_eq_ok commentedRan
    have argumentsRead := argumentList_reads argument_reads
    obtain ⟨p, right, lands, rightKind, rightSignificant⟩ :=
      signature_lands_right argumentsRead functionRan
    obtain ⟨q, passes, functionForm⟩ := (signature_reads argumentsRead).ok functionRan
    obtain rfl := passes.eq_of_passes lands
    obtain ⟨r, directPasses, maybe⟩ := comment_reads.ok directRan
    have directComments := AllComments.of_maybeComment maybe
    obtain ⟨rfl, w, trailComments, trailPasses⟩ :=
      orTrailing_eq_ok (semicolonPasses.previous_eq significant) lastRan
    refine ⟨p ++ [right] ++ (r ++ (s ++ [semicolon])), w, ?_, trailComments, ?_⟩
    · simpa using (lands.trans directPasses).trans (semicolonPasses.trans trailPasses)
    · intro fields body close rest ahead noComment fieldsPlaced
      have tokens : p ++ [right] ++ (r ++ (s ++ [semicolon])) ++ (w ++ body) =
          p ++ right :: ((r ++ s) ++ semicolon :: (w ++ body)) := by simp
      have before : c₃.ahead = (r ++ s) ++ semicolon :: c₂.ahead := by
        rw [directPasses.ahead, semicolonPasses.ahead]
        simp
      have behind : c₂.ahead = (w ++ body) ++ close :: rest := by
        rw [trailPasses.ahead, ahead]
        simp
      rw [tokens]
      refine .method functionForm rightKind (directComments.append gapComments) kind ?_ fieldsPlaced
      rw [comment_eq_ok directRan, before, firstComment?_append significant, behind,
        trailing?_append noComment]

/-- Members are placed over the tokens that are passed, and the comments behind these up to the
    closing brace. -/
theorem structFields_placed {n : Nat} {fields : List StructField}
    (ran : structFields n c = .ok fields d) :
    ∃ p, c.Passes p d ∧ ∀ gap close rest, d.ahead = gap ++ close :: rest → AllComments gap →
      close.isComment = false → StructBodyPlaced fields (p ++ gap) := by
  induction n generalizing c fields with
  | zero =>
      cases ran
      exact ⟨[], .refl _, fun gap _ _ _ comments _ => .empty comments⟩
  | succ n ih =>
      obtain ⟨c₀, c₁, looked, ran₁⟩ := bind_eq_ok.mp ran
      cases looked
      obtain ⟨close, c₂, noComment, ran₂⟩ := bind_eq_ok.mp ran₁
      cases noComment
      cases closed : c.next?.isNone || c.isAt (.punct .rightBrace) with
      | true =>
          rw [closed] at ran₂
          cases ran₂
          exact ⟨[], .refl _, fun gap _ _ _ comments _ => .empty comments⟩
      | false =>
          rw [closed] at ran₂
          obtain ⟨field, c₃, fieldRan, ran₃⟩ := bind_eq_ok.mp ran₂
          obtain ⟨fields, fieldsRan, rfl⟩ := return_eq_ok ran₃
          obtain ⟨p, w, passes, trailComments, placed⟩ := structField_placed fieldRan
          obtain ⟨z, restPasses, othersPlaced⟩ := ih fieldsRan
          refine ⟨p ++ w ++ z, passes.trans restPasses,
            fun gap close rest ahead comments noComment => ?_⟩
          have bodyPlaced :=
            (othersPlaced gap close rest ahead comments noComment).behind trailComments
          have behind : c₃.ahead = (z ++ gap) ++ close :: rest := by
            rw [restPasses.ahead, ahead, List.append_assoc]
          have allPlaced := placed fields (z ++ gap) close rest behind noComment bodyPlaced
          simpa using allPlaced

/-- A structure with its members between its braces. -/
theorem structDecl_placed {decl : StructDecl} (ran : structDecl c = .ok decl d) :
    ∃ front left body right back, c.Passes (front ++ left :: (body ++ right :: back)) d ∧
      (∃ typedef struct, terminals front =
        [⟨.keyword .typedef, typedef⟩, ⟨.keyword .struct, struct⟩]) ∧
      left.kind = .punct .leftBrace ∧ right.kind = .punct .rightBrace ∧
      StructBodyPlaced decl.fields body := by
  have endingReads (fields : List StructField) :
      Reads (do return StructDecl.mk (← identifier) fields) fun decl _ => decl.fields = fields :=
    identifier_reads.bind fun _ _ _ => .pure rfl
  obtain ⟨fields, front, left, body, right, back, rfl, placed⟩ :=
    braced_placed structFields_placed endingReads ran
  exact ⟨front, left, body, right, back, placed⟩

/-! ## Declarations -/

/-- A declaration ends directly behind its semicolon. -/
theorem ended_eq_ok {α : Type} {decl : Reader α} {a : α} (ran : ended decl c = .ok a d) :
    ∃ e gap semicolon, decl c = .ok a e ∧ e.Passes (gap ++ [semicolon]) d ∧
      semicolon.isComment = false := by
  obtain ⟨b, e, declRan, ran₁⟩ := bind_eq_ok.mp ran
  obtain ⟨_, e', semicolonRan, ran₂⟩ := bind_eq_ok.mp ran₁
  cases ran₂
  obtain ⟨gap, semicolon, -, passes, -, noComment⟩ := punct_eq_ok semicolonRan
  exact ⟨e, gap, semicolon, declRan, passes, noComment⟩

/-- What stands behind the right brace goes on up to the end of a declaration. -/
theorem braces_append (front body back rest : List Token) (left right : Token) :
    front ++ left :: (body ++ right :: back) ++ rest =
      front ++ left :: (body ++ right :: (back ++ rest)) := by
  simp

/-- A declaration is placed over the tokens that are passed. -/
theorem declaration_placed {decl : Declaration} (ran : declaration c = .ok decl d) :
    ∃ p, c.Passes p d ∧ DeclarationPlaced decl p ∧ ∀ t ∈ p.getLast?, t.isComment = false := by
  obtain ⟨q, passes, decl', same, declForm, -⟩ := declaration_reads.ok ran
  rw [declaration_eq] at ran
  obtain ⟨alternative, mem, alternativeRan⟩ := chooseFrom_mem ran
  simp only [declarationAlternatives, List.mem_cons, List.not_mem_nil, or_false] at mem
  have ends {e : Cursor} {p gap : List Token} {semicolon : Token} (declPasses : c.Passes p e)
      (semicolonPasses : e.Passes (gap ++ [semicolon]) d)
      (noComment : semicolon.isComment = false) :
      ∀ t ∈ q.getLast?, t.isComment = false := by
    obtain rfl := passes.eq_of_passes (declPasses.trans semicolonPasses)
    intro t last
    rw [← List.append_assoc, List.getLast?_concat] at last
    obtain rfl := Option.some.inj last
    exact noComment
  rcases mem with rfl | rfl | rfl | rfl
  · obtain ⟨e, endedRan, rfl⟩ := return_eq_ok alternativeRan
    obtain ⟨c₁, gap, semicolon, declRan, semicolonPasses, noComment⟩ := ended_eq_ok endedRan
    obtain ⟨front, left, body, right, back, declPasses, ⟨typedef, enum, frontTerminals⟩,
      leftKind, rightKind, bodyPlaced⟩ := enumDecl_placed declRan
    have lastSignificant := ends declPasses semicolonPasses noComment
    obtain rfl := passes.eq_of_passes (declPasses.trans semicolonPasses)
    cases same
    refine ⟨_, passes, ?_, lastSignificant⟩
    rw [braces_append] at declForm ⊢
    exact .enum typedef enum declForm frontTerminals leftKind rightKind bodyPlaced
  · obtain ⟨a, endedRan, rfl⟩ := return_eq_ok alternativeRan
    obtain ⟨c₁, gap, semicolon, declRan, semicolonPasses, noComment⟩ := ended_eq_ok endedRan
    obtain ⟨p, declPasses, -⟩ := aliasDecl_reads.ok declRan
    cases same
    exact ⟨q, passes, .typeAlias declForm, ends declPasses semicolonPasses noComment⟩
  · obtain ⟨f, endedRan, rfl⟩ := return_eq_ok alternativeRan
    obtain ⟨c₁, gap, semicolon, declRan, semicolonPasses, noComment⟩ := ended_eq_ok endedRan
    obtain ⟨p, declPasses, -⟩ := functionDecl_reads.ok declRan
    cases same
    exact ⟨q, passes, .function declForm, ends declPasses semicolonPasses noComment⟩
  · obtain ⟨s, endedRan, rfl⟩ := return_eq_ok alternativeRan
    obtain ⟨c₁, gap, semicolon, declRan, semicolonPasses, noComment⟩ := ended_eq_ok endedRan
    obtain ⟨front, left, body, right, back, declPasses, ⟨typedef, struct, frontTerminals⟩,
      leftKind, rightKind, bodyPlaced⟩ := structDecl_placed declRan
    have lastSignificant := ends declPasses semicolonPasses noComment
    obtain rfl := passes.eq_of_passes (declPasses.trans semicolonPasses)
    cases same
    refine ⟨_, passes, ?_, lastSignificant⟩
    rw [braces_append] at declForm ⊢
    exact .struct typedef struct declForm frontTerminals leftKind rightKind bodyPlaced

/-- The parts of a header are placed over all tokens ahead. -/
theorem declarations_placed {n : Nat} {ds : List Declaration} (fits : c.ahead.length ≤ n)
    (ran : declarations n c = .ok ds d) : HeaderPlaced ds c.ahead := by
  induction n generalizing c ds with
  | zero =>
      have ahead : c.ahead = [] := List.length_eq_zero_iff.mp (Nat.le_zero.mp fits)
      cases ran
      rw [ahead]
      exact .nil
  | succ n ih =>
      cases ahead : c.ahead with
      | nil =>
          rw [declarations_of_nil ahead] at ran
          cases ran
          exact .nil
      | cons t rest =>
          rw [ahead, List.length_cons] at fits
          cases commented : t.isComment with
          | true =>
              rw [declarations_of_comment ahead commented] at ran
              obtain ⟨ds, restRan, rfl⟩ := return_eq_ok ran
              exact .comment commented
                (ih (c := { c with ahead := rest }) (Nat.le_of_succ_le_succ fits) restRan)
          | false =>
              rw [declarations_of_significant ahead commented] at ran
              obtain ⟨first, c₁, firstRan, othersRan⟩ := bind_eq_ok.mp ran
              obtain ⟨ds, restRan, rfl⟩ := return_eq_ok othersRan
              have shorter := length_ahead_of_declaration firstRan
              rw [ahead, List.length_cons] at shorter
              have restPlaced := ih (c := c₁) (by omega) restRan
              obtain ⟨p, passes, placed, lastSignificant⟩ :=
                declaration_placed (orComment_eq_ok.mp firstRan)
              have tokens := passes.ahead
              rw [ahead] at tokens
              rw [tokens]
              refine .declaration placed ?_ lastSignificant restPlaced
              intro s head
              cases p with
              | nil => cases head
              | cons first p =>
                  cases tokens
                  obtain rfl := Option.some.inj head
                  exact commented

end Reader

end InterfaceHeader
