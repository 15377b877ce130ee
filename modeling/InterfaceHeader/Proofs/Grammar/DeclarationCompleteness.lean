import InterfaceHeader.Proofs.Grammar.DeclarationSoundness
import InterfaceHeader.Proofs.Grammar.TypeCompleteness

/-!
# Declarations of the grammar are found

On a cursor whose next terminals are derived as a declaration, the readers find the declaration of
the derivation, whatever comments stand between the terminals. Of the alternatives that do not fit,
an enumeration fails at the second terminal, an alias at the parenthesis of a function type at the
latest, which is the fifth, and a function type at the reserved word of a structure: none of them
uses up the budget of the choice.
-/

namespace InterfaceHeader.Reader

variable {α : Type}

theorem initializer_finds {init : Initializer} {c : Cursor} {u w : List Terminal}
    (formed : InitializerForm init u) (ahead : c.terminals = u ++ w) :
    Finds initializer c (· = init) w := by
  refine (isAt_finds c _).bind fun isInt c₁ decided ahead₁ => ?_
  cases formed with
  | @int value text spelt =>
      rw [ahead] at decided ahead₁
      subst decided
      exact (integer_finds ahead₁ spelt).bind
        fun found c₂ same ahead₂ => .pure (by rw [same]) ahead₂
  | reference name =>
      rw [ahead] at decided ahead₁
      subst decided
      refine (isAt_finds c₁ _).bind fun isName c₂ decided' ahead₂ => ?_
      rw [ahead₁] at decided' ahead₂
      subst decided'
      exact (identifier_finds ahead₂).bind fun found c₃ same ahead₃ => .pure (by rw [same]) ahead₃

theorem enumValue_finds {v : EnumValue} {c : Cursor} {u w : List Terminal}
    (formed : EnumValueForm v u) (ahead : c.terminals = u ++ w)
    (noEquals : nextKind? w ≠ some (.punct .equals)) : Finds enumValue c (· = v) w := by
  cases formed with
  | plain name =>
      refine (identifier_finds ahead).bind fun name' c₁ sameName ahead₁ => ?_
      subst ahead₁
      refine (accept_finds_none noEquals).bind fun equals? c₂ equalsFound ahead₂ => ?_
      subst equalsFound
      exact .pure (by rw [sameName]) ahead₂
  | initialized name equals initForm =>
      refine (identifier_finds ahead).bind fun name' c₁ sameName ahead₁ => ?_
      refine (accept_finds ahead₁).bind fun equals? c₂ equalsFound ahead₂ => ?_
      cases equals? with
      | none => cases equalsFound
      | some t =>
          refine (initializer_finds initForm ahead₂).bind
            fun init' c₃ sameInit ahead₃ => .pure ?_ ahead₃
          rw [sameName, sameInit]

theorem nextKind?_of_enumValueForm {v : EnumValue} {u : List Terminal} (formed : EnumValueForm v u)
    (w : List Terminal) : nextKind? (u ++ w) = some .identifier := by
  cases formed <;> rfl

theorem enumValues_finds_nil (n : Nat) {c : Cursor}
    (ahead : nextKind? c.terminals = some (.punct .rightBrace)) :
    Finds (enumValues n) c (· = []) c.terminals := by
  cases n with
  | zero => exact .pure rfl rfl
  | succ n =>
      refine (isAt_finds c _).bind fun close c₁ closes ahead₁ => ?_
      rw [ahead] at closes
      subst closes
      exact .pure rfl ahead₁

/-- The first round over the values of an enumeration, when there is a value to be read: behind
    it comes the closing brace, or a comma and what the further rounds find. -/
theorem enumValues_finds_cons {n : Nat} {v : EnumValue} {c : Cursor} {u w w' : List Terminal}
    (post : List EnumValue → Prop) (formed : EnumValueForm v u) (ahead : c.terminals = u ++ w)
    (last : nextKind? w = some (.punct .rightBrace) → w' = w ∧ post [])
    (next : nextKind? w ≠ some (.punct .rightBrace) → ∃ comma z,
      w = ⟨.punct .comma, comma⟩ :: z ∧
        ∀ c', c'.terminals = z → Finds (enumValues n) c' post w') :
    Finds (enumValues (n + 1)) c
      (fun vs => ∃ first rest, vs = first :: rest ∧ first.withoutComment = v ∧ post rest) w' := by
  have noEquals : nextKind? w ≠ some (.punct .equals) := by
    by_cases brace : nextKind? w = some (.punct .rightBrace)
    · simp [brace]
    · obtain ⟨comma, z, rfl, -⟩ := next brace
      simp
  refine (isAt_finds c _).bind fun close c₁ closes ahead₁ => ?_
  rw [ahead, nextKind?_of_enumValueForm formed] at closes
  subst closes
  refine (enumValue_finds formed (ahead₁.trans ahead) noEquals).bind fun v' c₂ same ahead₂ => ?_
  subst same
  refine (trailingComment_finds c₂).bind fun direct c₃ _ ahead₃ => ?_
  rw [ahead₂] at ahead₃
  by_cases brace : nextKind? w = some (.punct .rightBrace)
  · have noComma : nextKind? c₃.terminals ≠ some (.punct .comma) := by simp [ahead₃, brace]
    refine (accept_finds_none noComma).bind fun comma? c₄ commaFound ahead₄ => ?_
    subst commaFound
    obtain ⟨rfl, holds⟩ := last brace
    exact .pure ⟨_, [], rfl, withoutComment_of_enumValueForm formed _, holds⟩ (ahead₄.trans ahead₃)
  · obtain ⟨comma, z, rfl, finds⟩ := next brace
    refine (accept_finds ahead₃).bind fun comma? c₄ commaFound ahead₄ => ?_
    cases comma? with
    | none => cases commaFound
    | some t =>
        have tail (comment : Option String) (c₅ : Cursor) (ahead₅ : c₅.terminals = z) :
            Finds (do return { v' with comment := comment } :: (← enumValues n)) c₅
              (fun vs => ∃ first rest, vs = first :: rest ∧ first.withoutComment = v' ∧
                post rest) w' := by
          refine (finds c₅ ahead₅).bind fun vs c₆ found ahead₆ => .pure ?_ ahead₆
          exact ⟨_, vs, rfl, withoutComment_of_enumValueForm formed _, found⟩
        cases direct with
        | some text => exact tail (some text) c₄ ahead₄
        | none =>
            refine (trailingComment_finds c₄).bind fun comment c₅ _ ahead₅ => ?_
            exact tail comment c₅ (ahead₅.trans ahead₄)

theorem enumValues_finds {vs : List EnumValue} {u w : List Terminal} (formed : EnumBodyForm vs u)
    (closed : nextKind? w = some (.punct .rightBrace)) {n : Nat} (fits : u.length ≤ n) {c : Cursor}
    (ahead : c.terminals = u ++ w) :
    Finds (enumValues n) c (·.map EnumValue.withoutComment = vs) w := by
  cases formed with
  | empty =>
      subst ahead
      exact (enumValues_finds_nil n closed).mono fun vs same => by rw [same]; rfl
  | @values vs u v trailing listForm trailingForm =>
      rw [List.append_assoc] at ahead
      rw [List.length_append] at fits
      induction listForm generalizing n c with
      | @one a u valueForm =>
          have nonempty : u.length ≠ 0 := by cases valueForm <;> simp
          obtain ⟨k, rfl⟩ : ∃ k, n = k + 1 := ⟨n - 1, by omega⟩
          refine (enumValues_finds_cons (· = []) valueForm ahead ?_ ?_).mono
            fun vs found => ?_
          · intro brace
            cases trailingForm with
            | absent => exact ⟨rfl, rfl⟩
            | present comma => simp at brace
          · intro brace
            cases trailingForm with
            | absent => exact absurd closed brace
            | present comma =>
                refine ⟨comma, w, rfl, fun c' ahead' => ?_⟩
                subst ahead'
                exact enumValues_finds_nil k closed
          · obtain ⟨first, rest, rfl, sameFirst, rfl⟩ := found
            rw [List.map_cons, sameFirst]
            rfl
      | @cons a as u z comma valueForm moreForm ih =>
          rw [List.length_append, List.length_cons] at fits
          rw [List.append_assoc, List.cons_append] at ahead
          obtain ⟨k, rfl⟩ : ∃ k, n = k + 1 := ⟨n - 1, by omega⟩
          refine (enumValues_finds_cons _ valueForm ahead (fun brace => by simp at brace) fun _ =>
            ⟨comma, _, rfl, fun c' ahead' => ih (n := k) (by omega) ahead'⟩).mono fun vs found => ?_
          obtain ⟨first, rest, rfl, sameFirst, sameRest⟩ := found
          rw [List.map_cons, sameFirst, sameRest]

theorem enumDecl_finds {e : EnumDecl} {c : Cursor} {u w : List Terminal} (formed : EnumForm e u)
    (ahead : c.terminals = u ++ w) (noName : nextKind? w ≠ some .identifier) :
    Finds enumDecl c (·.withoutComments = e) w := by
  cases formed with
  | @intro name vs u v typedef enum left right bodyForm nameForm =>
      simp only [List.append_assoc, List.cons_append] at ahead
      refine (keyword_finds ahead).bind fun _ c₁ _ ahead₁ => ?_
      refine (keyword_finds ahead₁).bind fun _ c₂ _ ahead₂ => ?_
      refine (punct_finds ahead₂).bind fun _ c₃ _ ahead₃ => ?_
      refine (get_finds c₃).bind fun c₃' c₄ here ahead₄ => ?_
      have rounds : u.length ≤ c₃'.ahead.length + 1 := by
        have := c₃.length_terminals_le
        rw [ahead₃, List.length_append] at this
        rw [here]
        omega
      refine (enumValues_finds bodyForm rfl rounds (ahead₄.trans ahead₃)).bind
        fun vs' c₅ sameValues ahead₅ => ?_
      refine (punct_finds ahead₅).bind fun _ c₆ _ ahead₆ => ?_
      refine (accept_finds_name nameForm ahead₆ noName).bind
        fun name? c₇ nameFound ahead₇ => .pure ?_ ahead₇
      rw [EnumDecl.withoutComments, sameValues, nameFound]

theorem aliasDecl_finds {a : AliasDecl} {c : Cursor} {u w : List Terminal} (formed : AliasForm a u)
    (ahead : c.terminals = u ++ w) : Finds aliasDecl c (· = a) w := by
  cases formed with
  | intro typedef name typeForm =>
      simp only [List.append_assoc, List.cons_append, List.nil_append] at ahead
      refine (keyword_finds ahead).bind fun _ c₁ _ ahead₁ => ?_
      refine (primitive_finds typeForm ahead₁ (by simp)).bind fun type c₂ sameType ahead₂ => ?_
      refine (identifier_finds ahead₂).bind fun name' c₃ sameName ahead₃ => .pure ?_ ahead₃
      rw [sameType, sameName]

theorem functionDecl_finds {f : FunctionType} {c : Cursor} {u w : List Terminal}
    (formed : FunctionDeclForm f u) (ahead : c.terminals = u ++ w) :
    Finds functionDecl c (· = f) w := by
  cases formed with
  | intro typedef formed =>
      exact (keyword_finds ahead).bind fun _ c₁ _ ahead₁ => functionType_finds formed ahead₁

theorem variableField_finds {type : Primitive} {name : String} {c : Cursor}
    {u w : List Terminal} (typeForm : PrimitiveForm type u)
    (ahead : c.terminals = u ++ ⟨.identifier, name⟩ :: w) :
    Finds variableField c (· = ⟨type, name⟩) w := by
  refine (primitive_finds typeForm ahead (by simp)).bind fun type' c₁ sameType ahead₁ => ?_
  refine (identifier_finds ahead₁).bind fun name' c₂ sameName ahead₂ => .pure ?_ ahead₂
  rw [sameType, sameName]

/-- A function type starts with a primitive type and a parenthesis. -/
theorem signatureForm_start {form : List Argument → List Terminal → Prop} {f : FunctionType}
    {u : List Terminal} (formed : SignatureForm form f u) :
    ∃ p v w, u = v ++ w ∧ PrimitiveForm p v ∧
      ∀ z, nextKind? (w ++ z) = some (.punct .leftParen) := by
  cases formed with
  | intro left right typeForm nameForm argumentsForm =>
      refine ⟨_, _, _, rfl, typeForm, fun z => ?_⟩
      cases nameForm
      rfl

/-- A primitive type and a name are given up where something else follows the type. -/
theorem variableField_fails {type : Primitive} {c : Cursor} {u w : List Terminal}
    (typeForm : PrimitiveForm type u) (ahead : c.terminals = u ++ w)
    (noStar : nextKind? w ≠ some (.punct .star)) (noName : nextKind? w ≠ some .identifier) :
    FailsBefore variableField c w := by
  refine (primitive_finds typeForm ahead noStar).bind_fails fun type' c₁ _ ahead₁ => ?_
  subst ahead₁
  exact (identifier_fails noName).bind _

theorem methodField_finds {f : FunctionType} {c : Cursor} {u w : List Terminal}
    (formed : MethodForm f u) (ahead : c.terminals = u ++ w) :
    Finds methodField c (·.function = f) w := by
  refine (signature_finds formed ahead fun as c' v x argumentsForm _ ahead' =>
    argumentList_finds (argument_finds v.length) argumentsForm (Nat.le_refl _) ahead' rfl).bind
      fun f' c₁ same ahead₁ => ?_
  refine (comment_finds c₁).bind fun comment c₂ _ ahead₂ => .pure same (ahead₂.trans ahead₁)

theorem structField_finds {field : StructField} {c : Cursor} {u w : List Terminal}
    (formed : StructFieldForm field u) (ahead : c.terminals = u ++ w) :
    Finds structField c (·.withoutComment = field) w := by
  cases formed with
  | data name semicolon typeForm =>
      rw [List.append_assoc] at ahead
      have findsData : Finds (do return StructField.data (← variableField)) c
          (· = .data ⟨_, name⟩) (⟨.punct .semicolon, semicolon⟩ :: w) :=
        (variableField_finds typeForm ahead).bind
          fun v c₁ sameVariable ahead₁ => .pure (by rw [sameVariable]) ahead₁
      refine (choose_finds_first findsData).bind fun found c₁ same ahead₁ => ?_
      subst same
      exact (punct_finds ahead₁).bind fun _ c₂ _ ahead₂ => .pure rfl ahead₂
  | @method f u semicolon methodForm =>
      rw [List.append_assoc] at ahead
      have findsMethod : Finds (do return StructField.method (← methodField)) c
          (fun found => ∃ comment, found = .method ⟨f, comment⟩)
          (⟨.punct .semicolon, semicolon⟩ :: w) := by
        refine (methodField_finds methodForm ahead).bind
          fun m c₁ sameMethod ahead₁ => .pure ?_ ahead₁
        exact ⟨m.comment, by rw [← sameMethod]⟩
      obtain ⟨p, v, z, rfl, typeForm, paren⟩ := signatureForm_start methodForm
      rw [List.append_assoc] at ahead
      have fails := variableField_fails typeForm ahead (by simp [paren]) (by simp [paren])
      have near := (length_of_primitiveForm typeForm).2
      refine (choose_finds_later (fails.bind _)
        (by rw [ahead, List.length_append, lookahead]; omega)
        (choose_finds_first findsMethod)).bind fun found c₁ same ahead₁ => ?_
      refine (punct_finds ahead₁).bind fun _ c₂ _ ahead₂ => ?_
      obtain ⟨comment, rfl⟩ := same
      cases comment with
      | some text => exact .pure rfl ahead₂
      | none =>
          exact (trailingComment_finds c₂).bind
            fun text c₃ _ ahead₃ => .pure rfl (ahead₃.trans ahead₂)

theorem nextKind?_of_structFieldForm {field : StructField} {u : List Terminal}
    (formed : StructFieldForm field u) (w : List Terminal) :
    nextKind? (u ++ w) = some (.keyword .const) ∨ nextKind? (u ++ w) = some .identifier := by
  cases formed with
  | data name semicolon typeForm =>
      rw [List.append_assoc]
      exact nextKind?_of_primitiveForm typeForm _
  | method semicolon methodForm =>
      rw [List.append_assoc]
      exact nextKind?_of_signatureForm methodForm _

theorem structFields_finds {fields : List StructField} {u w : List Terminal}
    (formed : SequenceForm StructFieldForm fields u)
    (closed : nextKind? w = some (.punct .rightBrace)) {n : Nat} (fits : u.length ≤ n) {c : Cursor}
    (ahead : c.terminals = u ++ w) :
    Finds (structFields n) c (·.map StructField.withoutComment = fields) w := by
  induction formed generalizing n c with
  | nil =>
      cases n with
      | zero => exact .pure rfl ahead
      | succ n =>
          refine (get_finds c).bind fun c' c₁ here ahead₁ => ?_
          refine (isAt_finds c₁ _).bind fun close c₂ closes ahead₂ => ?_
          rw [ahead₁, ahead, List.nil_append, closed] at closes
          subst closes
          rw [decide_eq_true rfl, Bool.or_true]
          exact .pure rfl (ahead₂.trans (ahead₁.trans ahead))
  | @cons field fields u v fieldForm formed ih =>
      have nonempty : 1 ≤ u.length := by
        cases fieldForm <;> simp only [List.length_append, List.length_cons] <;> omega
      rw [List.length_append] at fits
      obtain ⟨k, rfl⟩ : ∃ k, n = k + 1 := ⟨n - 1, by omega⟩
      rw [List.append_assoc] at ahead
      refine (get_finds c).bind fun c' c₁ here ahead₁ => ?_
      refine (isAt_finds c₁ _).bind fun close c₂ closes ahead₂ => ?_
      have start := nextKind?_of_structFieldForm fieldForm (v ++ w)
      have more : c'.next?.isNone = false := by
        rw [here, ← Option.isNone_map (f := Token.kind), Cursor.next?_kind, ahead]
        rcases start with kind | kind <;> rw [kind] <;> rfl
      have opened : close = false := by
        rw [closes, ahead₁, ahead]
        rcases start with kind | kind <;> rw [kind] <;> decide
      rw [more, opened]
      refine (structField_finds fieldForm (ahead₂.trans (ahead₁.trans ahead))).bind
        fun found c₃ sameFirst ahead₃ => ?_
      refine (ih (by omega) ahead₃).bind fun rest c₄ sameRest ahead₄ => .pure ?_ ahead₄
      rw [List.map_cons, sameFirst, sameRest]

theorem structDecl_finds {s : StructDecl} {c : Cursor} {u w : List Terminal}
    (formed : StructForm s u) (ahead : c.terminals = u ++ w) :
    Finds structDecl c (·.withoutComments = s) w := by
  cases formed with
  | @intro fields u typedef struct left right name fieldsForm =>
      simp only [List.append_assoc, List.cons_append, List.nil_append] at ahead
      refine (keyword_finds ahead).bind fun _ c₁ _ ahead₁ => ?_
      refine (keyword_finds ahead₁).bind fun _ c₂ _ ahead₂ => ?_
      refine (punct_finds ahead₂).bind fun _ c₃ _ ahead₃ => ?_
      refine (get_finds c₃).bind fun c₃' c₄ here ahead₄ => ?_
      have rounds : u.length ≤ c₃'.ahead.length := by
        have := c₃.length_terminals_le
        rw [ahead₃, List.length_append] at this
        rw [here]
        omega
      refine (structFields_finds fieldsForm rfl rounds (ahead₄.trans ahead₃)).bind
        fun found c₅ same ahead₅ => ?_
      refine (punct_finds ahead₅).bind fun _ c₆ _ ahead₆ => ?_
      refine (identifier_finds ahead₆).bind fun name' c₇ sameName ahead₇ => .pure ?_ ahead₇
      rw [StructDecl.withoutComments, same, sameName]

theorem ended_finds {decl : Reader α} {post : α → Prop} {c : Cursor} {w : List Terminal}
    {semicolon : String} (finds : Finds decl c post (⟨.punct .semicolon, semicolon⟩ :: w)) :
    Finds (ended decl) c post w :=
  finds.bind fun _ _ holds ahead₁ => (punct_finds ahead₁).bind
    fun _ _ _ ahead₂ => .pure holds ahead₂

/-- A declaration that fails behind its first reserved word fails there. -/
theorem ended_fails {rest : Unit → Reader α} {c : Cursor} {typedef : String}
    {w w' : List Terminal} (ahead : c.terminals = ⟨.keyword .typedef, typedef⟩ :: w)
    (fails : ∀ c', c'.terminals = w → FailsBefore (rest ()) c' w') :
    FailsBefore (ended (keyword .typedef >>= rest)) c w' := by
  refine FailsBefore.bind ?_ _
  exact (keyword_finds ahead).bind_fails fun _ c' _ ahead' => fails c' ahead'

/-- The first two terminals tell enumerations and structures from the other declarations. -/
theorem enumDecl_fails {c : Cursor} {typedef : String} {w : List Terminal}
    (ahead : c.terminals = ⟨.keyword .typedef, typedef⟩ :: w)
    (noEnum : nextKind? w ≠ some (.keyword .enum)) : FailsBefore (ended enumDecl) c w := by
  refine ended_fails ahead fun c₁ ahead₁ => ?_
  subst ahead₁
  exact (keyword_fails noEnum).bind _

theorem aliasDecl_fails {c : Cursor} {typedef : String} {p : Primitive} {u w : List Terminal}
    (ahead : c.terminals = ⟨.keyword .typedef, typedef⟩ :: (u ++ w)) (typeForm : PrimitiveForm p u)
    (noStar : nextKind? w ≠ some (.punct .star)) (noName : nextKind? w ≠ some .identifier) :
    FailsBefore (ended aliasDecl) c w := by
  refine ended_fails ahead fun c₁ ahead₁ => ?_
  refine (primitive_finds typeForm ahead₁ noStar).bind_fails fun type c₂ _ ahead₂ => ?_
  subst ahead₂
  exact (identifier_fails noName).bind _

/-- Neither an alias nor a function type has a reserved word other than `const` behind the
    first one. -/
theorem typeDecl_fails {c : Cursor} {typedef : String} {w : List Terminal}
    (ahead : c.terminals = ⟨.keyword .typedef, typedef⟩ :: w)
    (noConst : nextKind? w ≠ some (.keyword .const)) (noName : nextKind? w ≠ some .identifier) :
    FailsBefore (ended aliasDecl) c w ∧ FailsBefore (ended functionDecl) c w := by
  have fails (c₁ : Cursor) (ahead₁ : c₁.terminals = w) : FailsBefore primitive c₁ w := by
    subst ahead₁
    exact primitive_fails noConst noName
  constructor
  · exact ended_fails ahead fun c₁ ahead₁ => (fails c₁ ahead₁).bind _
  · exact ended_fails ahead fun c₁ ahead₁ => (fails c₁ ahead₁).bind _

theorem declaration_finds {d : Declaration} {c : Cursor} {u w : List Terminal}
    (formed : DeclarationForm d u) (ahead : c.terminals = u ++ w) :
    Finds declaration c (·.withoutComments? = some d) w := by
  cases formed with
  | enum semicolon enumForm =>
      rw [List.append_assoc] at ahead
      refine choose_finds_first ((ended_finds (enumDecl_finds enumForm ahead (by simp))).bind
        fun e c₁ same ahead₁ => .pure ?_ ahead₁)
      rw [Declaration.withoutComments?, same]
  | @typeAlias a u semicolon aliasForm =>
      rw [List.append_assoc] at ahead
      have last : Finds (do return Declaration.typeAlias (← ended aliasDecl)) c
          (·.withoutComments? = some (.typeAlias a)) w := by
        refine (ended_finds (aliasDecl_finds aliasForm ahead)).bind
          fun a' c₁ same ahead₁ => .pure ?_ ahead₁
        rw [same]
        rfl
      cases aliasForm with
      | intro typedef name typeForm =>
          simp only [List.append_assoc, List.cons_append, List.nil_append] at ahead
          refine choose_finds_later ((enumDecl_fails ahead ?_).bind _) ?_ (choose_finds_first last)
          · rcases nextKind?_of_primitiveForm typeForm (⟨.identifier, name⟩
              :: ⟨.punct .semicolon, semicolon⟩ :: w) with start | start <;> simp [start]
          · rw [ahead, List.length_cons, lookahead]
            omega
  | @function f u semicolon functionForm =>
      rw [List.append_assoc] at ahead
      have last : Finds (do return Declaration.function (← ended functionDecl)) c
          (·.withoutComments? = some (.function f)) w := by
        refine (ended_finds (functionDecl_finds functionForm ahead)).bind
          fun f' c₁ same ahead₁ => .pure ?_ ahead₁
        rw [same]
        rfl
      cases functionForm with
      | intro typedef functionForm =>
          obtain ⟨p, v, z, rfl, typeForm, paren⟩ := signatureForm_start functionForm
          simp only [List.append_assoc, List.cons_append, List.nil_append] at ahead
          refine choose_finds_later ((enumDecl_fails ahead ?_).bind _) ?_
            (choose_finds_later ((aliasDecl_fails ahead typeForm ?_ ?_).bind _) ?_
              (choose_finds_first last))
          · rcases nextKind?_of_primitiveForm typeForm (z ++ ⟨.punct .semicolon, semicolon⟩ :: w)
              with start | start <;> simp [start]
          · rw [ahead, List.length_cons, lookahead]
            omega
          · simp [paren]
          · simp [paren]
          · have := (length_of_primitiveForm typeForm).2
            rw [ahead, List.length_cons, List.length_append, lookahead]
            omega
  | @struct s u semicolon structForm =>
      rw [List.append_assoc] at ahead
      have last : Finds (do return Declaration.struct (← ended structDecl)) c
          (·.withoutComments? = some (.struct s)) w := by
        refine (ended_finds (structDecl_finds structForm ahead)).bind
          fun s' c₁ same ahead₁ => .pure ?_ ahead₁
        rw [Declaration.withoutComments?, same]
      cases structForm with
      | intro typedef struct left right name fieldsForm =>
          simp only [List.cons_append] at ahead
          have near (z : List Terminal) (x : Terminal) :
              (x :: z).length ≤ z.length + lookahead := by
            rw [List.length_cons, lookahead]
            omega
          have earlier := typeDecl_fails ahead (by simp) (by simp)
          refine choose_finds_later ((enumDecl_fails ahead (by simp)).bind _) ?_
            (choose_finds_later (earlier.1.bind _) ?_
              (choose_finds_later (earlier.2.bind _) ?_ (choose_finds_first last)))
          all_goals rw [ahead]; exact near _ _

/-- Looking for a comment either takes one token that is no terminal or does nothing. -/
theorem comment_cases (c : Cursor) :
    (∃ text c', comment c = .ok (some text) c' ∧ c'.terminals = c.terminals ∧
      c'.ahead.length < c.ahead.length) ∨ comment c = .ok none c := by
  cases left : c.ahead with
  | nil =>
      apply Or.inr
      simp [comment, Cursor.takeComment?, left]
  | cons t rest =>
      by_cases isComment : t.isComment = true
      · refine Or.inl ⟨t.lexeme, { c with ahead := rest }, ?_, ?_, ?_⟩
        · simp [comment, Cursor.takeComment?, left, isComment]
        · rw [Cursor.terminals, Cursor.terminals, left, terminals_cons_comment isComment]
        · exact Nat.lt_succ_self _
      · apply Or.inr
        simp [comment, Cursor.takeComment?, left, isComment]

theorem orComment_finds {r : Reader α} {c : Cursor} {post : α → Prop} {w : List Terminal}
    (finds : Finds r c post w) (start : Position) : Finds (orComment start r) c post w := by
  obtain ⟨a, c', ran, found⟩ := finds
  refine ⟨a, c', ?_, found⟩
  unfold orComment
  rw [ran]

/-- Where nothing is left to be read no declaration is left. -/
theorem sequenceForm_cases {ds : List Declaration} {u : List Terminal}
    (formed : SequenceForm DeclarationForm ds u) :
    (ds = [] ∧ u = []) ∨
      ∃ d ds' v w, ds = d :: ds' ∧ u = v ++ w ∧ v ≠ [] ∧ DeclarationForm d v ∧
        SequenceForm DeclarationForm ds' w := by
  cases formed with
  | nil => exact Or.inl ⟨rfl, rfl⟩
  | cons declForm restForm =>
      exact Or.inr ⟨_, _, _, _, rfl, rfl, ne_nil_of_declarationForm declForm, declForm, restForm⟩

theorem declarations_finds (n : Nat) {c : Cursor} (fits : c.ahead.length ≤ n)
    {ds : List Declaration} (formed : SequenceForm DeclarationForm ds c.terminals) :
    ∃ ds' c', declarations n c = .ok ds' c' ∧
      ds'.filterMap Declaration.withoutComments? = ds := by
  induction n generalizing c ds with
  | zero =>
      have := c.length_terminals_le
      rcases sequenceForm_cases formed with ⟨rfl, -⟩ | ⟨d, ds', v, w, rfl, cut, nonempty, -, -⟩
      · exact ⟨[], c, rfl, rfl⟩
      · rw [cut, List.length_append] at this
        exact absurd (List.length_eq_zero_iff.mp (by omega)) nonempty
  | succ n ih =>
      rcases comment_cases c with ⟨text, c₁, commentRan, unchanged, shorter⟩ | commentRan
      · rw [← unchanged] at formed
        obtain ⟨ds', c', restRan, same⟩ := ih (by omega) formed
        refine ⟨.comment text :: ds', c', ?_, same⟩
        rw [declarations, bind_apply, commentRan]
        simp only [bind_apply, restRan]
        rfl
      · have looked : (get : Reader Cursor) c = .ok c c := rfl
        rw [declarations, bind_apply, commentRan]
        simp only [bind_apply, looked]
        cases upcoming : c.next? with
        | none =>
            rw [terminals_eq_nil_of_next? upcoming] at formed
            rcases sequenceForm_cases formed with ⟨rfl, -⟩ | ⟨d, ds', v, w, -, cut, nonempty, -, -⟩
            · exact ⟨[], c, rfl, rfl⟩
            · exact absurd (List.append_eq_nil_iff.mp cut.symm).1 nonempty
        | some next =>
            rcases sequenceForm_cases formed with
              ⟨-, cut⟩ | ⟨d, ds', v, w, rfl, cut, nonempty, declForm, restForm⟩
            · have kind := c.next?_kind
              rw [upcoming, cut] at kind
              cases kind
            · obtain ⟨d', c₁, declRan, same, stops, -⟩ :=
                orComment_finds (declaration_finds declForm cut) next.position
              obtain ⟨p, passes, -⟩ := (orComment_reads declaration_reads next.position).ok declRan
              have shorter : c₁.ahead.length ≤ n := by
                have passed : p ≠ [] := by
                  rintro rfl
                  have unchanged' := passes.terminals
                  rw [cut, stops, terminals_nil, List.nil_append] at unchanged'
                  exact nonempty (List.append_left_eq_self.mp unchanged')
                have := List.length_pos_iff.mpr passed
                have lengths := congrArg List.length passes.ahead
                rw [List.length_append] at lengths
                omega
              rw [← stops] at restForm
              obtain ⟨rest, c', restRan, sameRest⟩ := ih shorter restForm
              refine ⟨d' :: rest, c', ?_, ?_⟩
              · simp only [bind_apply, declRan, restRan]
                rfl
              · simp only [List.filterMap_cons, same, sameRest]

theorem header_finds {h : Header} {c : Cursor} (formed : HeaderForm h c.terminals) :
    ∃ h' c', header c = .ok h' c' ∧ h'.withoutComments = h := by
  obtain ⟨ds', c', declarationsRan, same⟩ :=
    declarations_finds c.ahead.length (Nat.le_refl _) formed
  have looked : (get : Reader Cursor) c = .ok c c := rfl
  refine ⟨⟨ds'⟩, c', ?_, ?_⟩
  · rw [header, bind_apply, looked]
    simp only [bind_apply, declarationsRan]
    rfl
  · rw [Header.withoutComments, same]

end InterfaceHeader.Reader
