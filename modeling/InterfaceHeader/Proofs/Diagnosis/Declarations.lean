import InterfaceHeader.Proofs.Diagnosis.Types
import InterfaceHeader.Proofs.Reading.Declarations
import InterfaceHeader.Proofs.Source.Concatenation
import InterfaceHeader.Proofs.Source.ErrorPlaces

/-!
# Errors in declarations

Every reader of declarations fails with truthful errors only, wherever what it reads may stand. So
the error that a text is refused with, as a header or as a type, tells the truth about the grammar:
it is about a token of the text or its end, and each of its expectations continues what stands in
front of that to the beginning of a sentence.
-/

namespace InterfaceHeader

namespace Reader

variable {α : Type}

/-! ## Enumerations -/

theorem initializer_faithful : Faithful initializer InitializerForm := by
  intro L begins
  have integerBegins (lexeme : String) (spelt : (Decimal.readWord? lexeme.toList).isSome) :
      Begins L [⟨.integer, lexeme⟩] := by
    obtain ⟨value, valueSpelt⟩ := Option.isSome_iff_exists.mp spelt
    exact begins _ _ (.int lexeme valueSpelt)
  refine (isAt_truthful _).bind (isAt_reads _) fun isInt p unmoved => ?_
  subst unmoved
  cases isInt with
  | true => exact .map (integer_truthful integerBegins) _
  | false =>
      refine (isAt_truthful _).bind (isAt_reads _) fun isName q unmoved => ?_
      subst unmoved
      cases isName with
      | true => exact .map (identifier_truthful fun name => begins _ _ (.reference name)) _
      | false =>
          refine fail_truthful (List.cons_ne_nil _ _) (by decide) fun x mem => ?_
          simp only [List.mem_cons, List.not_mem_nil, or_false] at mem
          rcases mem with rfl | rfl
          · exact .token fun lexeme spelt => integerBegins lexeme (spelt rfl)
          · exact .token fun name _ => begins _ _ (.reference name)

theorem enumValue_faithful : Faithful enumValue EnumValueForm := by
  intro L begins
  refine (identifier_truthful fun name => begins _ _ (.plain name)).bind identifier_reads
    fun name p nameRead => ?_
  refine (accept_truthful _).bind (accept_reads _) fun equals? q equalsRead => ?_
  cases equals? with
  | none => exact .pure _
  | some t =>
      have equalsTerminals : terminals q = [⟨.punct .equals, t.lexeme⟩] := equalsRead.terminals_eq
      refine .map (initializer_faithful fun init u initForm => ?_) _
      rw [begins_behind, begins_behind, nameRead, equalsTerminals]
      exact begins _ _ (.initialized name t.lexeme initForm)

theorem orTrailing_truthful {L : List Terminal → Prop} (comment? : Option String) :
    Truthful (orTrailing comment?) L := by
  unfold orTrailing
  split
  · exact .pure _
  · exact trailingComment_truthful

theorem orTrailing_reads (comment? : Option String) :
    Reads (orTrailing comment?) fun _ p => terminals p = [] := by
  unfold orTrailing
  split
  · exact .pure rfl
  · exact trailingComment_reads.mono fun _ _ maybe => terminals_of_maybeComment maybe

theorem enumValues_faithful (n : Nat) : Faithful (enumValues n) EnumBodyForm := by
  induction n with
  | zero => exact fun _ _ => .pure _
  | succ n ih =>
      intro L begins
      refine (isAt_truthful _).bind (isAt_reads _) fun close p unmoved => ?_
      subst unmoved
      cases close with
      | true => exact .pure _
      | false =>
          refine (enumValue_faithful ?_).bind enumValue_reads fun v q valueForm => ?_
          · intro v u valueForm
            rw [← List.append_nil u]
            exact begins _ _ (.values (.one valueForm) .absent)
          refine trailingComment_truthful.bind trailingComment_reads fun direct r directRead => ?_
          refine (accept_truthful _).bind (accept_reads _) fun comma? s commaRead => ?_
          cases comma? with
          | none => exact .pure _
          | some t =>
              have commaTerminals : terminals s = [⟨.punct .comma, t.lexeme⟩] :=
                commaRead.terminals_eq
              dsimp only
              rw [← orTrailing_bind]
              refine (orTrailing_truthful _).bind (orTrailing_reads _) fun comment w silent => ?_
              refine .map (ih fun vs u bodyForm => ?_) _
              simp only [begins_behind, terminals_of_maybeComment directRead, commaTerminals,
                silent]
              exact begins _ _ (EnumBodyForm.cons t.lexeme valueForm bodyForm)

/-- The start that enumerations and structures share, up to the brace. -/
theorem opening_truthful {word : Keyword} {rest : Reader α} {L : List Terminal → Prop}
    (opening : ∀ typedef name left, Begins L [⟨.keyword .typedef, typedef⟩,
      ⟨.keyword word, name⟩, ⟨.punct .leftBrace, left⟩])
    (restTruthful : ∀ typedef name left, Truthful rest (Behind L [⟨.keyword .typedef, typedef⟩,
      ⟨.keyword word, name⟩, ⟨.punct .leftBrace, left⟩])) :
    Truthful (do keyword .typedef; keyword word; punct .leftBrace; rest) L := by
  refine (keyword_truthful ?_).bind (keyword_reads _) fun _ p typedefRead => ?_
  · intro typedef
    exact (opening typedef "" "").of_isPrefix (by simp)
  obtain ⟨typedef, typedefRead⟩ := typedefRead
  refine (keyword_truthful ?_).bind (keyword_reads _) fun _ q wordRead => ?_
  · intro name
    rw [begins_behind, typedefRead]
    exact (opening typedef name "").of_isPrefix (by simp)
  obtain ⟨name, wordRead⟩ := wordRead
  refine (punct_truthful ?_).bind (punct_reads _) fun _ r leftRead => ?_
  · intro left
    rw [begins_behind, begins_behind, typedefRead, wordRead]
    exact opening typedef name left
  obtain ⟨left, leftRead⟩ := leftRead
  rw [behind_behind, behind_behind, typedefRead, wordRead, leftRead]
  exact restTruthful typedef name left

theorem enumDecl_faithful : Faithful enumDecl EnumForm := by
  intro L begins
  refine opening_truthful ?_ fun typedef enum left => ?_
  · intro typedef enum left
    exact (begins _ _ (.intro typedef enum left "" .empty .absent)).of_isPrefix (by simp)
  refine get_truthful.bind get_reads fun c s unmoved => ?_
  subst unmoved
  refine (enumValues_faithful _ ?_).bind (enumValues_reads _) fun vs body bodyForm => ?_
  · intro vs u bodyForm
    simp only [begins_behind, terminals_nil, List.nil_append]
    exact (begins _ _ (.intro typedef enum left "" bodyForm .absent)).of_isPrefix (by simp)
  refine (punct_truthful ?_).bind (punct_reads _) fun _ t rightRead => (accept_truthful _).map _
  intro right
  simp only [begins_behind, terminals_nil, List.nil_append]
  exact begins _ _ (.intro typedef enum left right bodyForm.1 .absent)

/-! ## Aliases and function pointers -/

theorem aliasDecl_faithful : Faithful aliasDecl AliasForm := by
  intro L begins
  have bare : PrimitiveForm ⟨false, "", false⟩ [⟨.identifier, ""⟩] := .intro "" .absent .absent
  refine (keyword_truthful ?_).bind (keyword_reads _) fun _ p typedefRead => ?_
  · intro typedef
    exact (begins _ _ (.intro typedef "" bare)).of_isPrefix (by simp)
  obtain ⟨typedef, typedefRead⟩ := typedefRead
  refine (primitive_faithful ?_).bind primitive_reads fun type q typeForm => ?_
  · intro type u typeForm
    simp only [begins_behind, typedefRead]
    exact (begins _ _ (.intro typedef "" typeForm)).of_isPrefix (by simp)
  refine (identifier_truthful ?_).map _
  intro name
  simp only [begins_behind, typedefRead]
  exact begins _ _ (.intro typedef name typeForm)

theorem functionDecl_faithful : Faithful functionDecl FunctionDeclForm := by
  intro L begins
  have bare : FunctionForm ⟨⟨false, "", false⟩, "", []⟩ _ :=
    .intro "" "" (.intro "" .absent .absent) (.intro "" "" "" "") .empty
  refine (keyword_truthful ?_).bind (keyword_reads _) fun _ p typedefRead => ?_
  · intro typedef
    exact (begins _ _ (.intro typedef bare)).of_isPrefix (by simp)
  obtain ⟨typedef, typedefRead⟩ := typedefRead
  refine functionType_faithful fun f u functionForm => ?_
  simp only [begins_behind, typedefRead]
  exact begins _ _ (.intro typedef functionForm)

/-! ## Structures -/

theorem variableField_faithful :
    Faithful variableField fun v u =>
      ∃ w, PrimitiveForm v.type w ∧ u = w ++ [⟨.identifier, v.name⟩] := by
  intro L begins
  refine (primitive_faithful ?_).bind primitive_reads fun type p typeForm =>
    .map (identifier_truthful ?_) _
  · intro type u typeForm
    exact (begins ⟨type, ""⟩ _ ⟨u, typeForm, rfl⟩).of_append
  · intro name
    rw [begins_behind]
    exact begins ⟨type, name⟩ _ ⟨_, typeForm, rfl⟩

theorem methodField_faithful : Faithful methodField fun m u => MethodForm m.function u := by
  intro L begins
  have bare : ArgumentForm ⟨.primitive ⟨false, "", false⟩, none⟩ _ :=
    .intro (.primitive (.intro "" .absent .absent)) .absent
  refine (signature_faithful (argumentList_reads argument_reads)
    (argumentList_faithful argument_reads argument_faithful) ⟨_, _, .one bare⟩ ?_).bind
      (signature_reads (argumentList_reads argument_reads)) fun f p _ => comment_truthful.map _
  intro f u methodForm
  exact begins ⟨f, none⟩ u methodForm

theorem completed_truthful {L : List Terminal → Prop} (field : StructField) :
    Truthful (completed field) L := by
  cases field with
  | data v => exact .pure _
  | method m => exact (orTrailing_truthful _).map _

theorem structField_faithful : Faithful structField StructFieldForm := by
  intro L begins
  rw [structField_eq]
  refine Truthful.bind (choose_truthful fun r among => ?_) member_reads fun field p memberForm => ?_
  · simp only [List.mem_cons, List.not_mem_nil, or_false] at among
    rcases among with rfl | rfl
    · refine .map (variableField_faithful fun v u formed => ?_) _
      obtain ⟨w, typeForm, rfl⟩ := formed
      exact (begins _ _ (.data v.name "" typeForm)).of_isPrefix (by simp)
    · refine .map (methodField_faithful fun m u methodForm => ?_) _
      exact (begins _ _ (.method "" methodForm)).of_append
  · refine (punct_truthful ?_).bind (punct_reads _) fun _ _ _ => completed_truthful field
    intro semicolon
    rw [begins_behind]
    cases field with
    | data v =>
        obtain ⟨u, typeForm, shown⟩ := memberForm
        rw [shown, List.append_assoc]
        exact begins _ _ (.data v.name semicolon typeForm)
    | method m => exact begins _ _ (.method semicolon memberForm.1)

theorem structFields_faithful (n : Nat) :
    Faithful (structFields n) (SequenceForm StructFieldForm) := by
  induction n with
  | zero => exact fun _ _ => .pure _
  | succ n ih =>
      intro L begins
      refine get_truthful.bind get_reads fun c p unmoved => ?_
      refine (isAt_truthful _).bind (isAt_reads _) fun close q unmoved' => ?_
      subst unmoved unmoved'
      split
      · exact .pure _
      · refine (structField_faithful ?_).bind structField_reads fun field r fieldForm =>
          .map (ih ?_) _
        · intro field u fieldForm
          rw [← List.append_nil u]
          exact begins _ _ (.cons fieldForm .nil)
        · intro fields u fieldsForm
          simp only [begins_behind, terminals_nil, List.nil_append]
          exact begins _ _ (.cons fieldForm.1 fieldsForm)

theorem structDecl_faithful : Faithful structDecl StructForm := by
  intro L begins
  refine opening_truthful ?_ fun typedef struct left => ?_
  · intro typedef struct left
    exact (begins _ _ (.intro typedef struct left "" "" .nil)).of_isPrefix (by simp)
  refine get_truthful.bind get_reads fun c s unmoved => ?_
  subst unmoved
  refine (structFields_faithful _ ?_).bind (structFields_reads _) fun fields body bodyForm => ?_
  · intro fields u fieldsForm
    simp only [begins_behind, terminals_nil, List.nil_append]
    exact (begins _ _ (.intro typedef struct left "" "" fieldsForm)).of_isPrefix (by simp)
  refine (punct_truthful ?_).bind (punct_reads _) fun _ t rightRead =>
    .map (identifier_truthful ?_) _
  · intro right
    simp only [begins_behind, terminals_nil, List.nil_append]
    exact (begins _ _ (.intro typedef struct left right "" bodyForm.1)).of_isPrefix (by simp)
  · obtain ⟨right, rightRead⟩ := rightRead
    intro name
    simp only [begins_behind, rightRead, terminals_nil, List.nil_append]
    exact begins _ _ (.intro typedef struct left right name bodyForm.1)

/-! ## Headers -/

/-- What is found has the form that is viable, perhaps but for its comments. -/
theorem ended_faithful {decl : Reader α} {form : α → List Terminal → Prop}
    {spelt : α → List Token → Prop} (faithful : Faithful decl form) (reads : Reads decl spelt)
    (formed : ∀ a p, spelt a p → ∃ b, form b (terminals p)) :
    Faithful (ended decl) fun b v =>
      ∃ u semicolon, form b u ∧ v = u ++ [⟨.punct .semicolon, semicolon⟩] := by
  intro L begins
  refine (faithful ?_).bind reads fun a p declSpelt => .map (punct_truthful ?_) _
  · intro b u declForm
    exact (begins b _ ⟨u, "", declForm, rfl⟩).of_append
  · intro semicolon
    obtain ⟨b, declForm⟩ := formed a p declSpelt
    rw [begins_behind]
    exact begins b _ ⟨_, semicolon, declForm, rfl⟩

theorem declaration_faithful : Faithful declaration DeclarationForm := by
  intro L begins
  refine choose_truthful fun r among => ?_
  simp only [List.mem_cons, List.not_mem_nil, or_false] at among
  rcases among with rfl | rfl | rfl | rfl
  · refine .map (ended_faithful enumDecl_faithful enumDecl_reads (fun _ _ form => ⟨_, form.1⟩) ?_) _
    rintro d v ⟨u, semicolon, declForm, rfl⟩
    exact begins _ _ (.enum semicolon declForm)
  · refine .map (ended_faithful aliasDecl_faithful aliasDecl_reads (fun _ _ form => ⟨_, form⟩) ?_) _
    rintro d v ⟨u, semicolon, declForm, rfl⟩
    exact begins _ _ (.typeAlias semicolon declForm)
  · refine .map
      (ended_faithful functionDecl_faithful functionDecl_reads (fun _ _ form => ⟨_, form⟩) ?_) _
    rintro d v ⟨u, semicolon, declForm, rfl⟩
    exact begins _ _ (.function semicolon declForm)
  · refine .map
      (ended_faithful structDecl_faithful structDecl_reads (fun _ _ form => ⟨_, form.1⟩) ?_) _
    rintro d v ⟨u, semicolon, declForm, rfl⟩
    exact begins _ _ (.struct semicolon declForm)

theorem declarations_faithful (n : Nat) :
    Faithful (declarations n) (SequenceForm DeclarationForm) := by
  induction n with
  | zero => exact fun _ _ => .pure _
  | succ n ih =>
      intro L begins
      refine comment_truthful.bind comment_reads fun text? p commentRead => ?_
      have silent := terminals_of_maybeComment commentRead
      cases text? with
      | some text =>
          refine .map (ih fun ds u restForm => ?_) _
          rw [begins_behind, silent]
          exact begins ds u restForm
      | none =>
          refine get_truthful.bind get_reads fun c q unmoved => ?_
          subst unmoved
          split
          · exact .pure _
          · refine (orComment_truthful (declaration_faithful ?_) _).bind
              (orComment_reads declaration_reads _) fun d r declForm => .map (ih ?_) _
            · intro d u declForm
              simp only [begins_behind, silent, terminals_nil, List.nil_append]
              rw [← List.append_nil u]
              exact begins _ _ (.cons declForm .nil)
            · intro ds u restForm
              obtain ⟨d', -, declForm, -⟩ := declForm
              simp only [begins_behind, silent, terminals_nil, List.nil_append]
              exact begins _ _ (.cons declForm restForm)

theorem header_truthful : Truthful header fun u => ∃ h, HeaderForm h u := by
  refine get_truthful.bind get_reads fun c p unmoved => .map (declarations_faithful _ ?_) _
  subst unmoved
  intro ds u declarationsForm
  exact .of_sentence ⟨⟨ds⟩, declarationsForm⟩

end Reader

/-! ## Texts -/

/-- The tokens of a text that a 64-bit memory holds. -/
theorem spaced_of_tokenize {text : String} {tokens : List Token} (held : Text.Held text)
    (scanned : tokenize text.toList = .ok tokens) : Spaced tokens := by
  refine ⟨?_, fun t mem => Nat.lt_trans (offset_lt_of_tokenize scanned mem) held⟩
  rw [tokenize_eq_tokensFrom] at scanned
  exact increasing_of_tokensFrom scanned

theorem tokens_of_type_error {text : String} {e : SyntaxError}
    (failed : CType.ofText? text = .error (.grammatical e)) :
    ∃ tokens, tokenize text.toList = .ok tokens ∧ CType.ofTokens? tokens = .error e := by
  rw [CType.ofText?_eq] at failed
  split at failed
  · cases failed
  · rename_i tokens scanned
    refine ⟨tokens, scanned, ?_⟩
    split at failed
    · rename_i error read
      cases failed
      exact read
    · cases failed

/-- The outcome of a truthful reader in front of all tokens of a text. -/
theorem Reader.Truthful.outcome {α : Type} {r : Reader α} {L : List Terminal → Prop}
    (truthful : Truthful r L) {text : String} {tokens : List Token} (held : Text.Held text)
    (scanned : tokenize text.toList = .ok tokens) {e : SyntaxError}
    (failed : Reader.outcome (r (Cursor.ofTokens tokens)) = .error e) :
    ∃ before, e.Truthful L tokens before := by
  have ahead := Cursor.ofTokens_ahead scanned
  unfold Reader.outcome at failed
  split at failed
  · cases failed
  · rename_i ran
    cases failed
    have spaced : Spaced (Cursor.ofTokens tokens).ahead := by
      rw [ahead]
      exact spaced_of_tokenize held scanned
    have told := truthful spaced ran
    rwa [ahead] at told

/-- Syntax errors tell the truth. The error that a text is refused with stands at a significant
    token of it and describes that, or at the end. What stands in front begins a header, or a type
    if the text is read as one. It still does with any terminal behind it that the error expects.
    There is at least one such, and none is named twice. -/
theorem ofText?_error_truthful {text : String} (held : Text.Held text) (e : SyntaxError) :
    (Header.ofText? text = .error (.grammatical e) →
      ∃ tokens before, tokenize text.toList = .ok tokens ∧
        e.Truthful (fun u => ∃ h, HeaderForm h u) tokens before) ∧
    (CType.ofText? text = .error (.grammatical e) →
      ∃ tokens before, tokenize text.toList = .ok tokens ∧
        e.Truthful (fun u => ∃ t, TypeForm t u) tokens before) := by
  constructor
  · intro failed
    rcases tokens_of_ofText?_error failed with ⟨_, _, same⟩ | ⟨tokens, _, scanned, read, same⟩
    · cases same
    · cases same
      obtain ⟨before, told⟩ := Reader.header_truthful.outcome held scanned read
      exact ⟨tokens, before, scanned, told⟩
  · intro failed
    obtain ⟨tokens, scanned, read⟩ := tokens_of_type_error failed
    obtain ⟨before, told⟩ := Reader.wholeType_truthful.outcome held scanned read
    exact ⟨tokens, before, scanned, told⟩

/-- A definition of nothing, with a comment in it. -/
def emptyDefinitionText : String :=
  "typedef /* of */ ;"

/-- A type with a name behind it. -/
def namedTypeText : String :=
  "int* f"

/-- Four alternatives say what may follow the reserved word, and nothing may follow the type. -/
theorem emptyDefinitionText_truthful :
    (∃ tokens before, tokenize emptyDefinitionText.toList = .ok tokens ∧
      SyntaxError.Truthful
        ⟨some ⟨17, 1, 18⟩, "';'", ["'enum'", "'const'", "identifier", "'struct'"]⟩
        (fun u => ∃ h, HeaderForm h u) tokens before) ∧
    ∃ tokens before, tokenize namedTypeText.toList = .ok tokens ∧
      SyntaxError.Truthful ⟨some ⟨5, 1, 6⟩, "identifier 'f'", ["end of input"]⟩
        (fun u => ∃ t, TypeForm t u) tokens before := by
  have held : Text.Held emptyDefinitionText := by decide +kernel
  have held' : Text.Held namedTypeText := by decide +kernel
  have scanned : tokenize emptyDefinitionText.toList = .ok
      [⟨.keyword .typedef, "typedef", ⟨0, 1, 1⟩⟩, ⟨.comment, "/* of */", ⟨8, 1, 9⟩⟩,
        ⟨.punct .semicolon, ";", ⟨17, 1, 18⟩⟩] := by decide +kernel
  have scanned' : tokenize namedTypeText.toList = .ok
      [⟨.identifier, "int", ⟨0, 1, 1⟩⟩, ⟨.punct .star, "*", ⟨3, 1, 4⟩⟩,
        ⟨.identifier, "f", ⟨5, 1, 6⟩⟩] := by decide +kernel
  refine ⟨(ofText?_error_truthful held _).1 ?_, (ofText?_error_truthful held' _).2 ?_⟩
  · rw [Header.ofText?_eq, scanned]
    rfl
  · rw [CType.ofText?_eq, scanned']
    rfl

end InterfaceHeader
