import InterfaceHeader.Declaration.Reader
import InterfaceHeader.Proofs.Grammar.TypeSoundness

/-!
# Declarations that are found are in the grammar

Every reader of declarations finds only what the grammar derives from the terminals it has passed
over. Trees with comments are compared without them; where no token passed was a comment, there is
none in the tree either. The tokens ahead bound the loops, so a header is never cut short
(`header_reads_all`).
-/

namespace InterfaceHeader

/-- Without its comments the tree has a form over the terminals; and there are none in the tree
    unless there are some among the tokens. -/
def Uncommented {α : Type} (erase : α → α) (form : α → List Terminal → Prop) (a : α)
    (p : List Token) : Prop :=
  form (erase a) (terminals p) ∧ (p.all Token.isSignificant = true → erase a = a)

theorem EnumBodyForm.cons {v : EnumValue} {vs : List EnumValue} {u w : List Terminal}
    (comma : String) (valueForm : EnumValueForm v u) (bodyForm : EnumBodyForm vs w) :
    EnumBodyForm (v :: vs) (u ++ ⟨.punct .comma, comma⟩ :: w) := by
  cases bodyForm with
  | empty => exact .values (.one valueForm) (.present comma)
  | values listForm trailing =>
      rw [← List.cons_append, ← List.append_assoc]
      exact .values (.cons comma valueForm listForm) trailing

namespace Reader

theorem initializer_reads : Reads initializer fun i p => InitializerForm i (terminals p) := by
  refine (isAt_reads _).bind fun isInt p unmoved => ?_
  subst unmoved
  cases isInt with
  | true =>
      refine integer_reads.bind fun value q shown => .pure ?_
      obtain ⟨text, spelt, shown⟩ := shown
      rw [List.append_nil, List.nil_append, shown]
      exact .int text spelt
  | false =>
      refine (isAt_reads _).bind fun isName q unmoved => ?_
      subst unmoved
      cases isName with
      | true =>
          refine identifier_reads.bind fun name r shown => .pure ?_
          rw [List.append_nil, List.nil_append, List.nil_append, shown]
          exact .reference name
      | false => exact fail_reads _

theorem enumValue_reads : Reads enumValue fun v p => EnumValueForm v (terminals p) := by
  refine identifier_reads.bind fun name p nameRead => ?_
  refine (accept_reads _).bind fun equals? q equalsRead => ?_
  cases equals? with
  | none =>
      refine .pure ?_
      cases equalsRead
      rw [List.append_nil, List.append_nil, nameRead]
      exact .plain name
  | some t =>
      refine initializer_reads.bind fun init r initForm => .pure ?_
      have equalsTerminals : terminals q = [⟨.punct .equals, t.lexeme⟩] := equalsRead.terminals_eq
      rw [List.append_nil, terminals_append, terminals_append, nameRead, equalsTerminals]
      exact .initialized name t.lexeme initForm

theorem withoutComment_of_enumValueForm {v : EnumValue} {u : List Terminal}
    (valueForm : EnumValueForm v u) (comment : Option String) :
    EnumValue.withoutComment { v with comment := comment } = v := by
  cases valueForm <;> rfl

theorem enumValues_reads (n : Nat) :
    Reads (enumValues n) (Uncommented (List.map EnumValue.withoutComment) EnumBodyForm) := by
  induction n with
  | zero => exact .pure ⟨.empty, fun _ => rfl⟩
  | succ n ih =>
      refine (isAt_reads _).bind fun close p unmoved => ?_
      subst unmoved
      cases close with
      | true => exact .pure ⟨.empty, fun _ => rfl⟩
      | false =>
          refine enumValue_reads.bind fun v q valueForm => ?_
          refine trailingComment_reads.bind fun direct r directRead => ?_
          refine (accept_reads _).bind fun comma? s commaRead => ?_
          have silent := terminals_of_maybeComment directRead
          cases comma? with
          | none =>
              cases commaRead
              refine .pure ⟨?_, fun plain => ?_⟩
              · simp only [List.nil_append, List.append_nil, terminals_append, silent,
                  List.map_cons, List.map_nil, withoutComment_of_enumValueForm valueForm]
                rw [← List.append_nil (terminals q)]
                exact .values (.one valueForm) .absent
              · simp only [List.nil_append, List.append_nil, List.all_append,
                  Bool.and_eq_true] at plain
                rw [eq_none_of_maybeComment directRead plain.2]
                rfl
          | some t =>
              have commaTerminals : terminals s = [⟨.punct .comma, t.lexeme⟩] :=
                commaRead.terminals_eq
              have rest (comment : Option String) (w : List Token) (silent' : terminals w = [])
                  (noComment : (r ++ w).all Token.isSignificant = true → comment = none) :
                  Reads (do return { v with comment := comment } :: (← enumValues n))
                    fun vs z => Uncommented (List.map EnumValue.withoutComment) EnumBodyForm vs
                      ([] ++ (q ++ (r ++ (s ++ (w ++ z))))) := by
                refine ih.bind fun vs z valuesForm => .pure ⟨?_, fun plain => ?_⟩
                · simp only [List.nil_append, List.append_nil, terminals_append, silent, silent',
                    commaTerminals, List.map_cons, withoutComment_of_enumValueForm valueForm]
                  exact .cons t.lexeme valueForm valuesForm.1
                · simp only [List.nil_append, List.append_nil, List.all_append,
                    Bool.and_eq_true] at plain noComment
                  obtain ⟨-, direct', -, later, more⟩ := plain
                  rw [List.map_cons, valuesForm.2 more, noComment ⟨direct', later⟩]
                  rfl
              cases direct with
              | some text =>
                  have pureReads : Reads (Pure.pure (some text))
                      fun a w => a = some text ∧ w = [] := .pure ⟨rfl, rfl⟩
                  refine pureReads.bind fun comment w found => ?_
                  obtain ⟨rfl, rfl⟩ := found
                  refine rest (some text) [] rfl fun plain => ?_
                  rw [List.append_nil] at plain
                  exact eq_none_of_maybeComment directRead plain
              | none =>
                  refine trailingComment_reads.bind fun comment w commentRead => ?_
                  refine rest comment w (terminals_of_maybeComment commentRead) fun plain => ?_
                  rw [List.all_append, Bool.and_eq_true] at plain
                  exact eq_none_of_maybeComment commentRead plain.2

theorem enumDecl_reads : Reads enumDecl (Uncommented EnumDecl.withoutComments EnumForm) := by
  refine (keyword_reads _).bind fun _ p typedefRead => ?_
  refine (keyword_reads _).bind fun _ q enumRead => ?_
  refine (punct_reads _).bind fun _ r leftRead => ?_
  refine get_reads.bind fun c s unmoved => ?_
  refine (enumValues_reads _).bind fun vs body bodyForm => ?_
  refine (punct_reads _).bind fun _ t rightRead => ?_
  refine (accept_reads _).bind fun name? w nameRead => .pure ⟨?_, fun plain => ?_⟩
  · obtain ⟨typedef, typedefRead⟩ := typedefRead
    obtain ⟨enum, enumRead⟩ := enumRead
    obtain ⟨left, leftRead⟩ := leftRead
    obtain ⟨right, rightRead⟩ := rightRead
    subst unmoved
    simp only [List.nil_append, List.append_nil, terminals_append, typedefRead, enumRead, leftRead,
      rightRead]
    exact .intro typedef enum left right bodyForm.1 (.of_maybeToken nameRead)
  · simp only [List.all_append, Bool.and_eq_true] at plain
    obtain ⟨-, -, -, -, bodyPlain, -⟩ := plain
    rw [EnumDecl.withoutComments, bodyForm.2 bodyPlain]

theorem aliasDecl_reads : Reads aliasDecl fun a p => AliasForm a (terminals p) := by
  refine (keyword_reads _).bind fun _ p typedefRead => ?_
  refine primitive_reads.bind fun type q typeForm => ?_
  refine identifier_reads.bind fun name r nameRead => .pure ?_
  obtain ⟨typedef, typedefRead⟩ := typedefRead
  rw [List.append_nil, terminals_append, terminals_append, typedefRead, nameRead]
  exact .intro typedef name typeForm

theorem functionDecl_reads : Reads functionDecl fun f p => FunctionDeclForm f (terminals p) := by
  refine (keyword_reads _).bind fun _ p typedefRead => ?_
  refine functionType_reads.mono fun f q functionForm => ?_
  obtain ⟨typedef, typedefRead⟩ := typedefRead
  rw [terminals_append, typedefRead]
  exact .intro typedef functionForm

theorem variableField_reads :
    Reads variableField fun v p => ∃ u, PrimitiveForm v.type u ∧
      terminals p = u ++ [⟨.identifier, v.name⟩] := by
  refine primitive_reads.bind fun type p typeForm => ?_
  refine identifier_reads.bind fun name q nameRead => .pure ⟨terminals p, typeForm, ?_⟩
  rw [List.append_nil, terminals_append, nameRead]

theorem methodField_reads :
    Reads methodField fun m p => MethodForm m.function (terminals p) ∧
      (p.all Token.isSignificant = true → m.comment = none) := by
  refine (signature_reads (argumentList_reads argument_reads)).bind fun f p methodForm => ?_
  refine comment_reads.bind fun comment q commentRead => .pure ⟨?_, fun plain => ?_⟩
  · rw [List.append_nil, terminals_append, terminals_of_maybeComment commentRead, List.append_nil]
    exact methodForm
  · rw [List.append_nil, List.all_append, Bool.and_eq_true] at plain
    exact eq_none_of_maybeComment commentRead plain.2

/-- A member without its semicolon, as the choice between members finds it. -/
def MemberForm : StructField → List Token → Prop
  | .data v, p => ∃ u, PrimitiveForm v.type u ∧ terminals p = u ++ [⟨.identifier, v.name⟩]
  | .method m, p => MethodForm m.function (terminals p) ∧
      (p.all Token.isSignificant = true → m.comment = none)

theorem member_reads :
    Reads (choose [do return StructField.data (← variableField),
      do return StructField.method (← methodField)]) MemberForm := by
  refine choose_reads fun r among => ?_
  simp only [List.mem_cons, List.not_mem_nil, or_false] at among
  rcases among with rfl | rfl
  · refine variableField_reads.bind fun v p memberForm => .pure ?_
    rw [List.append_nil]
    exact memberForm
  · refine methodField_reads.bind fun m p memberForm => .pure ?_
    rw [List.append_nil]
    exact memberForm

theorem structField_reads :
    Reads structField (Uncommented StructField.withoutComment StructFieldForm) := by
  refine member_reads.bind fun field p memberForm => ?_
  refine (punct_reads _).bind fun _ q semicolonRead => ?_
  obtain ⟨semicolon, semicolonRead⟩ := semicolonRead
  match field, memberForm with
  | .data v, ⟨u, typeForm, shown⟩ =>
      refine .pure ⟨?_, fun _ => rfl⟩
      rw [List.append_nil, terminals_append, shown, semicolonRead, List.append_assoc]
      exact .data v.name semicolon typeForm
  | .method ⟨f, some text⟩, ⟨methodForm, noComment⟩ =>
      refine .pure ⟨?_, fun plain => ?_⟩
      · rw [List.append_nil, terminals_append, semicolonRead]
        exact .method semicolon methodForm
      · rw [List.append_nil, List.all_append, Bool.and_eq_true] at plain
        cases noComment plain.1
  | .method ⟨f, none⟩, ⟨methodForm, _⟩ =>
      refine trailingComment_reads.bind fun comment r commentRead => .pure ⟨?_, fun plain => ?_⟩
      · rw [List.append_nil, terminals_append, terminals_append, semicolonRead,
          terminals_of_maybeComment commentRead]
        exact .method semicolon methodForm
      · simp only [List.append_nil, List.all_append, Bool.and_eq_true] at plain
        rw [eq_none_of_maybeComment commentRead plain.2.2]
        rfl

theorem structFields_reads (n : Nat) :
    Reads (structFields n)
      (Uncommented (List.map StructField.withoutComment) (SequenceForm StructFieldForm)) := by
  induction n with
  | zero => exact .pure ⟨.nil, fun _ => rfl⟩
  | succ n ih =>
      refine get_reads.bind fun c p unmoved => ?_
      refine (isAt_reads _).bind fun close q unmoved' => ?_
      subst unmoved unmoved'
      cases c.next?.isNone || close with
      | true => exact .pure ⟨.nil, fun _ => rfl⟩
      | false =>
          refine structField_reads.bind fun field r fieldForm => ?_
          refine ih.bind fun fields s fieldsForm => .pure ⟨?_, fun plain => ?_⟩
          · simp only [List.nil_append, List.append_nil, terminals_append]
            exact .cons fieldForm.1 fieldsForm.1
          · simp only [List.nil_append, List.append_nil, List.all_append,
              Bool.and_eq_true] at plain
            rw [List.map_cons, fieldForm.2 plain.1, fieldsForm.2 plain.2]

theorem structDecl_reads :
    Reads structDecl (Uncommented StructDecl.withoutComments StructForm) := by
  refine (keyword_reads _).bind fun _ p typedefRead => ?_
  refine (keyword_reads _).bind fun _ q structRead => ?_
  refine (punct_reads _).bind fun _ r leftRead => ?_
  refine get_reads.bind fun c s unmoved => ?_
  refine (structFields_reads _).bind fun fields body bodyForm => ?_
  refine (punct_reads _).bind fun _ t rightRead => ?_
  refine identifier_reads.bind fun name w nameRead => .pure ⟨?_, fun plain => ?_⟩
  · obtain ⟨typedef, typedefRead⟩ := typedefRead
    obtain ⟨struct, structRead⟩ := structRead
    obtain ⟨left, leftRead⟩ := leftRead
    obtain ⟨right, rightRead⟩ := rightRead
    subst unmoved
    simp only [List.nil_append, List.append_nil, terminals_append, typedefRead, structRead,
      leftRead, rightRead, nameRead]
    exact .intro typedef struct left right name bodyForm.1
  · simp only [List.all_append, Bool.and_eq_true] at plain
    obtain ⟨-, -, -, -, bodyPlain, -⟩ := plain
    rw [StructDecl.withoutComments, bodyForm.2 bodyPlain]

theorem ended_reads {α : Type} {decl : Reader α} {form : α → List Token → Prop}
    (declReads : Reads decl form) :
    Reads (ended decl) fun a p => ∃ q r semicolon, p = q ++ r ∧ form a q ∧
      terminals r = [⟨.punct .semicolon, semicolon⟩] := by
  refine declReads.bind fun a p declForm => ?_
  refine (punct_reads _).bind fun _ q semicolonRead => .pure ?_
  obtain ⟨semicolon, semicolonRead⟩ := semicolonRead
  exact ⟨p, q, semicolon, by rw [List.append_nil], declForm, semicolonRead⟩

/-- What a declaration is, with comments in it but not being one itself. -/
def UncommentedDeclaration (d : Declaration) (p : List Token) : Prop :=
  ∃ d', d.withoutComments? = some d' ∧ DeclarationForm d' (terminals p) ∧
    (p.all Token.isSignificant = true → d' = d)

theorem declaration_reads : Reads declaration UncommentedDeclaration := by
  refine choose_reads fun r among => ?_
  simp only [List.mem_cons, List.not_mem_nil, or_false] at among
  rcases among with rfl | rfl | rfl | rfl
  · refine (ended_reads enumDecl_reads).bind fun decl p declForm => .pure ?_
    obtain ⟨q, r, semicolon, rfl, declForm, semicolonRead⟩ := declForm
    refine ⟨_, rfl, ?_, fun plain => ?_⟩
    · rw [List.append_nil, terminals_append, semicolonRead]
      exact .enum semicolon declForm.1
    · simp only [List.all_append, Bool.and_eq_true] at plain
      rw [declForm.2 plain.1.1]
  · refine (ended_reads aliasDecl_reads).bind fun decl p declForm => .pure ?_
    obtain ⟨q, r, semicolon, rfl, declForm, semicolonRead⟩ := declForm
    refine ⟨_, rfl, ?_, fun _ => rfl⟩
    rw [List.append_nil, terminals_append, semicolonRead]
    exact .typeAlias semicolon declForm
  · refine (ended_reads functionDecl_reads).bind fun decl p declForm => .pure ?_
    obtain ⟨q, r, semicolon, rfl, declForm, semicolonRead⟩ := declForm
    refine ⟨_, rfl, ?_, fun _ => rfl⟩
    rw [List.append_nil, terminals_append, semicolonRead]
    exact .function semicolon declForm
  · refine (ended_reads structDecl_reads).bind fun decl p declForm => .pure ?_
    obtain ⟨q, r, semicolon, rfl, declForm, semicolonRead⟩ := declForm
    refine ⟨_, rfl, ?_, fun plain => ?_⟩
    · rw [List.append_nil, terminals_append, semicolonRead]
      exact .struct semicolon declForm.1
    · simp only [List.all_append, Bool.and_eq_true] at plain
      rw [declForm.2 plain.1.1]

theorem orComment_reads {α : Type} {r : Reader α} {form : α → List Token → Prop}
    (reads : Reads r form) (start : Position) : Reads (orComment start r) form := by
  constructor
  · intro c a c' ran
    unfold orComment at ran
    split at ran
    · rename_i outcome
      cases ran
      exact reads.ok outcome
    · cases ran
  · intro c e c' ran
    unfold orComment at ran
    split at ran
    · cases ran
    · rename_i e' c₁ outcome
      cases ran
      obtain ⟨passes, stands⟩ := reads.error outcome
      refine ⟨passes, ?_⟩
      split
      · exact stands.expecting _
      · exact stands

theorem declarations_reads (n : Nat) :
    Reads (declarations n)
      (Uncommented (List.filterMap Declaration.withoutComments?)
        (SequenceForm DeclarationForm)) := by
  induction n with
  | zero => exact .pure ⟨.nil, fun _ => rfl⟩
  | succ n ih =>
      refine comment_reads.bind fun text? p commentRead => ?_
      cases text? with
      | some text =>
          refine ih.bind fun ds q restForm => .pure ⟨?_, fun plain => ?_⟩
          · rw [List.append_nil, terminals_append, terminals_of_maybeComment commentRead,
              List.nil_append]
            exact restForm.1
          · rw [List.append_nil, List.all_append, Bool.and_eq_true] at plain
            cases eq_none_of_maybeComment commentRead plain.1
      | none =>
          cases commentRead
          refine get_reads.bind fun c q unmoved => ?_
          subst unmoved
          cases c.next? with
          | none => exact .pure ⟨.nil, fun _ => rfl⟩
          | some next =>
              refine (orComment_reads declaration_reads next.position).bind
                fun d r uncommented => ?_
              obtain ⟨d', erased, declForm, same⟩ := uncommented
              refine ih.bind fun ds s restForm => .pure ⟨?_, fun plain => ?_⟩
              · simp only [List.nil_append, List.append_nil, terminals_append,
                  List.filterMap_cons, erased]
                exact .cons declForm restForm.1
              · simp only [List.nil_append, List.append_nil, List.all_append,
                  Bool.and_eq_true] at plain
                simp only [List.filterMap_cons, erased]
                rw [same plain.1, restForm.2 plain.2]

theorem header_reads : Reads header (Uncommented Header.withoutComments HeaderForm) := by
  refine get_reads.bind fun c p unmoved => ?_
  subst unmoved
  refine (declarations_reads _).bind fun ds q declarationsForm => .pure ⟨?_, fun plain => ?_⟩
  · rw [List.append_nil, List.nil_append]
    exact declarationsForm.1
  · rw [List.append_nil, List.nil_append] at plain
    rw [Header.withoutComments, declarationsForm.2 plain]

/-! ## Nothing is left over -/

theorem terminals_eq_nil_of_next? {c : Cursor} (ended : c.next? = none) : c.terminals = [] := by
  rw [Cursor.next?, List.head?_eq_none_iff] at ended
  rw [c.terminals_eq_significant, ended]
  rfl

/-- Every form of a declaration starts with a reserved word. -/
theorem ne_nil_of_declarationForm {d : Declaration} {u : List Terminal}
    (declForm : DeclarationForm d u) : u ≠ [] := by
  cases declForm <;> simp

/-- As many rounds as there are tokens ahead reach the end: each takes at least one of them. -/
theorem declarations_reads_all {n : Nat} {c c' : Cursor} {ds : List Declaration}
    (bound : c.ahead.length ≤ n) (ran : declarations n c = .ok ds c') : c'.terminals = [] := by
  induction n generalizing c ds with
  | zero =>
      have empty : c.ahead = [] := List.length_eq_zero_iff.mp (by omega)
      cases ran
      rw [Cursor.terminals, empty]
      rfl
  | succ n ih =>
      obtain ⟨text?, c₁, commentRan, ran⟩ := bind_eq_ok.mp ran
      obtain ⟨p, passes, commentRead⟩ := comment_reads.ok commentRan
      cases text? with
      | some text =>
          obtain ⟨t, rfl, -, -⟩ := commentRead
          obtain ⟨rest, c₂, restRan, ran⟩ := bind_eq_ok.mp ran
          cases ran
          refine ih ?_ restRan
          rw [passes.ahead, List.length_append, List.length_singleton] at bound
          omega
      | none =>
          cases commentRead
          obtain ⟨c₀, c₁', looked, ran⟩ := bind_eq_ok.mp ran
          cases looked
          cases upcoming : c₁.next? with
          | none =>
              rw [upcoming] at ran
              cases ran
              exact terminals_eq_nil_of_next? upcoming
          | some next =>
              rw [upcoming] at ran
              obtain ⟨d, c₂, declRan, ran⟩ := bind_eq_ok.mp ran
              obtain ⟨rest, c₃, restRan, ran⟩ := bind_eq_ok.mp ran
              cases ran
              obtain ⟨q, passes', d', -, declForm, -⟩ :=
                (orComment_reads declaration_reads next.position).ok declRan
              have nonempty : 0 < q.length := by
                refine List.length_pos_iff.mpr fun nil => ne_nil_of_declarationForm declForm ?_
                rw [nil]
                rfl
              refine ih ?_ restRan
              rw [passes.ahead, passes'.ahead, List.nil_append, List.length_append] at bound
              omega

theorem header_reads_all {c c' : Cursor} {h : Header} (ran : header c = .ok h c') :
    c'.terminals = [] := by
  obtain ⟨c₀, c₁, looked, ran⟩ := bind_eq_ok.mp ran
  cases looked
  obtain ⟨ds, c₂, declarationsRan, ran⟩ := bind_eq_ok.mp ran
  cases ran
  exact declarations_reads_all (Nat.le_refl _) declarationsRan

theorem wholeType_reads_all {c c' : Cursor} {t : CType} (ran : wholeType c = .ok t c') :
    c'.terminals = [] := by
  obtain ⟨t', c₁, -, ran⟩ := bind_eq_ok.mp ran
  obtain ⟨c₀, c₂, looked, ran⟩ := bind_eq_ok.mp ran
  cases looked
  cases upcoming : c₁.next? with
  | some next =>
      rw [upcoming] at ran
      cases ran
  | none =>
      rw [upcoming] at ran
      cases ran
      exact terminals_eq_nil_of_next? upcoming

end Reader

end InterfaceHeader
