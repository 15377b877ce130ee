import InterfaceHeader.Proofs.Canonical.Normal
import InterfaceHeader.Proofs.Token.Pieces

/-!
# What canonical texts spell

The canonical text of each part of a header spells the terminals of its normal form: one lemma for
each production of the grammar, in the order in which the productions use one another.
-/

namespace InterfaceHeader

/-! ## Layout and reserved words -/

theorem closed_space : Closed " " [] := closed_layout (by decide)

theorem divides_space : Divides " " := divides_of_head (by decide)

theorem closed_comma : Closed ", " [⟨.punct .comma, ","⟩] := closed_layout (by decide)

theorem divides_comma : Divides ", " := divides_of_head (by decide)

theorem closed_end : Closed ";\n" [⟨.punct .semicolon, ";"⟩] := closed_layout (by decide)

theorem divides_end : Divides ";\n" := divides_of_head (by decide)

/-- A reserved word and a blank. -/
theorem closed_keyword (word : Keyword) :
    Closed (word.text ++ " ") [⟨.keyword word, word.text⟩] :=
  (open_keyword word).append_closed divides_space closed_space

/-! ## Types -/

/-- A primitive type. Its spelling is closed if it ends in a star. -/
theorem primitive_laid {t : Primitive} (formed : t.WellFormed) :
    ∃ u, PrimitiveForm t u ∧ Open t.spelling u ∧ (t.isPointer = true → Closed t.spelling u) := by
  obtain ⟨isConst, name, isPointer⟩ := t
  have constant : ∃ u, OptionalToken (.keyword .const) isConst u ∧
      Closed (if isConst then "const " else "") u := by
    cases isConst with
    | false => exact ⟨[], .absent, closed_empty⟩
    | true => exact ⟨_, .present _, closed_keyword .const⟩
  have named : Open name [⟨.identifier, name⟩] := open_name formed
  obtain ⟨u, const, laid⟩ := constant
  cases isPointer with
  | false =>
      refine ⟨u ++ [⟨.identifier, name⟩], .intro name const .absent, ?_, nofun⟩
      have text : Primitive.spelling ⟨isConst, name, false⟩ =
          (if isConst then "const " else "") ++ name := String.append_empty
      rw [text]
      exact laid.append_open named
  | true =>
      have star : Closed " *" [⟨.punct .star, "*"⟩] := closed_layout (by decide)
      have divides : Divides " *" := divides_of_head (by decide)
      have whole := (laid.append_open named).append_closed divides star
      rw [List.append_assoc] at whole
      exact ⟨_, .intro name const (.present "*"), whole.open, fun _ => whole⟩

/-- A name declared with a primitive type. -/
theorem declaring_laid {t : Primitive} {name : String} (formed : t.WellFormed)
    (named : Named name) :
    ∃ u, PrimitiveForm t u ∧ Open (t.declaring name) (u ++ [⟨.identifier, name⟩]) := by
  obtain ⟨u, form, laid, closed⟩ := primitive_laid formed
  refine ⟨u, form, ?_⟩
  unfold Primitive.declaring
  cases pointer : t.isPointer with
  | false =>
      have spaced := laid.append_closed divides_space closed_space
      rw [List.append_nil] at spaced
      exact spaced.append_open (open_name named)
  | true => exact (closed pointer).append_open (open_name named)

/-- Items with commas between them. -/
theorem intercalate_laid {α β : Type} {item : β → List Terminal → Prop} {spell : α → String}
    {f : α → β} {as : List α} (some : as ≠ [])
    (all : ∀ a ∈ as, ∃ u, item (f a) u ∧ Open (spell a) u) :
    ∃ u, CommaForm item (as.map f) u ∧ Open (String.intercalate ", " (as.map spell)) u := by
  induction as with
  | nil => exact absurd rfl some
  | cons a as ih =>
      obtain ⟨u, form, laid⟩ := all a List.mem_cons_self
      cases as with
      | nil =>
          refine ⟨u, .one form, ?_⟩
          rw [List.map_singleton, String.intercalate_singleton]
          exact laid
      | cons b as =>
          obtain ⟨v, forms, rest⟩ :=
            ih (List.cons_ne_nil b as) fun c mem => all c (List.mem_cons_of_mem a mem)
          refine ⟨_, .cons "," form forms, ?_⟩
          rw [List.map_cons, List.map_cons, String.intercalate_cons_cons, String.append_assoc]
          exact laid.append (divides_comma.append _).mayDivide (closed_comma.append_open rest)

/-- A function pointer, given its arguments. -/
theorem functionText_laid {returnType : Primitive} {name : String}
    (formed : returnType.WellFormed) (named : Named name)
    {form : List Argument → List Terminal → Prop} {as : List Argument} {texts : List String}
    {w : List Terminal} (arguments : form as w) (laid : Open (String.intercalate ", " texts) w) :
    ∃ u, SignatureForm form ⟨returnType, name, as⟩ u ∧
      Closed (functionText returnType name texts) u := by
  obtain ⟨u, primitive, spelt, _⟩ := primitive_laid formed
  have star : Closed " (*" [⟨.punct .leftParen, "("⟩, ⟨.punct .star, "*"⟩] :=
    closed_layout (by decide)
  have parens : Closed ")(" [⟨.punct .rightParen, ")"⟩, ⟨.punct .leftParen, "("⟩] :=
    closed_layout (by decide)
  have right : Closed ")" [⟨.punct .rightParen, ")"⟩] := closed_layout (by decide)
  have opening := (spelt.append_closed (divides_of_head (by decide)) star).append_open
    (open_name named)
  have listed := (opening.append_closed (divides_of_head (by decide)) parens).append_open laid
  have whole := listed.append_closed (divides_of_head (by decide)) right
  refine ⟨_, .intro "(" ")" primitive (.intro "(" "*" name ")") arguments, ?_⟩
  unfold functionText
  simpa only [List.append_assoc, List.cons_append, List.nil_append] using whole

theorem bareArguments_eq_map (as : List Argument) :
    bareArguments as = as.map fun a => ⟨a.type.bare, none⟩ := by
  induction as with
  | nil => rfl
  | cons a as ih =>
      obtain ⟨type, name⟩ := a
      rw [bareArguments, ih]
      rfl

mutual

/-- The spelling of a type. -/
theorem CType.spelling_laid : (t : CType) → t.WellFormed →
    ∃ u, TypeForm t.bare u ∧ Open t.spelling u
  | .primitive _, formed => by
      obtain ⟨u, form, laid, _⟩ := primitive_laid formed
      exact ⟨u, .primitive form, laid⟩
  | .function t, formed => by
      obtain ⟨u, form, laid⟩ := t.spelling_laid formed
      exact ⟨u, .function form, laid.open⟩

/-- The spelling of a function type. -/
theorem FunctionType.spelling_laid : (t : FunctionType) → t.WellFormed →
    ∃ u, FunctionForm t.bare u ∧ Closed t.spelling u
  | ⟨returnType, name, arguments⟩, formed => by
      obtain ⟨returns, named, formed⟩ := formed
      have all := typeSpellings_laid arguments formed
      rw [FunctionType.bare, FunctionType.spelling, bareArguments_eq_map, typeSpellings_eq_map]
      by_cases some : arguments = []
      · subst some
        exact functionText_laid returns named .empty closed_empty.open
      · have each : ∀ a ∈ arguments,
            ∃ u, ArgumentForm ⟨a.type.bare, none⟩ u ∧ Open a.type.spelling u := by
          intro a mem
          obtain ⟨u, form, laid⟩ := all a mem
          exact ⟨u ++ [], .intro form .absent, by rwa [List.append_nil]⟩
        obtain ⟨w, form, laid⟩ := intercalate_laid some each
        exact functionText_laid returns named (.some form) laid

/-- The spellings of the types of arguments. -/
theorem typeSpellings_laid : (as : List Argument) → ArgumentsWellFormed as →
    ∀ a ∈ as, ∃ u, TypeForm a.type.bare u ∧ Open a.type.spelling u
  | [], _, _, mem => absurd mem List.not_mem_nil
  | ⟨type, _⟩ :: rest, formed, a, mem => by
      rcases List.mem_cons.mp mem with rfl | mem
      · exact type.spelling_laid formed.1
      · exact typeSpellings_laid rest formed.2.2 a mem

end

/-- An argument with its name. -/
theorem Argument.declaration_laid (a : Argument) (formed : a.type.WellFormed)
    (named : ∀ n ∈ a.name, Named n) :
    ∃ u, ArgumentForm a.normal u ∧ Open a.declaration u := by
  obtain ⟨type, name⟩ := a
  cases name with
  | none =>
      obtain ⟨u, form, laid⟩ := type.spelling_laid formed
      refine ⟨u ++ [], .intro form .absent, ?_⟩
      rwa [List.append_nil]
  | some name =>
      have isName : Named name := named name rfl
      cases type with
      | primitive t =>
          obtain ⟨u, form, laid⟩ := declaring_laid formed isName
          exact ⟨_, .intro (.primitive form) (.present name), laid⟩
      | function t =>
          obtain ⟨u, form, laid⟩ := t.spelling_laid formed
          have spaced := laid.append closed_space
          rw [List.append_nil] at spaced
          exact ⟨_, .intro (.function form) (.present name), spaced.append_open (open_name isName)⟩

theorem ArgumentsWellFormed.forall {as : List Argument} (formed : ArgumentsWellFormed as) :
    ∀ a ∈ as, a.type.WellFormed ∧ ∀ n ∈ a.name, Named n := by
  induction as with
  | nil => exact nofun
  | cons first as ih =>
      obtain ⟨type, name⟩ := first
      obtain ⟨formed, named, rest⟩ := formed
      intro a mem
      rcases List.mem_cons.mp mem with rfl | mem
      · exact ⟨formed, named⟩
      · exact ih rest a mem

/-- A function pointer with the names of its arguments, of which there are some. -/
theorem method_laid {f : FunctionType} (formed : f.WellFormed) (some : f.arguments ≠ []) :
    ∃ u, MethodForm f.normal u ∧ Closed f.declaration u := by
  obtain ⟨returnType, name, arguments⟩ := f
  obtain ⟨returns, named, formed⟩ := formed
  obtain ⟨w, form, laid⟩ := intercalate_laid some fun a mem =>
    a.declaration_laid (formed.forall a mem).1 (formed.forall a mem).2
  exact functionText_laid returns named form laid

/-- A function pointer with the names of its arguments. -/
theorem function_laid {f : FunctionType} (formed : f.WellFormed) :
    ∃ u, FunctionForm f.normal u ∧ Closed f.declaration u := by
  obtain ⟨returnType, name, arguments⟩ := f
  by_cases some : arguments = []
  · subst some
    exact functionText_laid formed.1 formed.2.1 .empty closed_empty.open
  · obtain ⟨u, form, laid⟩ := method_laid formed some
    cases form with
    | intro left right primitive pointer arguments =>
        exact ⟨_, .intro left right primitive pointer (.some arguments), laid⟩

/-! ## Declarations -/

/-- The line of an enumeration value: the value and a comma. -/
theorem enumValue_laid {v : EnumValue} (formed : v.WellFormed) :
    ∃ u, EnumValueForm { v with comment := none } u ∧
      Closed v.text (u ++ [⟨.punct .comma, ","⟩]) := by
  obtain ⟨name, value, comment⟩ := v
  obtain ⟨named, valued⟩ := formed
  have indent : Closed "    " [] := closed_layout (by decide)
  have comma : Closed ",\n" [⟨.punct .comma, ","⟩] := closed_layout (by decide)
  have divides : Divides ",\n" := divides_of_head (by decide)
  have start := indent.append_open (open_name named)
  unfold EnumValue.text
  cases value with
  | none =>
      have plain := (start.append mayDivide_empty closed_empty.open).append_closed divides comma
      exact ⟨_, .plain name, plain⟩
  | some init =>
      have equals : Closed " = " [⟨.punct .equals, "="⟩] := closed_layout (by decide)
      have divides' : Divides " = " := divides_of_head (by decide)
      have initial : ∃ w, InitializerForm init w ∧ Open init.text w := by
        cases init with
        | int value =>
            refine ⟨_, .int _ ?_, open_integer value⟩
            rw [String.toList_ofList, Decimal.readWord?_write]
        | reference name => exact ⟨_, .reference name, open_name (valued _ rfl)⟩
      obtain ⟨w, form, laid⟩ := initial
      have valued := (start.append (divides'.append _).mayDivide
        (equals.append_open laid)).append_closed divides comma
      exact ⟨_, .initialized name "=" form, valued⟩

/-- The lines of the values of an enumeration: values with commas between them, and one behind the
    last. -/
theorem enumValues_laid {vs : List EnumValue} (some : vs ≠ []) (formed : ∀ v ∈ vs, v.WellFormed) :
    ∃ u, CommaForm EnumValueForm (vs.map fun v => { v with comment := none }) u ∧
      Closed (String.join (vs.map EnumValue.text)) (u ++ [⟨.punct .comma, ","⟩]) := by
  induction vs with
  | nil => exact absurd rfl some
  | cons v vs ih =>
      obtain ⟨u, form, laid⟩ := enumValue_laid (formed v List.mem_cons_self)
      rw [List.map_cons, List.map_cons, String.join_cons]
      cases vs with
      | nil =>
          refine ⟨u, .one form, ?_⟩
          have whole := laid.append closed_empty
          rwa [List.append_nil] at whole
      | cons w vs =>
          obtain ⟨x, forms, rest⟩ :=
            ih (List.cons_ne_nil w vs) fun v mem => formed v (List.mem_cons_of_mem _ mem)
          refine ⟨_, .cons "," form forms, ?_⟩
          have whole := laid.append rest
          rwa [List.append_assoc, List.singleton_append, ← List.cons_append,
            ← List.append_assoc] at whole

/-- A name behind a blank, if there is one. -/
theorem optionalName_laid {name : Option String} (named : ∀ n ∈ name, Named n) :
    ∃ u, OptionalName name u ∧ Open ((name.map fun n => " " ++ n).getD "") u := by
  cases name with
  | none => exact ⟨[], .absent, closed_empty.open⟩
  | some n => exact ⟨_, .present n, closed_space.append_open (open_name (named n rfl))⟩

theorem enum_laid {e : EnumDecl} (named : ∀ n ∈ e.name, Named n)
    (formed : ∀ v ∈ e.values, v.WellFormed) :
    ∃ u, DeclarationForm (.enum e.normal) u ∧ Closed e.text u := by
  obtain ⟨name, values⟩ := e
  have opening : Closed "typedef enum \x7b\n" [⟨.keyword .typedef, "typedef"⟩,
      ⟨.keyword .enum, "enum"⟩, ⟨.punct .leftBrace, "\x7b"⟩] :=
    ((closed_keyword .typedef).append (closed_keyword .enum)).append
      (b := "\x7b\n") (closed_layout (by decide))
  have closing : Closed "\x7d" [⟨.punct .rightBrace, "\x7d"⟩] := closed_layout (by decide)
  have body : ∃ u, EnumBodyForm (values.map fun v => { v with comment := none }) u ∧
      Closed (String.join (values.map EnumValue.text)) u := by
    by_cases some : values = []
    · subst some
      exact ⟨[], .empty, closed_empty⟩
    · obtain ⟨u, form, laid⟩ := enumValues_laid some formed
      exact ⟨_, .values form (.present ","), laid⟩
  obtain ⟨u, form, laid⟩ := body
  obtain ⟨v, called, name⟩ := optionalName_laid named
  have whole := (((opening.append laid).append closing).append_open name).append_closed
    divides_end closed_end
  refine ⟨_, .enum ";" (.intro "typedef" "enum" "\x7b" "\x7d" form called), ?_⟩
  unfold EnumDecl.text
  simpa only [List.append_assoc, List.cons_append, List.nil_append] using whole

theorem alias_laid {a : AliasDecl} (formed : a.type.WellFormed) (named : Named a.name) :
    ∃ u, DeclarationForm (.typeAlias a) u ∧ Closed a.text u := by
  obtain ⟨type, name⟩ := a
  obtain ⟨u, form, laid⟩ := declaring_laid formed named
  have whole := ((closed_keyword .typedef).append_open laid).append_closed divides_end closed_end
  exact ⟨_, .typeAlias ";" (.intro "typedef" name form), whole⟩

theorem functionDecl_laid {f : FunctionType} (formed : f.WellFormed) :
    ∃ u, DeclarationForm (.function f.normal) u ∧ Closed f.text u := by
  obtain ⟨u, form, laid⟩ := function_laid formed
  have whole := ((closed_keyword .typedef).append laid).append closed_end
  exact ⟨_, .function ";" (.intro "typedef" form), whole⟩

/-- The line of a member of a structure. -/
theorem structField_laid {field : StructField} (formed : field.WellFormed) :
    ∃ u, StructFieldForm field.normal u ∧ Closed field.text u := by
  have indent : Closed "    " [] := closed_layout (by decide)
  cases field with
  | data field =>
      obtain ⟨type, name⟩ := field
      obtain ⟨u, form, laid⟩ := declaring_laid formed.1 formed.2
      have whole := (indent.append_open laid).append_closed divides_end closed_end
      rw [List.nil_append, List.append_assoc] at whole
      exact ⟨_, .data name ";" form, whole⟩
  | method field =>
      obtain ⟨u, form, laid⟩ := method_laid formed.1 formed.2
      exact ⟨_, .method ";" form, (indent.append laid).append closed_end⟩

theorem structFields_laid {fields : List StructField}
    (formed : ∀ field ∈ fields, field.WellFormed) :
    ∃ u, SequenceForm StructFieldForm (fields.map StructField.normal) u ∧
      Closed (String.join (fields.map StructField.text)) u := by
  induction fields with
  | nil => exact ⟨[], .nil, closed_empty⟩
  | cons field fields ih =>
      obtain ⟨u, form, laid⟩ := structField_laid (formed field List.mem_cons_self)
      obtain ⟨v, forms, rest⟩ := ih fun f mem => formed f (List.mem_cons_of_mem _ mem)
      rw [List.map_cons, List.map_cons, String.join_cons]
      exact ⟨_, .cons form forms, laid.append rest⟩

theorem struct_laid {s : StructDecl} (named : Named s.name)
    (formed : ∀ field ∈ s.fields, field.WellFormed) :
    ∃ u, DeclarationForm (.struct s.normal) u ∧ Closed s.text u := by
  obtain ⟨name, fields⟩ := s
  have opening : Closed "typedef struct \x7b\n" [⟨.keyword .typedef, "typedef"⟩,
      ⟨.keyword .struct, "struct"⟩, ⟨.punct .leftBrace, "\x7b"⟩] :=
    ((closed_keyword .typedef).append (closed_keyword .struct)).append
      (b := "\x7b\n") (closed_layout (by decide))
  have closing : Closed "\x7d " [⟨.punct .rightBrace, "\x7d"⟩] := closed_layout (by decide)
  obtain ⟨u, forms, laid⟩ := structFields_laid formed
  have whole := (((opening.append laid).append closing).append_open (open_name named)).append_closed
    divides_end closed_end
  refine ⟨_, .struct ";" (.intro "typedef" "struct" "\x7b" "\x7d" name forms), ?_⟩
  unfold StructDecl.text
  simpa only [List.append_assoc, List.cons_append, List.nil_append] using whole

theorem declaration_laid {d d' : Declaration} (formed : d.WellFormed)
    (normal : d.normal? = some d') : ∃ u, DeclarationForm d' u ∧ Closed d.text u := by
  cases d with
  | comment text => cases normal
  | enum decl =>
      cases normal
      exact enum_laid formed.1 formed.2
  | typeAlias decl =>
      cases normal
      exact alias_laid formed.1 formed.2
  | function decl =>
      cases normal
      exact functionDecl_laid formed
  | struct decl =>
      cases normal
      exact struct_laid formed.1 formed.2

theorem declarations_laid {ds : List Declaration} (formed : ∀ d ∈ ds, d.WellFormed) :
    ∃ u, SequenceForm DeclarationForm (ds.filterMap Declaration.normal?) u ∧
      Closed (String.join (ds.map Declaration.text)) u := by
  induction ds with
  | nil => exact ⟨[], .nil, closed_empty⟩
  | cons d ds ih =>
      obtain ⟨v, forms, rest⟩ := ih fun d mem => formed d (List.mem_cons_of_mem _ mem)
      rw [List.map_cons, String.join_cons, List.filterMap_cons]
      cases normal : d.normal? with
      | none =>
          rw [Declaration.text_of_normal?_none normal]
          exact ⟨v, forms, closed_empty.append rest⟩
      | some d' =>
          obtain ⟨u, form, laid⟩ := declaration_laid (formed d List.mem_cons_self) normal
          exact ⟨_, .cons form forms, laid.append rest⟩

theorem mem_of_mem_dropRepeated {seen : List String} {ds : List Declaration} {d : Declaration}
    (mem : d ∈ dropRepeated seen ds) : d ∈ ds := by
  induction ds generalizing seen with
  | nil => cases mem
  | cons first ds ih =>
      have behind {seen : List String} (mem : d ∈ first :: dropRepeated seen ds) :
          d ∈ first :: ds := by
        rcases List.mem_cons.mp mem with rfl | mem
        · exact List.mem_cons_self
        · exact List.mem_cons_of_mem _ (ih mem)
      cases first with
      | function f =>
          rw [dropRepeated] at mem
          split at mem
          · exact List.mem_cons_of_mem _ (ih mem)
          · exact behind mem
      | comment text => exact behind mem
      | enum decl => exact behind mem
      | typeAlias decl => exact behind mem
      | struct decl => exact behind mem

/-- The canonical text of a header that can be written spells the terminals of its normal form. -/
theorem Header.signatures_laid {h : Header} (formed : h.WellFormed) :
    ∃ u, HeaderForm h.normal u ∧ Closed h.signatures u :=
  declarations_laid fun d mem => formed d (mem_of_mem_dropRepeated mem)

end InterfaceHeader
