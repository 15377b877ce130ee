import InterfaceHeader.Declaration.Source
import InterfaceHeader.Proofs.Canonical.Printing
import InterfaceHeader.Proofs.Grammar.Derivation

/-!
# Writing and reading headers

What is read from a text can be written: an identifier token is a name, so every name in the tree
of a derivation is one. What can be written is read back from its canonical text as its normal
form; and the normal form has the same canonical text, which is therefore a fixed point.
-/

namespace InterfaceHeader

/-! ## Derived headers are well formed -/

/-- The identifiers among terminals are names. -/
def NamesIn (u : List Terminal) : Prop :=
  ∀ x ∈ u, x.kind = .identifier → Named x.lexeme

theorem NamesIn.left {u v : List Terminal} (names : NamesIn (u ++ v)) : NamesIn u :=
  fun x mem => names x (List.mem_append_left v mem)

theorem NamesIn.right {u v : List Terminal} (names : NamesIn (u ++ v)) : NamesIn v :=
  fun x mem => names x (List.mem_append_right u mem)

theorem NamesIn.tail {x : Terminal} {u : List Terminal} (names : NamesIn (x :: u)) : NamesIn u :=
  fun y mem => names y (List.mem_cons_of_mem x mem)

theorem NamesIn.head {name : String} {u : List Terminal}
    (names : NamesIn (⟨.identifier, name⟩ :: u)) : Named name :=
  names _ List.mem_cons_self rfl

theorem CommaForm.each {α : Type} {item : α → List Terminal → Prop} {as : List α}
    {u : List Terminal} (form : CommaForm item as u) (names : NamesIn u) :
    as ≠ [] ∧ ∀ a ∈ as, ∃ v, item a v ∧ NamesIn v := by
  induction form with
  | one form =>
      refine ⟨List.cons_ne_nil _ _, ?_⟩
      intro a mem
      cases List.mem_singleton.mp mem
      exact ⟨_, form, names⟩
  | cons comma form _ ih =>
      refine ⟨List.cons_ne_nil _ _, ?_⟩
      intro a mem
      rcases List.mem_cons.mp mem with rfl | mem
      · exact ⟨_, form, names.left⟩
      · exact (ih names.right.tail).2 a mem

theorem SequenceForm.each {α : Type} {item : α → List Terminal → Prop} {as : List α}
    {u : List Terminal} (form : SequenceForm item as u) (names : NamesIn u) :
    ∀ a ∈ as, ∃ v, item a v ∧ NamesIn v := by
  induction form with
  | nil => exact nofun
  | cons form _ ih =>
      intro a mem
      rcases List.mem_cons.mp mem with rfl | mem
      · exact ⟨_, form, names.left⟩
      · exact ih names.right a mem

theorem PrimitiveForm.wellFormed {t : Primitive} {u : List Terminal} (form : PrimitiveForm t u)
    (names : NamesIn u) : t.WellFormed := by
  cases form with
  | intro name const star => exact names.right.head

theorem OptionalName.named {name : Option String} {u : List Terminal} (form : OptionalName name u)
    (names : NamesIn u) : ∀ n ∈ name, Named n := by
  cases form with
  | absent => exact nofun
  | present name =>
      intro n mem
      cases mem
      exact names.head

mutual

theorem CType.wellFormed_of_form : (t : CType) → (u : List Terminal) → TypeForm t u → NamesIn u →
    t.WellFormed
  | .primitive _, _, .primitive form, names => form.wellFormed names
  | .function t, u, .function form, names => t.wellFormed_of_form u form names

theorem FunctionType.wellFormed_of_form : (f : FunctionType) → (u : List Terminal) →
    FunctionForm f u → NamesIn u → f.WellFormed
  | ⟨returnType, name, arguments⟩, _, .intro left right primitive pointer listed, names => by
      refine ⟨primitive.wellFormed names.left, ?_, ?_⟩
      · cases pointer with
        | intro _ _ _ _ => exact names.right.left.tail.tail.head
      · apply argumentsWellFormed_of_form arguments
        cases listed with
        | empty => exact nofun
        | some listed => exact (listed.each names.right.right.tail.left).2

theorem argumentsWellFormed_of_form : (as : List Argument) →
    (∀ a ∈ as, ∃ v, ArgumentForm a v ∧ NamesIn v) → ArgumentsWellFormed as
  | [], _ => trivial
  | ⟨type, name⟩ :: rest, each => by
      obtain ⟨v, form, names⟩ := each _ List.mem_cons_self
      cases form with
      | intro typed named =>
          exact ⟨type.wellFormed_of_form _ typed names.left, named.named names.right,
            argumentsWellFormed_of_form rest fun a mem => each a (List.mem_cons_of_mem _ mem)⟩

end

theorem MethodForm.wellFormed {f : FunctionType} {u : List Terminal} (form : MethodForm f u)
    (names : NamesIn u) : f.WellFormed ∧ f.arguments ≠ [] := by
  cases form with
  | intro left right primitive pointer listed =>
      have some := (listed.each names.right.right.tail.left).1
      have form : FunctionForm _ _ := .intro left right primitive pointer (.some listed)
      exact ⟨FunctionType.wellFormed_of_form _ _ form names, some⟩

theorem EnumValueForm.wellFormed {v : EnumValue} {u : List Terminal} (form : EnumValueForm v u)
    (names : NamesIn u) : v.WellFormed := by
  cases form with
  | plain name => exact ⟨names.head, nofun⟩
  | initialized name equals init =>
      refine ⟨names.head, ?_⟩
      intro init' mem
      cases mem
      cases init with
      | int text value => trivial
      | reference name => exact names.tail.tail.head

theorem StructFieldForm.wellFormed {field : StructField} {u : List Terminal}
    (form : StructFieldForm field u) (names : NamesIn u) : field.WellFormed := by
  cases form with
  | data name semicolon form => exact ⟨form.wellFormed names.left, names.right.head⟩
  | method semicolon form => exact form.wellFormed names.left

theorem DeclarationForm.wellFormed {d : Declaration} {u : List Terminal}
    (form : DeclarationForm d u) (names : NamesIn u) : d.WellFormed := by
  cases form with
  | enum semicolon form =>
      cases form with
      | intro _ _ _ _ body named =>
          have names := names.left.tail.tail.tail
          refine ⟨named.named names.right.tail, ?_⟩
          intro v mem
          cases body with
          | empty => cases mem
          | values values _ =>
              obtain ⟨w, form, names⟩ := (values.each names.left.left).2 v mem
              exact form.wellFormed names
  | typeAlias semicolon form =>
      cases form with
      | intro _ name form =>
          exact ⟨form.wellFormed names.left.tail.left, names.left.tail.right.head⟩
  | function semicolon form =>
      cases form with
      | intro _ form => exact FunctionType.wellFormed_of_form _ _ form names.left.tail
  | struct semicolon form =>
      cases form with
      | intro _ _ _ _ name fields =>
          have names := names.left.tail.tail.tail
          refine ⟨names.right.tail.head, ?_⟩
          intro field mem
          obtain ⟨w, form, names⟩ := fields.each names.left field mem
          exact form.wellFormed names

/-- Comments have no part in whether a declaration can be written. -/
theorem Declaration.wellFormed_of_withoutComments {d : Declaration}
    (formed : ∀ d' ∈ d.withoutComments?, d'.WellFormed) : d.WellFormed := by
  cases d with
  | comment text => trivial
  | enum decl =>
      obtain ⟨named, values⟩ := formed _ rfl
      exact ⟨named, fun v mem => values v.withoutComment (List.mem_map_of_mem mem)⟩
  | typeAlias decl => exact formed _ rfl
  | function decl => exact formed _ rfl
  | struct decl =>
      obtain ⟨named, fields⟩ := formed _ rfl
      refine ⟨named, ?_⟩
      intro field mem
      have formed := fields field.withoutComment (List.mem_map_of_mem mem)
      cases field with
      | data field => exact formed
      | method field => exact formed

/-! ## Reading -/

/-- The identifiers among the tokens of a text are names. -/
theorem namesIn_terminalsOf {text : List Char} {tokens : List Token}
    (scanned : tokenize text = .ok tokens) : NamesIn (terminalsOf tokens) := by
  intro x mem kind
  obtain ⟨t, kept, rfl⟩ := List.mem_map.mp mem
  obtain ⟨_, cut, _⟩ := tokenize_ok scanned (List.mem_filter.mp kept).1
  have spells := cut.spells
  rw [show t.kind = .identifier from kind] at spells
  exact spells

/-- A header that is read from a text can be written. -/
theorem Header.wellFormed_of_ofText? {text : String} {h : Header}
    (read : Header.ofText? text = .ok h) : h.WellFormed := by
  rw [Header.ofText?_eq] at read
  cases scanned : tokenize text.toList with
  | error error =>
      rw [scanned] at read
      cases read
  | ok tokens =>
      rw [scanned] at read
      dsimp only at read
      cases found : Header.ofTokens? tokens with
      | error error =>
          rw [found] at read
          cases read
      | ok h' =>
          rw [found] at read
          cases read
          have form := headerForm_of_ofTokens? found
          intro d mem
          apply Declaration.wellFormed_of_withoutComments
          intro d' without
          obtain ⟨u, form, names⟩ := SequenceForm.each form (namesIn_terminalsOf scanned) d'
            (List.mem_filterMap.mpr ⟨d, mem, without⟩)
          exact form.wellFormed names

/-- Where there are no comments among the tokens there are none in the header. -/
theorem withoutComments_of_ofTokens? {tokens : List Token} {h : Header}
    (read : Header.ofTokens? tokens = .ok h) (none : ∀ t ∈ tokens, t.kind ≠ .comment) :
    h.withoutComments = h := by
  unfold Header.ofTokens? Reader.outcome at read
  split at read
  · rename_i h' c' run
    cases read
    obtain ⟨p, passes, _, same⟩ := Reader.header_reads.ok run
    refine same (List.all_eq_true.mpr fun t mem => ?_)
    have ahead : t ∈ (Cursor.ofTokens tokens).ahead := by
      rw [passes.ahead]
      exact List.mem_append_left _ mem
    have significant := none t (List.mem_filter.mp ahead).1
    simp [Token.isSignificant, Token.isComment, significant]
  · cases read

/-- The tokens of a text that spells terminals have these terminals, and are no comments. -/
theorem Lexes.terminalsOf {text : List Char} {u : List Terminal} (lexes : Lexes text u) :
    ∃ tokens, InterfaceHeader.tokenize text = .ok tokens ∧
      InterfaceHeader.terminalsOf tokens = u ∧ ∀ t ∈ tokens, t.kind ≠ .comment := by
  obtain ⟨tokens, scanned, words, kinds⟩ := lexes.tokenize
  refine ⟨tokens, scanned, ?_, fun t mem => (kinds t mem).2⟩
  unfold InterfaceHeader.terminalsOf
  rw [List.filter_eq_self.mpr, words]
  intro t mem
  obtain ⟨blank, comment⟩ := kinds t mem
  simp [blank, comment]

/-- A text whose terminals are a sentence, with no comments, is read as its tree. -/
theorem ofText?_of_lexes {text : String} {u : List Terminal} {h : Header}
    (lexes : Lexes text.toList u) (form : HeaderForm h u) : Header.ofText? text = .ok h := by
  obtain ⟨tokens, scanned, terminals, none⟩ := lexes.terminalsOf
  obtain ⟨h', read, rfl⟩ := ofTokens?_of_headerForm (terminals ▸ form)
  have same := withoutComments_of_ofTokens? read none
  simp only [Header.ofText?_eq, scanned, read, same]

/-- A header that can be written is read back from its canonical text as its normal form, and every
    header that is read can be written. So the canonical text is a fixed point of reading and
    writing. -/
theorem signatures_roundTrip (h : Header) :
    (h.WellFormed → Header.ofText? h.signatures = .ok h.normal) ∧
      h.normal.signatures = h.signatures ∧
      ∀ text, Header.ofText? text = .ok h → h.WellFormed := by
  refine ⟨?_, h.signatures_normal, fun _ => Header.wellFormed_of_ofText?⟩
  intro formed
  obtain ⟨u, form, closed⟩ := Header.signatures_laid formed
  have lexes := closed [] [] .nil
  rw [List.append_nil, List.append_nil] at lexes
  exact ofText?_of_lexes lexes form

/-- A header with comments, a function declared twice, and names inside a function type that is an
    argument. -/
def callbackHeader : Header :=
  ⟨[.comment "// first",
    .enum ⟨none, [⟨"A", some (.int (-9223372036854775808)), some "// least"⟩,
      ⟨"B", some (.reference "A"), none⟩]⟩,
    .function ⟨⟨false, "void", true⟩, "f",
      [⟨.function ⟨⟨false, "int", false⟩, "g", [⟨.primitive ⟨true, "char", true⟩, some "x"⟩]⟩,
        some "callback"⟩]⟩,
    .function ⟨⟨false, "int", false⟩, "f", []⟩]⟩

theorem callbackHeader_wellFormed : callbackHeader.WellFormed := by
  intro d mem
  simp only [callbackHeader, List.mem_cons, List.not_mem_nil, or_false] at mem
  rcases mem with rfl | rfl | rfl | rfl
  · trivial
  · refine ⟨nofun, ?_⟩
    intro v mem
    simp only [List.mem_cons, List.not_mem_nil, or_false] at mem
    rcases mem with rfl | rfl
    · exact ⟨by decide, fun init mem => by cases mem; trivial⟩
    · exact ⟨by decide, fun init mem => by cases mem; exact (by decide : Named "A")⟩
  · refine ⟨(by decide : Named "void"), by decide, ?_, fun n mem => by cases mem; decide, trivial⟩
    exact ⟨(by decide : Named "int"), by decide, (by decide : Named "char"),
      fun n mem => by cases mem; decide, trivial⟩
  · exact ⟨(by decide : Named "int"), by decide, trivial⟩

/-- It is read back without the comments, the second function and the inner name, and what is read
    can be written. -/
theorem callbackHeader_roundTrip :
    callbackHeader.WellFormed ∧
      Header.ofText? callbackHeader.signatures =
        .ok ⟨[.enum ⟨none, [⟨"A", some (.int (-9223372036854775808)), none⟩,
            ⟨"B", some (.reference "A"), none⟩]⟩,
          .function ⟨⟨false, "void", true⟩, "f",
            [⟨.function ⟨⟨false, "int", false⟩, "g", [⟨.primitive ⟨true, "char", true⟩, none⟩]⟩,
              some "callback"⟩]⟩]⟩ ∧
      callbackHeader.normal.WellFormed := by
  have read := (signatures_roundTrip callbackHeader).1 callbackHeader_wellFormed
  exact ⟨callbackHeader_wellFormed, read, (signatures_roundTrip callbackHeader.normal).2.2 _ read⟩

end InterfaceHeader
