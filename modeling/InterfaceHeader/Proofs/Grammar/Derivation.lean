import InterfaceHeader.Proofs.Grammar.DeclarationCompleteness

/-!
# Reading is deriving

A header is read exactly where the grammar derives one from the tokens that are neither blank
space nor comments, and what is read is, but for its comments, the tree of the derivation. Since
reading has one outcome, a sentence has one tree.

The budget of the choices takes part in this nowhere: the grammar has none, and whichever
alternative derives what is ahead, the choice finds the tree of that derivation, as it would if
every alternative were tried to its end.
-/

namespace InterfaceHeader

/-- The terminals of a token list: its tokens that are neither blank space nor comments. -/
def terminalsOf (tokens : List Token) : List Terminal :=
  (tokens.filter fun t => t.kind != .blank && t.kind != .comment).map Token.terminal

theorem terminals_ofTokens (tokens : List Token) :
    (Cursor.ofTokens tokens).terminals = terminalsOf tokens := by
  unfold Cursor.terminals terminals Cursor.ofTokens terminalsOf
  rw [List.filter_filter]
  congr 2
  funext t
  rw [Bool.and_comm]
  rfl

/-- The header that is read is derived, and nothing but comments is left over. -/
theorem headerForm_of_ofTokens? {tokens : List Token} {h : Header}
    (read : Header.ofTokens? tokens = .ok h) :
    HeaderForm h.withoutComments (terminalsOf tokens) := by
  unfold Header.ofTokens? Reader.outcome at read
  split at read
  · rename_i h' c' ran
    cases read
    obtain ⟨p, passes, formed, -⟩ := Reader.header_reads.ok ran
    rw [← terminals_ofTokens, passes.terminals, Reader.header_reads_all ran, List.append_nil]
    exact formed
  · cases read

/-- A header that is derived is read. -/
theorem ofTokens?_of_headerForm {tokens : List Token} {h : Header}
    (formed : HeaderForm h (terminalsOf tokens)) :
    ∃ h', Header.ofTokens? tokens = .ok h' ∧ h'.withoutComments = h := by
  rw [← terminals_ofTokens] at formed
  obtain ⟨h', c', ran, same⟩ := Reader.header_finds formed
  refine ⟨h', ?_, same⟩
  unfold Header.ofTokens?
  rw [ran]
  rfl

theorem typeForm_of_ofTokens? {tokens : List Token} {t : CType}
    (read : CType.ofTokens? tokens = .ok t) : TypeForm t (terminalsOf tokens) := by
  unfold CType.ofTokens? Reader.outcome at read
  split at read
  · rename_i t' c' ran
    cases read
    obtain ⟨p, passes, formed⟩ := Reader.wholeType_reads.ok ran
    rw [← terminals_ofTokens, passes.terminals, Reader.wholeType_reads_all ran, List.append_nil]
    exact formed
  · cases read

theorem ofTokens?_of_typeForm {tokens : List Token} {t : CType}
    (formed : TypeForm t (terminalsOf tokens)) : CType.ofTokens? tokens = .ok t := by
  rw [← terminals_ofTokens] at formed
  obtain ⟨t', c', ran, same, -⟩ := Reader.wholeType_finds formed
  unfold CType.ofTokens?
  rw [ran, same]
  rfl

/-- A sentence has one tree: the one that is read. -/
theorem headerForm_unique {tokens : List Token} {h₁ h₂ : Header}
    (first : HeaderForm h₁ (terminalsOf tokens)) (second : HeaderForm h₂ (terminalsOf tokens)) :
    h₁ = h₂ := by
  obtain ⟨h₁', read₁, rfl⟩ := ofTokens?_of_headerForm first
  obtain ⟨h₂', read₂, rfl⟩ := ofTokens?_of_headerForm second
  rw [read₁] at read₂
  cases read₂
  rfl

theorem typeForm_unique {tokens : List Token} {t₁ t₂ : CType}
    (first : TypeForm t₁ (terminalsOf tokens)) (second : TypeForm t₂ (terminalsOf tokens)) :
    t₁ = t₂ := by
  have read := ofTokens?_of_typeForm first
  rw [ofTokens?_of_typeForm second] at read
  cases read
  rfl

/-- A header is read if and only if its terminals are a sentence, and then, comments apart, as the
    tree of its only derivation; and so is a type. At each of the three choices the alternative
    that derives what is ahead is the one that is found, however far the others come. -/
theorem reading_iff_derivation (tokens : List Token) :
    (∀ h, (∃ h', Header.ofTokens? tokens = .ok h' ∧ h'.withoutComments = h) ↔
      HeaderForm h (terminalsOf tokens)) ∧
    (∀ h₁ h₂, HeaderForm h₁ (terminalsOf tokens) → HeaderForm h₂ (terminalsOf tokens) →
      h₁ = h₂) ∧
    (∀ t, CType.ofTokens? tokens = .ok t ↔ TypeForm t (terminalsOf tokens)) ∧
    (∀ t₁ t₂, TypeForm t₁ (terminalsOf tokens) → TypeForm t₂ (terminalsOf tokens) → t₁ = t₂) ∧
    (∀ c d u w, DeclarationForm d u → c.terminals = u ++ w →
      Reader.Finds Reader.declaration c (·.withoutComments? = some d) w) ∧
    (∀ c field u w, StructFieldForm field u → c.terminals = u ++ w →
      Reader.Finds Reader.structField c (·.withoutComment = field) w) ∧
    (∀ c t u w, TypeForm t u → c.terminals = u ++ w → nextKind? w ≠ some (.punct .star) →
      nextKind? w ≠ some (.punct .leftParen) → Reader.Finds Reader.type c (· = t) w) := by
  refine ⟨fun h => ⟨?_, ofTokens?_of_headerForm⟩, fun h₁ h₂ => headerForm_unique,
    fun t => ⟨typeForm_of_ofTokens?, ofTokens?_of_typeForm⟩, fun t₁ t₂ => typeForm_unique,
    fun c d u w declForm ahead => Reader.declaration_finds declForm ahead,
    fun c field u w fieldForm ahead => Reader.structField_finds fieldForm ahead, ?_⟩
  · rintro ⟨h', read, rfl⟩
    exact headerForm_of_ofTokens? read
  · intro c t u w typeForm ahead noStar noParen
    exact Reader.type_finds u.length t c u w typeForm (Nat.le_refl _) ahead noStar noParen

/-- The tokens of `typedef void (*f)(int); // last`. -/
def callbackTokens : List Token :=
  [⟨.keyword .typedef, "typedef", ⟨0, 1, 1⟩⟩, ⟨.identifier, "void", ⟨8, 1, 9⟩⟩,
    ⟨.punct .leftParen, "(", ⟨13, 1, 14⟩⟩, ⟨.punct .star, "*", ⟨14, 1, 15⟩⟩,
    ⟨.identifier, "f", ⟨15, 1, 16⟩⟩, ⟨.punct .rightParen, ")", ⟨16, 1, 17⟩⟩,
    ⟨.punct .leftParen, "(", ⟨17, 1, 18⟩⟩, ⟨.identifier, "int", ⟨18, 1, 19⟩⟩,
    ⟨.punct .rightParen, ")", ⟨21, 1, 22⟩⟩, ⟨.punct .semicolon, ";", ⟨22, 1, 23⟩⟩,
    ⟨.comment, "// last", ⟨24, 1, 25⟩⟩]

/-- What the tokens declare. -/
def callbackDeclaration : Declaration :=
  .function ⟨⟨false, "void", false⟩, "f", [⟨.primitive ⟨false, "int", false⟩, none⟩]⟩

/-- They are a sentence of one declaration, which the choice between declarations finds. -/
theorem callbackTokens_derivation :
    HeaderForm ⟨[callbackDeclaration]⟩ (terminalsOf callbackTokens) ∧
      ∃ u, DeclarationForm callbackDeclaration u ∧
        (Cursor.ofTokens callbackTokens).terminals = u ++ [] ∧
        Reader.Finds Reader.declaration (Cursor.ofTokens callbackTokens)
          (·.withoutComments? = some callbackDeclaration) [] := by
  obtain ⟨headers, _, _, _, declarations, _⟩ := reading_iff_derivation callbackTokens
  have form : HeaderForm ⟨[callbackDeclaration]⟩ (terminalsOf callbackTokens) :=
    (headers _).mp ⟨_, rfl, rfl⟩
  obtain ⟨u, derived, whole⟩ : ∃ u, DeclarationForm callbackDeclaration u ∧
      terminalsOf callbackTokens = u ++ [] := by
    generalize terminalsOf callbackTokens = all at form
    cases form with
    | cons first rest =>
        cases rest
        exact ⟨_, first, rfl⟩
  have ahead := (terminals_ofTokens callbackTokens).trans whole
  exact ⟨form, u, derived, ahead, declarations _ _ _ _ derived ahead⟩

end InterfaceHeader
