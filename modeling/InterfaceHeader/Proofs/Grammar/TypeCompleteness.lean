import InterfaceHeader.Proofs.Grammar.Search

/-!
# Types of the grammar are found

On a cursor whose next terminals are derived as a type, the readers of types find the type of the
derivation, provided that what follows cannot continue it. A primitive type is tried as a function
type first; it takes at most three terminals to see that it is none, so the choice always goes on.
-/

namespace InterfaceHeader.Reader

theorem length_of_optionalToken {kind : TokenKind} {present : Bool} {u : List Terminal}
    (optional : OptionalToken kind present u) : u.length ≤ 1 := by
  cases optional <;> simp

theorem length_of_primitiveForm {p : Primitive} {u : List Terminal} (formed : PrimitiveForm p u) :
    1 ≤ u.length ∧ u.length ≤ 3 := by
  cases formed with
  | intro name constForm starForm =>
      have := length_of_optionalToken constForm
      have := length_of_optionalToken starForm
      simp only [List.length_append, List.length_cons]
      omega

/-- A primitive type starts with `const` or a name. -/
theorem nextKind?_of_primitiveForm {p : Primitive} {u : List Terminal} (formed : PrimitiveForm p u)
    (w : List Terminal) :
    nextKind? (u ++ w) = some (.keyword .const) ∨ nextKind? (u ++ w) = some .identifier := by
  cases formed with
  | intro name constForm starForm =>
      cases constForm with
      | absent => exact Or.inr rfl
      | present lexeme => exact Or.inl rfl

theorem nextKind?_of_signatureForm {form : List Argument → List Terminal → Prop}
    {f : FunctionType} {u : List Terminal} (formed : SignatureForm form f u) (w : List Terminal) :
    nextKind? (u ++ w) = some (.keyword .const) ∨ nextKind? (u ++ w) = some .identifier := by
  cases formed with
  | intro left right typeForm nameForm argumentsForm =>
      rw [List.append_assoc]
      exact nextKind?_of_primitiveForm typeForm _

theorem nextKind?_of_argumentForm {a : Argument} {u : List Terminal} (formed : ArgumentForm a u)
    (w : List Terminal) :
    nextKind? (u ++ w) = some (.keyword .const) ∨ nextKind? (u ++ w) = some .identifier := by
  cases formed with
  | intro typeForm nameForm =>
      rw [List.append_assoc]
      cases typeForm with
      | function functionForm => exact nextKind?_of_signatureForm functionForm _
      | primitive primitiveForm => exact nextKind?_of_primitiveForm primitiveForm _

theorem nextKind?_of_argumentsForm {as : List Argument} {u : List Terminal}
    (formed : CommaForm ArgumentForm as u) (w : List Terminal) :
    nextKind? (u ++ w) = some (.keyword .const) ∨ nextKind? (u ++ w) = some .identifier := by
  cases formed with
  | one argumentForm => exact nextKind?_of_argumentForm argumentForm w
  | cons comma argumentForm moreForm =>
      rw [List.append_assoc]
      exact nextKind?_of_argumentForm argumentForm _

theorem primitive_finds {p : Primitive} {c : Cursor} {u w : List Terminal}
    (formed : PrimitiveForm p u) (ahead : c.terminals = u ++ w)
    (noStar : nextKind? w ≠ some (.punct .star)) : Finds primitive c (· = p) w := by
  cases formed with
  | intro name constForm starForm =>
      rw [List.append_assoc] at ahead
      refine (accept_finds_optional constForm ahead (by simp)).bind
        fun const? c₁ constFound ahead₁ => ?_
      refine (accept_finds ahead₁).bind fun name? c₂ nameFound ahead₂ => ?_
      cases name? with
      | none => cases nameFound
      | some t =>
          refine (accept_finds_optional starForm ahead₂ noStar).bind
            fun star? c₃ starFound ahead₃ => ?_
          refine .pure ?_ ahead₃
          cases nameFound
          rw [constFound, starFound]

/-- Where a type is to be read there has to be `const` or a name. -/
theorem primitive_fails {c : Cursor} (noConst : nextKind? c.terminals ≠ some (.keyword .const))
    (noName : nextKind? c.terminals ≠ some .identifier) :
    FailsBefore primitive c c.terminals := by
  refine (accept_finds_none noConst).bind_fails fun const? c₁ constFound ahead₁ => ?_
  rw [← ahead₁] at noName ⊢
  refine (accept_finds_none noName).bind_fails fun name? c₂ nameFound ahead₂ => ?_
  subst constFound nameFound
  rw [← ahead₂]
  exact ⟨_, c₂, rfl, rfl⟩

theorem pointerName_finds {name : String} {c : Cursor} {u w : List Terminal}
    (formed : PointerForm name u) (ahead : c.terminals = u ++ w) :
    Finds pointerName c (· = name) w := by
  cases formed with
  | intro left star name right =>
      refine (punct_finds ahead).bind fun _ c₁ _ ahead₁ => ?_
      refine (punct_finds ahead₁).bind fun _ c₂ _ ahead₂ => ?_
      refine (identifier_finds ahead₂).bind fun found c₃ same ahead₃ => ?_
      exact (punct_finds ahead₃).bind fun _ c₄ _ ahead₄ => .pure same ahead₄

/-- The reader finds all types of at most `n` terminals, unless a star or a parenthesis
    follows. -/
def FindsTypes (type : Reader CType) (n : Nat) : Prop :=
  ∀ (t : CType) (c : Cursor) (u w : List Terminal), TypeForm t u → u.length ≤ n →
    c.terminals = u ++ w → nextKind? w ≠ some (.punct .star) →
    nextKind? w ≠ some (.punct .leftParen) → Finds type c (· = t) w

/-- The reader finds all arguments of at most `n` terminals in front of a comma or the closing
    parenthesis. -/
def FindsArguments (argument : Reader Argument) (n : Nat) : Prop :=
  ∀ (a : Argument) (c : Cursor) (u w : List Terminal), ArgumentForm a u → u.length ≤ n →
    c.terminals = u ++ w →
    nextKind? w = some (.punct .comma) ∨ nextKind? w = some (.punct .rightParen) →
    Finds argument c (· = a) w

theorem argumentOf_finds {type : Reader CType} {n : Nat} (finds : FindsTypes type n) :
    FindsArguments (argumentOf type) n := by
  intro a c u w formed fits ahead follows
  cases formed with
  | @intro t name u v typeForm nameForm =>
      rw [List.append_assoc] at ahead
      rw [List.length_append] at fits
      have further : nextKind? (v ++ w) ≠ some (.punct .star) ∧
          nextKind? (v ++ w) ≠ some (.punct .leftParen) := by
        cases nameForm with
        | absent => rcases follows with follows | follows <;> simp [follows]
        | present name => simp
      refine (finds t c u (v ++ w) typeForm (by omega) ahead further.1 further.2).bind
        fun found c₁ same ahead₁ => ?_
      refine (accept_finds_name nameForm ahead₁ ?_).bind
        fun name? c₂ nameFound ahead₂ => .pure ?_ ahead₂
      · rcases follows with follows | follows <;> simp [follows]
      · rw [same, nameFound]

theorem moreArguments_finds_nil {argument : Reader Argument} (k : Nat) {c : Cursor}
    (ahead : nextKind? c.terminals = some (.punct .rightParen)) :
    Finds (moreArguments argument k) c (· = []) c.terminals := by
  cases k with
  | zero => exact .pure rfl rfl
  | succ k =>
      refine (accept_finds_none (by simp [ahead])).bind fun comma? c₁ noComma ahead₁ => ?_
      subst noComma
      exact .pure rfl ahead₁

theorem moreArguments_finds {argument : Reader Argument} {n : Nat}
    (finds : FindsArguments argument n) {as : List Argument} {u w : List Terminal}
    (formed : CommaForm ArgumentForm as u) (fits : u.length ≤ n)
    (follows : nextKind? w = some (.punct .rightParen)) {k : Nat} (rounds : u.length < k)
    {comma : String} {c : Cursor} (ahead : c.terminals = ⟨.punct .comma, comma⟩ :: (u ++ w)) :
    Finds (moreArguments argument k) c (· = as) w := by
  induction formed generalizing k comma c with
  | @one a u argumentForm =>
      cases k with
      | zero => omega
      | succ k =>
          refine (accept_finds ahead).bind fun comma? c₁ commaFound ahead₁ => ?_
          cases comma? with
          | none => cases commaFound
          | some t =>
              refine (finds a c₁ u w argumentForm fits ahead₁ (Or.inr follows)).bind
                fun found c₂ sameFirst ahead₂ => ?_
              rw [← ahead₂] at follows ⊢
              refine (moreArguments_finds_nil k follows).bind
                fun rest c₃ sameRest ahead₃ => .pure ?_ ahead₃
              rw [sameFirst, sameRest]
  | @cons a as u v comma' argumentForm formed ih =>
      rw [List.append_assoc, List.cons_append] at ahead
      rw [List.length_append, List.length_cons] at fits rounds
      cases k with
      | zero => omega
      | succ k =>
          refine (accept_finds ahead).bind fun comma? c₁ commaFound ahead₁ => ?_
          cases comma? with
          | none => cases commaFound
          | some t =>
              refine (finds a c₁ u _ argumentForm (by omega) ahead₁ (Or.inl rfl)).bind
                fun found c₂ sameFirst ahead₂ => ?_
              refine (ih (by omega) (by omega) ahead₂).bind
                fun rest c₃ sameRest ahead₃ => .pure ?_ ahead₃
              rw [sameFirst, sameRest]

theorem argumentList_finds {argument : Reader Argument} {n : Nat}
    (finds : FindsArguments argument n) {as : List Argument} {c : Cursor}
    {u w : List Terminal} (formed : CommaForm ArgumentForm as u) (fits : u.length ≤ n)
    (ahead : c.terminals = u ++ w) (follows : nextKind? w = some (.punct .rightParen)) :
    Finds (argumentList argument) c (· = as) w := by
  cases formed with
  | @one a u argumentForm =>
      refine (finds a c u w argumentForm fits ahead (Or.inr follows)).bind
        fun found c₁ sameFirst ahead₁ => ?_
      refine (get_finds c₁).bind fun c₁' c₂ _ ahead₂ => ?_
      rw [← ahead₁, ← ahead₂] at follows ⊢
      refine (moreArguments_finds_nil _ follows).bind fun rest c₃ sameRest ahead₃ => .pure ?_ ahead₃
      rw [sameFirst, sameRest]
  | @cons a as u v comma argumentForm formed =>
      rw [List.append_assoc, List.cons_append] at ahead
      rw [List.length_append, List.length_cons] at fits
      refine (finds a c u _ argumentForm (by omega) ahead (Or.inl rfl)).bind
        fun found c₁ sameFirst ahead₁ => ?_
      refine (get_finds c₁).bind fun c₁' c₂ here ahead₂ => ?_
      have rounds : v.length < c₁'.ahead.length := by
        have lengths := congrArg List.length ahead₁
        rw [List.length_cons, List.length_append] at lengths
        have := c₁.length_terminals_le
        rw [here]
        omega
      refine (moreArguments_finds finds formed (by omega) follows rounds (ahead₂.trans ahead₁)).bind
        fun rest c₃ sameRest ahead₃ => .pure ?_ ahead₃
      rw [sameFirst, sameRest]

/-- The arguments found are those up to the closing parenthesis. -/
theorem signature_finds {arguments : Reader (List Argument)}
    {form : List Argument → List Terminal → Prop} {f : FunctionType} {c : Cursor}
    {u w : List Terminal} (formed : SignatureForm form f u) (ahead : c.terminals = u ++ w)
    (finds : ∀ as c v x, form as v → v.length < u.length →
      c.terminals = v ++ ⟨.punct .rightParen, x⟩ :: w →
      Finds arguments c (· = as) (⟨.punct .rightParen, x⟩ :: w)) :
    Finds (signature arguments) c (· = f) w := by
  cases formed with
  | @intro type name as u v z left right typeForm nameForm argumentsForm =>
      simp only [List.append_assoc, List.cons_append, List.nil_append] at ahead
      have noStar (z' : List Terminal) : nextKind? (v ++ z') ≠ some (.punct .star) := by
        cases nameForm
        simp
      refine (primitive_finds typeForm ahead (noStar _)).bind fun type' c₁ sameType ahead₁ => ?_
      refine (pointerName_finds nameForm ahead₁).bind fun name' c₂ sameName ahead₂ => ?_
      refine (punct_finds ahead₂).bind fun _ c₃ _ ahead₃ => ?_
      refine (finds as c₃ z right argumentsForm ?_ ahead₃).bind
        fun as' c₄ sameArguments ahead₄ => ?_
      · simp only [List.length_append, List.length_cons, List.length_nil]
        omega
      refine (punct_finds ahead₄).bind fun _ c₅ _ ahead₅ => .pure ?_ ahead₅
      rw [sameType, sameName, sameArguments]

theorem arguments_finds {argument : Reader Argument} {n : Nat}
    (finds : FindsArguments argument n) {as : List Argument} {c : Cursor}
    {u w : List Terminal} {x : String} (formed : PossiblyForm (CommaForm ArgumentForm) as u)
    (fits : u.length ≤ n) (ahead : c.terminals = u ++ ⟨.punct .rightParen, x⟩ :: w) :
    Finds (arguments argument) c (· = as) (⟨.punct .rightParen, x⟩ :: w) := by
  refine (isAt_finds c _).bind fun close c₁ closes ahead₁ => ?_
  cases formed with
  | empty =>
      rw [ahead] at closes ahead₁
      subst closes
      exact .pure rfl ahead₁
  | some formed =>
      have opened : nextKind? c.terminals ≠ some (.punct .rightParen) := by
        rw [ahead]
        rcases nextKind?_of_argumentsForm formed (⟨.punct .rightParen, x⟩ :: w)
          with start | start <;> simp [start]
      rw [decide_eq_false opened] at closes
      subst closes
      exact argumentList_finds finds formed fits (ahead₁.trans ahead) rfl

/-- A function type is no primitive type in front of anything but a parenthesis, and a reader of
    function types notices within the budget. -/
theorem signature_fails {arguments : Reader (List Argument)} {p : Primitive} {c : Cursor}
    {u w : List Terminal} (formed : PrimitiveForm p u) (ahead : c.terminals = u ++ w)
    (noStar : nextKind? w ≠ some (.punct .star))
    (noParen : nextKind? w ≠ some (.punct .leftParen)) :
    FailsBefore (signature arguments) c w := by
  refine (primitive_finds formed ahead noStar).bind_fails fun p' c₁ _ ahead₁ => ?_
  subst ahead₁
  exact ((punct_fails noParen).bind _).bind _

theorem typeAt_finds (levels : Nat) : FindsTypes (typeAt levels) levels := by
  induction levels with
  | zero =>
      intro t c u w formed fits
      have nonempty : 1 ≤ u.length := by
        cases formed with
        | primitive primitiveForm => exact (length_of_primitiveForm primitiveForm).1
        | function functionForm =>
            cases functionForm
            simp only [List.length_append, List.length_cons]
            omega
      omega
  | succ levels ih =>
      intro t c u w formed fits ahead noStar noParen
      cases formed with
      | function functionForm =>
          apply choose_finds_first
          refine (signature_finds functionForm ahead ?_).bind
            fun f' c₁ same ahead₁ => .pure ?_ ahead₁
          · intro as c v x argumentsForm shorter ahead
            exact arguments_finds (argumentOf_finds ih) argumentsForm (by omega) ahead
          · rw [same]
      | primitive primitiveForm =>
          refine choose_finds_later (v := w) ?_ ?_ (choose_finds_first ?_)
          · exact (signature_fails primitiveForm ahead noStar noParen).bind _
          · have := (length_of_primitiveForm primitiveForm).2
            rw [ahead, List.length_append, lookahead]
            omega
          · refine (primitive_finds primitiveForm ahead noStar).bind
              fun p' c₁ same ahead₁ => .pure ?_ ahead₁
            rw [same]

/-- As many levels as there are tokens ahead are enough for every type among them. -/
theorem type_finds (n : Nat) : FindsTypes type n := by
  intro t c u w formed _ ahead noStar noParen
  refine (get_finds c).bind fun c' c₁ here ahead₁ => ?_
  have enough : u.length ≤ c'.ahead.length := by
    have := c.length_terminals_le
    rw [ahead, List.length_append] at this
    rw [here]
    omega
  exact typeAt_finds c'.ahead.length t c₁ u w formed enough (ahead₁.trans ahead) noStar noParen

theorem argument_finds (n : Nat) : FindsArguments argument n :=
  argumentOf_finds (type_finds n)

theorem functionType_finds {f : FunctionType} {c : Cursor} {u w : List Terminal}
    (formed : FunctionForm f u) (ahead : c.terminals = u ++ w) : Finds functionType c (· = f) w :=
  signature_finds formed ahead fun _ _ v _ argumentsForm _ ahead' =>
    arguments_finds (argument_finds v.length) argumentsForm (Nat.le_refl _) ahead'

theorem wholeType_finds {t : CType} {c : Cursor} (formed : TypeForm t c.terminals) :
    Finds wholeType c (· = t) [] := by
  refine (type_finds _ t c c.terminals [] formed (Nat.le_refl _) (List.append_nil _).symm
    (by simp) (by simp)).bind fun t' c₁ same ahead₁ => ?_
  refine (get_finds c₁).bind fun c' c₂ here ahead₂ => ?_
  have ended : c'.next? = none := by
    have kind := c₁.next?_kind
    rw [ahead₁, nextKind?_nil, Option.map_eq_none_iff] at kind
    rw [here, kind]
  rw [ended]
  exact .pure same (ahead₂.trans ahead₁)

end InterfaceHeader.Reader
