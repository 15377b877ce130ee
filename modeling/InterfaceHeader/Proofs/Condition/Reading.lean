import InterfaceHeader.Proofs.Condition.Literals

/-!
# Reading conditions is deriving them

A reader of conditions is exact for a form if it finds a condition just where the form derives it
from the words in front of a place at which the form stops. An operand stops everywhere; a chain
stops where its operator does not follow, since otherwise it would go on. Each reader is exact as
soon as there are fewer words than it can go down levels, and so the condition of a text is the one
that the grammar derives from all of its words.
-/

namespace InterfaceHeader.Condition

variable {α β : Type}

theorem bind_eq_ok {x : Reader α} {f : α → Reader β} {ws rest : List Word} {b : β} :
    (x >>= f) ws = .ok b rest ↔ ∃ a ws', x ws = .ok a ws' ∧ f a ws' = .ok b rest := by
  simp only [bind, EStateM.bind]
  cases x ws with
  | error e ws' => simp
  | ok a ws' =>
      constructor
      · intro second
        exact ⟨a, ws', rfl, second⟩
      · rintro ⟨a, ws', first, second⟩
        cases first
        exact second

theorem pure_eq_ok {ws rest : List Word} {a b : α} :
    (pure a : Reader α) ws = .ok b rest ↔ a = b ∧ ws = rest := by
  constructor
  · intro same
    cases same
    exact ⟨rfl, rfl⟩
  · rintro ⟨rfl, rfl⟩
    rfl

/-- A reader that looks at the next word. -/
theorem ifNext_apply (w : Word) (x y : Reader α) (ws : List Word) :
    (do if (← peek?) = some w then skip; x else y : Reader α) ws =
      if ws.head? = some w then x ws.tail else y ws := by
  show (if ws.head? = some w then _ else _ : Reader α) ws = _
  split <;> rfl

theorem ifNext_eq_ok {w : Word} {x y : Reader α} {ws rest : List Word} {a : α} :
    (do if (← peek?) = some w then skip; x else y : Reader α) ws = .ok a rest ↔
      (∃ ws', ws = w :: ws' ∧ x ws' = .ok a rest) ∨ (ws.head? ≠ some w ∧ y ws = .ok a rest) := by
  rw [ifNext_apply]
  split
  · rename_i next
    obtain ⟨ws', rfl⟩ := List.head?_eq_some_iff.mp next
    simp
  · rename_i other
    constructor
    · intro found
      exact Or.inr ⟨other, found⟩
    · rintro (⟨ws', rfl, -⟩ | ⟨-, found⟩)
      · exact absurd rfl other
      · exact found

theorem symbolAt_eq_ok {place : SymbolPlace} {name : String} {ws rest : List Word} :
    symbolAt place ws = .ok name rest ↔
      ws = .plain name :: rest ∧ Text.isIdentifier name.toList = true := by
  cases ws with
  | nil => exact iff_of_false nofun nofun
  | cons w ws =>
      cases w with
      | plain text =>
          have step : symbolAt place (.plain text :: ws) =
              if Text.isIdentifier text.toList then .ok text ws
              else .error (.notASymbol place (.plain text)) ws := by
            show (if Text.isIdentifier text.toList then _ else _ : Reader String) ws = _
            split <;> rfl
          rw [step]
          split
          · rename_i isName
            simp only [EStateM.Result.ok.injEq, List.cons.injEq, Word.plain.injEq]
            constructor
            · rintro ⟨rfl, rfl⟩
              exact ⟨⟨rfl, rfl⟩, isName⟩
            · rintro ⟨⟨rfl, rfl⟩, -⟩
              exact ⟨rfl, rfl⟩
          · rename_i other
            refine iff_of_false nofun ?_
            rintro ⟨same, isName⟩
            cases same
            exact other isName
      | openParen | closeParen | bang | bars | ampersands => exact iff_of_false nofun nofun

/-- A reader in front of a parenthesis that has to be closed. -/
theorem closed_eq_ok {x : Reader α} {f : α → β} {error : ConditionError} {ws rest : List Word}
    {b : β} :
    (do
      let a ← x
      if (← peek?) = some .closeParen then
        skip
        return f a
      else throw error : Reader β) ws = .ok b rest ↔
      ∃ a, x ws = .ok a (.closeParen :: rest) ∧ f a = b := by
  rw [bind_eq_ok]
  constructor
  · rintro ⟨a, ws', read, next⟩
    rw [ifNext_eq_ok] at next
    rcases next with ⟨ws'', rfl, same⟩ | ⟨-, thrown⟩
    · obtain ⟨rfl, rfl⟩ := pure_eq_ok.mp same
      exact ⟨a, read, rfl⟩
    · cases thrown
  · rintro ⟨a, read, rfl⟩
    refine ⟨a, _, read, ?_⟩
    rw [ifNext_eq_ok]
    exact Or.inl ⟨rest, rfl, rfl⟩

theorem map_eq_ok {x : Reader α} {f : α → β} {ws rest : List Word} {b : β} :
    (do return f (← x) : Reader β) ws = .ok b rest ↔ ∃ a, x ws = .ok a rest ∧ f a = b := by
  rw [bind_eq_ok]
  constructor
  · rintro ⟨a, ws', read, same⟩
    obtain ⟨rfl, rfl⟩ := pure_eq_ok.mp same
    exact ⟨a, read, rfl⟩
  · rintro ⟨a, read, rfl⟩
    exact ⟨a, rest, read, rfl⟩

theorem definedQuestion_eq_ok {e : Condition} {ws rest : List Word} :
    definedQuestion ws = .ok e rest ↔ ∃ name, Text.isIdentifier name.toList = true ∧
      e = .defined name ∧
      (ws = .plain name :: rest ∨ ws = .openParen :: .plain name :: .closeParen :: rest) := by
  unfold definedQuestion
  rw [ifNext_eq_ok]
  simp only [closed_eq_ok, map_eq_ok, symbolAt_eq_ok]
  constructor
  · rintro (⟨_, rfl, name, ⟨rfl, isName⟩, rfl⟩ | ⟨-, name, ⟨rfl, isName⟩, rfl⟩)
    · exact ⟨name, isName, rfl, Or.inr rfl⟩
    · exact ⟨name, isName, rfl, Or.inl rfl⟩
  · rintro ⟨name, isName, rfl, rfl | rfl⟩
    · exact Or.inr ⟨by simp, name, ⟨rfl, isName⟩, rfl⟩
    · exact Or.inl ⟨_, rfl, name, ⟨rfl, isName⟩, rfl⟩

theorem operand_openParen {inner : Reader Condition} {ws rest : List Word} {e : Condition} :
    operand inner (.openParen :: ws) = .ok e rest ↔ inner ws = .ok e (.closeParen :: rest) := by
  refine Iff.trans (closed_eq_ok (f := id)) ?_
  constructor
  · rintro ⟨_, read, rfl⟩
    exact read
  · intro read
    exact ⟨e, read, rfl⟩

theorem operand_defined (inner : Reader Condition) (ws : List Word) :
    operand inner (.plain "defined" :: ws) = definedQuestion ws := rfl

/-- A word that starts with a digit has to be a literal. -/
theorem operand_digits {inner : Reader Condition} {text : String} {ws rest : List Word}
    {e : Condition} (digit : startsWithDigit text = true) :
    operand inner (.plain text :: ws) = .ok e rest ↔
      ws = rest ∧ ∃ value, IsLiteral text value ∧ e = .constant (decide (value ≠ 0)) := by
  have question : text ≠ "defined" := by
    rintro rfl
    cases digit
  have step : operand inner (.plain text :: ws) =
      (constant? text).elim (.error (.invalidInteger text) (.plain text :: ws))
        fun value => .ok (.constant (decide (value ≠ 0))) ws := by
    show (if text = "defined" then _ else if startsWithDigit text then _ else _ :
      Reader Condition) _ = _
    rw [if_neg question, if_pos digit]
    cases constant? text <;> rfl
  rw [step]
  constructor
  · intro read
    cases found : constant? text with
    | none =>
        rw [found] at read
        cases read
    | some word =>
        rw [found] at read
        cases read
        obtain ⟨value, literal, same⟩ := constant?_iff.mp ⟨digit, word, found, rfl⟩
        exact ⟨rfl, value, literal, by rw [same]⟩
  · rintro ⟨rfl, value, literal, rfl⟩
    obtain ⟨-, word, found, same⟩ := constant?_iff.mpr ⟨value, literal, rfl⟩
    rw [found, ← same]
    rfl

/-- Any other plain word has to be a symbol. -/
theorem operand_symbol {inner : Reader Condition} {text : String} {ws rest : List Word}
    {e : Condition} (question : text ≠ "defined") (digit : startsWithDigit text = false) :
    operand inner (.plain text :: ws) = .ok e rest ↔
      ws = rest ∧ Text.isIdentifier text.toList = true ∧ e = .symbol text := by
  have step : operand inner (.plain text :: ws) =
      (do return .symbol (← symbolAt .expression) : Reader Condition) (.plain text :: ws) := by
    show (if text = "defined" then _ else if startsWithDigit text then _ else _ :
      Reader Condition) _ = _
    rw [if_neg question, if_neg (by simp [digit])]
  rw [step, map_eq_ok]
  simp only [symbolAt_eq_ok]
  constructor
  · rintro ⟨name, ⟨same, isName⟩, rfl⟩
    cases same
    exact ⟨rfl, isName, rfl⟩
  · rintro ⟨rfl, isName, rfl⟩
    exact ⟨text, ⟨rfl, isName⟩, rfl⟩

/-- The reader finds just the conditions of a form, in front of words at which the form stops, as
    long as there are fewer than so many words. -/
def Exact (r : Reader Condition) (bound : Nat) (form : Condition → List Word → Prop)
    (stops : List Word → Prop) : Prop :=
  ∀ ws, ws.length < bound → ∀ e rest,
    r ws = .ok e rest ↔ ∃ u, ws = u ++ rest ∧ form e u ∧ stops rest

/-- No operator goes on here. -/
def EndsAlternatives (rest : List Word) : Prop :=
  rest.head? ≠ some .ampersands ∧ rest.head? ≠ some .bars

theorem operand_reads {inner : Reader Condition} {bound : Nat}
    (exact : Exact inner bound AlternativesForm EndsAlternatives) {ws rest : List Word}
    (short : ws.length < bound + 1) {e : Condition} (read : operand inner ws = .ok e rest) :
    ∃ u, ws = u ++ rest ∧ OperandForm e u := by
  cases ws with
  | nil => cases read
  | cons w ws =>
      have fewer : ws.length < bound := by simpa using short
      cases w with
      | openParen =>
          rw [operand_openParen, exact ws fewer] at read
          obtain ⟨u, rfl, form, -⟩ := read
          exact ⟨.openParen :: (u ++ [.closeParen]), by simp, .parenthesised form⟩
      | plain text =>
          by_cases question : text = "defined"
          · subst question
            rw [operand_defined, definedQuestion_eq_ok] at read
            obtain ⟨name, isName, rfl, rfl | rfl⟩ := read
            · exact ⟨_, rfl, .defined isName⟩
            · exact ⟨_, rfl, .definedParenthesised isName⟩
          · cases digit : startsWithDigit text with
            | true =>
                obtain ⟨rfl, value, literal, rfl⟩ := (operand_digits digit).mp read
                exact ⟨[.plain text], rfl, .constant literal⟩
            | false =>
                obtain ⟨rfl, isName, rfl⟩ := (operand_symbol question digit).mp read
                exact ⟨[.plain text], rfl, .symbol isName question⟩
      | closeParen | bang | bars | ampersands => cases read

theorem operand_finds {inner : Reader Condition} {bound : Nat}
    (exact : Exact inner bound AlternativesForm EndsAlternatives) {u rest : List Word}
    (short : (u ++ rest).length < bound + 1) {e : Condition} (form : OperandForm e u) :
    operand inner (u ++ rest) = .ok e rest := by
  cases form with
  | @parenthesised _ u form =>
      have fewer : (u ++ .closeParen :: rest).length < bound := by
        simp only [List.length_cons, List.length_append, List.length_nil] at short ⊢
        omega
      rw [List.cons_append, List.append_assoc, operand_openParen]
      exact (exact _ fewer _ _).mpr ⟨u, rfl, form, by simp [EndsAlternatives]⟩
  | defined isName => exact definedQuestion_eq_ok.mpr ⟨_, isName, rfl, Or.inl rfl⟩
  | definedParenthesised isName => exact definedQuestion_eq_ok.mpr ⟨_, isName, rfl, Or.inr rfl⟩
  | constant literal =>
      exact (operand_digits (startsWithDigit_of_isLiteral literal)).mpr ⟨rfl, _, literal, rfl⟩
  | symbol isName question =>
      exact (operand_symbol question (startsWithDigit_of_isIdentifier isName)).mpr
        ⟨rfl, isName, rfl⟩

/-- As many negations as there are words are enough. -/
theorem negation_exact {inner : Reader Condition} {bound : Nat}
    (exact : Exact inner bound AlternativesForm EndsAlternatives) (n : Nat) {ws : List Word}
    (short : ws.length < bound + 1) (fits : ws.length ≤ n) {e : Condition} {rest : List Word} :
    negation inner n ws = .ok e rest ↔ ∃ u, ws = u ++ rest ∧ NegationForm e u := by
  induction n generalizing ws e rest with
  | zero =>
      obtain rfl := List.length_eq_zero_iff.mp (Nat.le_zero.mp fits)
      refine iff_of_false nofun ?_
      rintro ⟨u, whole, form⟩
      exact form.ne_nil (List.append_eq_nil_iff.mp whole.symm).1
  | succ n ih =>
      rw [negation, ifNext_eq_ok]
      simp only [map_eq_ok]
      constructor
      · rintro (⟨ws, rfl, e, read, rfl⟩ | ⟨-, read⟩)
        · rw [List.length_cons] at short fits
          obtain ⟨u, rfl, form⟩ := (ih (by omega) (by omega)).mp read
          exact ⟨.bang :: u, rfl, .not form⟩
        · obtain ⟨u, rfl, form⟩ := operand_reads exact short read
          exact ⟨u, rfl, .operand form⟩
      · rintro ⟨u, rfl, form⟩
        cases form with
        | @not e u form =>
            rw [List.cons_append, List.length_cons] at short fits
            exact Or.inl ⟨u ++ rest, rfl, e, (ih (by omega) (by omega)).mpr ⟨u, rfl, form⟩, rfl⟩
        | operand form =>
            refine Or.inr ⟨?_, operand_finds exact short form⟩
            obtain ⟨w, v, rfl, other⟩ := form.start
            simpa using other

section Chain

variable {operator : Word} {join : Condition → Condition → Condition} {item : Reader Condition}
  {bound : Nat} {form : Condition → List Word → Prop} {stops : List Word → Prop}

theorem chainFrom_stop (n : Nat) (left : Condition) {ws : List Word}
    (other : ws.head? ≠ some operator) : chainFrom operator join item n left ws = .ok left ws := by
  cases n with
  | zero => rfl
  | succ n =>
      rw [chainFrom, ifNext_eq_ok]
      exact Or.inr ⟨other, rfl⟩

theorem chainFrom_next (n : Nat) (left : Condition) {right : Condition} {ws rest : List Word}
    (read : item ws = .ok right rest) :
    chainFrom operator join item (n + 1) left (operator :: ws) =
      chainFrom operator join item n (join left right) rest := by
  rw [chainFrom, ifNext_apply, if_pos List.head?_cons, List.tail_cons]
  simp only [bind, EStateM.bind, read]

/-- Further items are joined to what stands on the left of them, however much that is. -/
theorem chainFrom_reads (exact : Exact item bound form stops) (n : Nat) {left e : Condition}
    {ws rest before : List Word} (short : ws.length < bound) (fits : ws.length ≤ n)
    (derived : ChainForm operator join form left before) (stopped : stops ws)
    (read : chainFrom operator join item n left ws = .ok e rest) :
    ∃ u, ws = u ++ rest ∧ ChainForm operator join form e (before ++ u) ∧ stops rest ∧
      rest.head? ≠ some operator := by
  induction n generalizing left ws before with
  | zero =>
      obtain rfl := List.length_eq_zero_iff.mp (Nat.le_zero.mp fits)
      cases read
      exact ⟨[], rfl, by rwa [List.append_nil], stopped, nofun⟩
  | succ n ih =>
      rw [chainFrom, ifNext_eq_ok] at read
      rcases read with ⟨ws, rfl, read⟩ | ⟨other, same⟩
      · rw [List.length_cons] at short fits
        obtain ⟨right, ws, first, later⟩ := bind_eq_ok.mp read
        obtain ⟨v, rfl, item, stopped⟩ := (exact _ (by omega) _ _).mp first
        rw [List.length_append] at short fits
        obtain ⟨u, rfl, whole, ends⟩ := ih (by omega) (by omega) (.more derived item) stopped later
        exact ⟨operator :: (v ++ u), by simp, by simpa using whole, ends⟩
      · cases same
        exact ⟨[], rfl, by rwa [List.append_nil], stopped, other⟩

/-- A chain that is derived has been read when its last item has, and then the rest is left. -/
theorem chain_run (exact : Exact item bound form stops)
    (goesOn : ∀ ws, stops (operator :: ws)) {e : Condition} {u : List Word}
    (derived : ChainForm operator join form e u) {rest : List Word}
    (short : (u ++ rest).length < bound) (stopped : stops rest) :
    ∃ n, rest.length ≤ n ∧
      chain operator join item (u ++ rest) = chainFrom operator join item n e rest := by
  induction derived generalizing rest with
  | @one e u form =>
      have read := (exact _ short e rest).mpr ⟨u, rfl, form, stopped⟩
      refine ⟨rest.length, Nat.le_refl _, ?_⟩
      simp only [chain, bind, EStateM.bind, read]
      rfl
  | @more left right u v _ item ih =>
      rw [List.append_assoc, List.cons_append] at short ⊢
      obtain ⟨n, fits, run⟩ := ih short (goesOn _)
      rw [List.length_append, List.length_cons] at short
      rw [List.length_cons, List.length_append] at fits
      obtain ⟨n, rfl⟩ : ∃ m, n = m + 1 := ⟨n - 1, by omega⟩
      have read := (exact (v ++ rest) (by omega) right rest).mpr ⟨v, rfl, item, stopped⟩
      exact ⟨n, by omega, by rw [run, chainFrom_next n left read]⟩

variable (operator join) in
theorem chain_exact (exact : Exact item bound form stops)
    (goesOn : ∀ ws, stops (operator :: ws)) :
    Exact (chain operator join item) bound (ChainForm operator join form)
      (fun rest => stops rest ∧ rest.head? ≠ some operator) := by
  intro ws short e rest
  constructor
  · intro read
    obtain ⟨first, behind, read, later⟩ := bind_eq_ok.mp read
    obtain ⟨u, rfl, item, stopped⟩ := (exact _ short _ _).mp read
    rw [List.length_append] at short
    obtain ⟨v, rfl, derived, ends⟩ :=
      chainFrom_reads exact behind.length (by omega) (Nat.le_refl _) (.one item) stopped later
    exact ⟨u ++ v, by rw [List.append_assoc], derived, ends⟩
  · rintro ⟨u, rfl, derived, stopped, other⟩
    obtain ⟨n, -, run⟩ := chain_run exact goesOn derived short stopped
    rw [run, chainFrom_stop n e other]

end Chain

theorem nested_exact (levels : Nat) :
    Exact (nested levels) levels AlternativesForm EndsAlternatives := by
  induction levels with
  | zero =>
      intro ws short
      cases short
  | succ levels ih =>
      have negations : Exact (do negation (nested levels) (← get).length) (levels + 1)
          NegationForm (fun _ => True) := by
        intro ws short e rest
        simp only [and_true]
        exact negation_exact ih ws.length short (Nat.le_refl _)
      have conjunctions := chain_exact .ampersands .and negations fun _ => trivial
      have alternatives := chain_exact .bars .or conjunctions fun _ => ⟨trivial, nofun⟩
      intro ws short e rest
      refine (alternatives ws short e rest).trans ?_
      simp only [true_and, EndsAlternatives]

/-- The condition at the front of words is the one that the grammar derives from words behind which
    no operator goes on. -/
theorem leading_eq_ok {ws rest : List Word} {e : Condition} :
    leading ws = .ok e rest ↔ ∃ u, ws = u ++ rest ∧ AlternativesForm e u ∧ EndsAlternatives rest :=
  nested_exact (ws.length + 1) ws (Nat.lt_succ_self _) e rest

/-- A text is a condition just if its words derive one. -/
theorem ofText?_eq_ok_iff {text : List Char} {e : Condition} :
    Condition.ofText? text = .ok e ↔ AlternativesForm e (words text) := by
  unfold Condition.ofText? ConditionSource.read ConditionSource.ofText
  dsimp only
  split
  · rename_i empty
    rw [empty]
    exact iff_of_false nofun fun form => form.ne_nil (·.ne_nil NegationForm.ne_nil) rfl
  · have whole : leading (words text) = .ok e [] ↔ AlternativesForm e (words text) := by
      rw [leading_eq_ok]
      simp [EndsAlternatives]
    rw [← whole]
    split
    · rename_i read
      simp [read]
    · rename_i read
      simp [read]
    · rename_i read
      simp [read]

theorem alternativesForm_unique {e e' : Condition} {ws : List Word} (form : AlternativesForm e ws)
    (form' : AlternativesForm e' ws) : e = e' := by
  have read := leading_eq_ok.mpr ⟨ws, (List.append_nil ws).symm, form, by simp [EndsAlternatives]⟩
  have read' := leading_eq_ok.mpr ⟨ws, (List.append_nil ws).symm, form', by simp [EndsAlternatives]⟩
  rw [read] at read'
  cases read'
  rfl

end InterfaceHeader.Condition
