import InterfaceHeader.Condition.Reader

/-!
# The grammar of conditions

Each form relates a condition to the words that spell it, one constructor for each production.
Alternatives bind more loosely than conjunctions, and both are grouped to the left: what stands on
the left of an operator may itself be joined by it, what stands on the right is a single item.
-/

namespace InterfaceHeader

/-- An unsigned decimal literal with a value in the 64-bit range, and suffix letters behind it. -/
def IsLiteral (text : String) (value : Nat) : Prop :=
  ∃ digits suffix, text.toList = digits ++ suffix ∧ Decimal.readDigits? digits = some value ∧
    value ≤ 9223372036854775807 ∧ suffix.all Condition.isSuffix = true

/-- `item (operator item)*`, grouped to the left. -/
inductive ChainForm (operator : Word) (join : Condition → Condition → Condition)
    (item : Condition → List Word → Prop) : Condition → List Word → Prop
  | one {condition : Condition} {u : List Word} : item condition u →
      ChainForm operator join item condition u
  | more {left right : Condition} {u v : List Word} : ChainForm operator join item left u →
      item right v → ChainForm operator join item (join left right) (u ++ operator :: v)

mutual

/-- `'!' Negation | Operand` -/
inductive NegationForm : Condition → List Word → Prop
  | not {condition : Condition} {u : List Word} : NegationForm condition u →
      NegationForm (.not condition) (.bang :: u)
  | operand {condition : Condition} {u : List Word} : OperandForm condition u →
      NegationForm condition u

/-- `'(' Alternatives ')' | 'defined' Ident | 'defined' '(' Ident ')' | Literal | Ident` -/
inductive OperandForm : Condition → List Word → Prop
  | parenthesised {condition : Condition} {u : List Word} :
      ChainForm .bars .or (ChainForm .ampersands .and NegationForm) condition u →
        OperandForm condition (.openParen :: (u ++ [.closeParen]))
  | defined {name : String} : Text.isIdentifier name.toList = true →
      OperandForm (.defined name) [.plain "defined", .plain name]
  | definedParenthesised {name : String} : Text.isIdentifier name.toList = true →
      OperandForm (.defined name) [.plain "defined", .openParen, .plain name, .closeParen]
  | constant {text : String} {value : Nat} : IsLiteral text value →
      OperandForm (.constant (decide (value ≠ 0))) [.plain text]
  | symbol {name : String} : Text.isIdentifier name.toList = true → name ≠ "defined" →
      OperandForm (.symbol name) [.plain name]

end

/-- `Negation ('&&' Negation)*` -/
abbrev ConjunctionForm : Condition → List Word → Prop :=
  ChainForm .ampersands .and NegationForm

/-- `Conjunction ('||' Conjunction)*` -/
abbrev AlternativesForm : Condition → List Word → Prop :=
  ChainForm .bars .or ConjunctionForm

theorem OperandForm.start {condition : Condition} {u : List Word} (form : OperandForm condition u) :
    ∃ w v, u = w :: v ∧ w ≠ .bang := by
  cases form <;> exact ⟨_, _, rfl, nofun⟩

theorem NegationForm.ne_nil {condition : Condition} {u : List Word}
    (form : NegationForm condition u) : u ≠ [] := by
  cases form with
  | not form => exact List.cons_ne_nil _ _
  | operand form =>
      obtain ⟨w, v, rfl, -⟩ := form.start
      exact List.cons_ne_nil w v

theorem ChainForm.ne_nil {operator : Word} {join : Condition → Condition → Condition}
    {item : Condition → List Word → Prop} {condition : Condition} {u : List Word}
    (form : ChainForm operator join item condition u)
    (some : ∀ {condition u}, item condition u → u ≠ []) : u ≠ [] := by
  cases form with
  | one form => exact some form
  | more left right => simp

end InterfaceHeader
