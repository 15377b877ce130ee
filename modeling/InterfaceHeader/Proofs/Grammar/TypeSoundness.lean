import InterfaceHeader.Declaration.TypeReader
import InterfaceHeader.Proofs.Grammar.Reads

/-!
# Types that are found are in the grammar

Every reader of types finds only what the grammar derives from the terminals it has passed over.
-/

namespace InterfaceHeader

theorem OptionalToken.of_maybeToken {kind : TokenKind} {a : Option Token} {p : List Token}
    (maybe : Reader.MaybeToken kind a p) : OptionalToken kind a.isSome (terminals p) := by
  cases a with
  | none =>
      cases maybe
      exact .absent
  | some t =>
      rw [Reader.OneToken.terminals_eq maybe]
      exact .present t.lexeme

theorem OptionalName.of_maybeToken {a : Option Token} {p : List Token}
    (maybe : Reader.MaybeToken .identifier a p) :
    OptionalName (a.map Token.lexeme) (terminals p) := by
  cases a with
  | none =>
      cases maybe
      exact .absent
  | some t =>
      rw [Reader.OneToken.terminals_eq maybe]
      exact .present t.lexeme

/-- A comment among the tokens passed spells nothing. -/
theorem terminals_of_maybeComment {a : Option String} {p : List Token}
    (maybe : Reader.MaybeComment a p) : terminals p = [] := by
  cases a with
  | none =>
      cases maybe
      rfl
  | some text =>
      obtain ⟨t, rfl, isComment, -⟩ := maybe
      exact terminals_cons_comment isComment []

theorem eq_none_of_maybeComment {a : Option String} {p : List Token}
    (maybe : Reader.MaybeComment a p) (plain : p.all Token.isSignificant = true) : a = none := by
  cases a with
  | none => rfl
  | some text =>
      obtain ⟨t, rfl, isComment, -⟩ := maybe
      simp [Token.isSignificant, isComment] at plain

namespace Reader

theorem primitive_reads : Reads primitive fun t p => PrimitiveForm t (terminals p) := by
  refine (accept_reads _).bind fun const? p constRead => ?_
  refine (accept_reads _).bind fun name? q nameRead => ?_
  cases name? with
  | none =>
      dsimp only
      split <;> exact fail_reads _
  | some t =>
      refine (accept_reads _).bind fun star? r starRead => .pure ?_
      have nameTerminals : terminals q = [⟨.identifier, t.lexeme⟩] := nameRead.terminals_eq
      rw [List.append_nil, terminals_append, terminals_append, nameTerminals]
      exact .intro t.lexeme (.of_maybeToken constRead) (.of_maybeToken starRead)

theorem pointerName_reads : Reads pointerName fun name p => PointerForm name (terminals p) := by
  refine (punct_reads _).bind fun _ p leftRead => ?_
  refine (punct_reads _).bind fun _ q starRead => ?_
  refine identifier_reads.bind fun name r nameRead => ?_
  refine (punct_reads _).bind fun _ s rightRead => .pure ?_
  obtain ⟨left, leftRead⟩ := leftRead
  obtain ⟨star, starRead⟩ := starRead
  obtain ⟨right, rightRead⟩ := rightRead
  rw [List.append_nil, terminals_append, terminals_append, terminals_append, leftRead, starRead,
    nameRead, rightRead]
  exact .intro left star name right

/-- What further arguments are is said through the list they make with an argument before them. -/
theorem moreArguments_reads {argument : Reader Argument}
    (argumentReads : Reads argument fun a p => ArgumentForm a (terminals p)) (n : Nat) :
    Reads (moreArguments argument n) fun as p =>
      ∀ a u, ArgumentForm a u → CommaForm ArgumentForm (a :: as) (u ++ terminals p) := by
  induction n with
  | zero =>
      refine .pure fun a u argumentForm => ?_
      rw [terminals_nil, List.append_nil]
      exact .one argumentForm
  | succ n ih =>
      refine (accept_reads _).bind fun comma? p commaRead => ?_
      cases comma? with
      | none =>
          refine .pure fun a u argumentForm => ?_
          cases commaRead
          rw [List.append_nil, terminals_nil, List.append_nil]
          exact .one argumentForm
      | some t =>
          refine argumentReads.bind fun b q nextForm => ?_
          refine ih.bind fun bs r moreForm => .pure fun a u argumentForm => ?_
          have commaTerminals : terminals p = [⟨.punct .comma, t.lexeme⟩] := commaRead.terminals_eq
          rw [List.append_nil, terminals_append, terminals_append, commaTerminals]
          exact .cons t.lexeme argumentForm (moreForm b _ nextForm)

theorem argumentList_reads {argument : Reader Argument}
    (argumentReads : Reads argument fun a p => ArgumentForm a (terminals p)) :
    Reads (argumentList argument) fun as p => CommaForm ArgumentForm as (terminals p) := by
  refine argumentReads.bind fun a p firstForm => ?_
  refine get_reads.bind fun c q unmoved => ?_
  refine (moreArguments_reads argumentReads _).bind fun as r moreForm => .pure ?_
  subst unmoved
  rw [List.nil_append, List.append_nil, terminals_append]
  exact moreForm a _ firstForm

theorem arguments_reads {argument : Reader Argument}
    (argumentReads : Reads argument fun a p => ArgumentForm a (terminals p)) :
    Reads (arguments argument) fun as p =>
      PossiblyForm (CommaForm ArgumentForm) as (terminals p) := by
  refine (isAt_reads _).bind fun close p unmoved => ?_
  subst unmoved
  cases close with
  | true => exact .pure .empty
  | false => exact (argumentList_reads argumentReads).mono fun as q listForm => .some listForm

theorem signature_reads {arguments : Reader (List Argument)}
    {form : List Argument → List Terminal → Prop}
    (argumentsReads : Reads arguments fun as p => form as (terminals p)) :
    Reads (signature arguments) fun f p => SignatureForm form f (terminals p) := by
  refine primitive_reads.bind fun type p typeForm => ?_
  refine pointerName_reads.bind fun name q nameForm => ?_
  refine (punct_reads _).bind fun _ left leftRead => ?_
  refine argumentsReads.bind fun as r argumentsForm => ?_
  refine (punct_reads _).bind fun _ right rightRead => .pure ?_
  obtain ⟨l, leftRead⟩ := leftRead
  obtain ⟨r', rightRead⟩ := rightRead
  simp only [List.append_nil, terminals_append, leftRead, rightRead]
  exact .intro l r' typeForm nameForm argumentsForm

theorem argumentOf_reads {type : Reader CType}
    (typeReads : Reads type fun t p => TypeForm t (terminals p)) :
    Reads (argumentOf type) fun a p => ArgumentForm a (terminals p) := by
  refine typeReads.bind fun t p typeForm => ?_
  refine (accept_reads _).bind fun name? q nameRead => .pure ?_
  rw [List.append_nil, terminals_append]
  exact .intro typeForm (.of_maybeToken nameRead)

theorem typeAt_reads (levels : Nat) :
    Reads (typeAt levels) fun t p => TypeForm t (terminals p) := by
  induction levels with
  | zero =>
      refine primitive_reads.bind fun t p primitiveForm => .pure ?_
      rw [List.append_nil]
      exact .primitive primitiveForm
  | succ levels ih =>
      refine choose_reads fun r among => ?_
      simp only [List.mem_cons, List.not_mem_nil, or_false] at among
      rcases among with rfl | rfl
      · refine (signature_reads (arguments_reads (argumentOf_reads ih))).bind
          fun f p functionForm => .pure ?_
        rw [List.append_nil]
        exact .function functionForm
      · refine primitive_reads.bind fun t p primitiveForm => .pure ?_
        rw [List.append_nil]
        exact .primitive primitiveForm

theorem type_reads : Reads type fun t p => TypeForm t (terminals p) := by
  refine get_reads.bind fun c p unmoved => ?_
  subst unmoved
  exact typeAt_reads c.ahead.length

theorem argument_reads : Reads argument fun a p => ArgumentForm a (terminals p) :=
  argumentOf_reads type_reads

theorem functionType_reads : Reads functionType fun f p => FunctionForm f (terminals p) :=
  signature_reads (arguments_reads argument_reads)

theorem wholeType_reads : Reads wholeType fun t p => TypeForm t (terminals p) := by
  refine type_reads.bind fun t p typeForm => ?_
  refine get_reads.bind fun c q unmoved => ?_
  subst unmoved
  cases c.next?.isSome with
  | true => exact fail_reads _
  | false =>
      refine .pure ?_
      rw [List.append_nil, List.append_nil]
      exact typeForm

end Reader

end InterfaceHeader
