import InterfaceHeader.Proofs.Diagnosis.Truthful
import InterfaceHeader.Proofs.Grammar.TypeSoundness

/-!
# Errors in types

Every reader of types fails with truthful errors only, wherever what it reads may stand
(`Faithful`). A reader is opened once, from its first step to its last: what has been read so far
has a form of which the rest is known, so each single token that is looked for can be shown in a
sentence. No loop has to be counted, because a loop that ends early is no error.
-/

namespace InterfaceHeader.Reader

/-- The reader fails with truthful errors only, wherever everything of the form may stand. -/
def Faithful {α : Type} (r : Reader α) (form : α → List Terminal → Prop) : Prop :=
  ∀ ⦃L : List Terminal → Prop⦄, (∀ a u, form a u → Begins L u) → Truthful r L

theorem primitive_faithful : Faithful primitive PrimitiveForm := by
  intro L begins
  refine (accept_truthful _).bind (accept_reads _) fun const? p constRead => ?_
  refine (accept_truthful _).bind (accept_reads _) fun name? q nameRead => ?_
  have constForm := OptionalToken.of_maybeToken constRead
  cases name? with
  | some t => exact (accept_truthful _).map _
  | none =>
      have named (name : String) :
          Begins (Behind (Behind L (terminals p)) (terminals q)) [⟨.identifier, name⟩] := by
        cases nameRead
        rw [begins_behind, begins_behind]
        exact begins _ _ (.intro name constForm .absent)
      dsimp only
      cases const? with
      | some t =>
          refine fail_truthful (List.cons_ne_nil _ _) (List.pairwise_singleton _ _) fun x mem => ?_
          rw [List.mem_singleton.mp mem]
          exact .token fun name _ => named name
      | none =>
          cases constRead
          cases nameRead
          refine fail_truthful (List.cons_ne_nil _ _) (by decide) fun x mem => ?_
          simp only [List.mem_cons, List.not_mem_nil, or_false] at mem
          rcases mem with rfl | rfl
          · refine .token fun const _ => ?_
            exact (begins _ _ (.intro "" (.present const) .absent)).of_append
          · exact .token fun name _ => named name

theorem pointerName_faithful : Faithful pointerName PointerForm := by
  intro L begins
  refine (punct_truthful ?_).bind (punct_reads _) fun _ p leftRead => ?_
  · intro left
    exact (begins _ _ (.intro left "" "" "")).of_isPrefix (by simp)
  obtain ⟨left, leftRead⟩ := leftRead
  refine (punct_truthful ?_).bind (punct_reads _) fun _ q starRead => ?_
  · intro star
    rw [begins_behind, leftRead]
    exact (begins _ _ (.intro left star "" "")).of_isPrefix (by simp)
  obtain ⟨star, starRead⟩ := starRead
  refine (identifier_truthful ?_).bind identifier_reads fun name r nameRead => ?_
  · intro name
    rw [begins_behind, begins_behind, leftRead, starRead]
    exact (begins _ _ (.intro left star name "")).of_isPrefix (by simp)
  refine (punct_truthful ?_).map _
  intro right
  rw [begins_behind, begins_behind, begins_behind, leftRead, starRead, nameRead]
  exact begins _ _ (.intro left star name right)

/-- Further arguments stand behind another one. -/
theorem moreArguments_truthful {argument : Reader Argument} {L : List Terminal → Prop}
    (reads : Reads argument fun a p => ArgumentForm a (terminals p))
    (faithful : Faithful argument ArgumentForm) (n : Nat)
    (begins : ∀ as u, (∀ a v, ArgumentForm a v → CommaForm ArgumentForm (a :: as) (v ++ u)) →
      Begins L u) : Truthful (moreArguments argument n) L := by
  induction n generalizing L with
  | zero => exact .pure _
  | succ n ih =>
      refine (accept_truthful _).bind (accept_reads _) fun comma? p commaRead => ?_
      cases comma? with
      | none => exact .pure _
      | some t =>
          have commaTerminals : terminals p = [⟨.punct .comma, t.lexeme⟩] := commaRead.terminals_eq
          refine (faithful ?_).bind reads fun a q argumentForm => .map (ih ?_) _
          · intro a u argumentForm
            rw [begins_behind, commaTerminals]
            exact begins [a] _ fun b v firstForm => .cons t.lexeme firstForm (.one argumentForm)
          · intro as u moreForm
            rw [begins_behind, begins_behind, commaTerminals]
            exact begins (a :: as) _
              fun b v firstForm => .cons t.lexeme firstForm (moreForm a _ argumentForm)

theorem argumentList_faithful {argument : Reader Argument}
    (reads : Reads argument fun a p => ArgumentForm a (terminals p))
    (faithful : Faithful argument ArgumentForm) :
    Faithful (argumentList argument) (CommaForm ArgumentForm) := by
  intro L begins
  refine (faithful ?_).bind reads fun a p argumentForm => ?_
  · intro a u argumentForm
    exact begins [a] u (.one argumentForm)
  refine get_truthful.bind get_reads fun c q unmoved =>
    .map (moreArguments_truthful reads faithful _ ?_) _
  intro as u moreForm
  rw [begins_behind, begins_behind, unmoved]
  exact begins (a :: as) _ (moreForm a _ argumentForm)

theorem arguments_faithful {argument : Reader Argument}
    (reads : Reads argument fun a p => ArgumentForm a (terminals p))
    (faithful : Faithful argument ArgumentForm) :
    Faithful (arguments argument) (PossiblyForm (CommaForm ArgumentForm)) := by
  intro L begins
  refine (isAt_truthful _).bind (isAt_reads _) fun close p unmoved => ?_
  cases close with
  | true => exact .pure _
  | false =>
      refine argumentList_faithful reads faithful fun as u listForm => ?_
      rw [begins_behind, unmoved]
      exact begins as u (.some listForm)

theorem signature_faithful {arguments : Reader (List Argument)}
    {form : List Argument → List Terminal → Prop}
    (reads : Reads arguments fun as p => form as (terminals p))
    (faithful : Faithful arguments form) (inhabited : ∃ as u, form as u) :
    Faithful (signature arguments) (SignatureForm form) := by
  intro L begins
  obtain ⟨as₀, w₀, someForm⟩ := inhabited
  refine (primitive_faithful ?_).bind primitive_reads fun type p typeForm => ?_
  · intro type u typeForm
    exact (begins _ _ (.intro "" "" typeForm (.intro "" "" "" "") someForm)).of_append
  refine (pointerName_faithful ?_).bind pointerName_reads fun name q nameForm => ?_
  · intro name v nameForm
    rw [begins_behind]
    exact (begins _ _ (.intro "" "" typeForm nameForm someForm)).of_isPrefix (by simp)
  refine (punct_truthful ?_).bind (punct_reads _) fun _ left leftRead => ?_
  · intro left
    rw [begins_behind, begins_behind]
    exact (begins _ _ (.intro left "" typeForm nameForm someForm)).of_isPrefix (by simp)
  obtain ⟨l, leftRead⟩ := leftRead
  refine (faithful ?_).bind reads fun as r argumentsForm => ?_
  · intro as w argumentsForm
    rw [begins_behind, begins_behind, begins_behind, leftRead]
    exact (begins _ _ (.intro l "" typeForm nameForm argumentsForm)).of_isPrefix (by simp)
  refine (punct_truthful ?_).map _
  intro right
  rw [begins_behind, begins_behind, begins_behind, begins_behind, leftRead]
  exact begins _ _ (.intro l right typeForm nameForm argumentsForm)

theorem argumentOf_faithful {type : Reader CType}
    (reads : Reads type fun t p => TypeForm t (terminals p)) (faithful : Faithful type TypeForm) :
    Faithful (argumentOf type) ArgumentForm := by
  intro L begins
  refine (faithful ?_).bind reads fun t p typeForm => (accept_truthful _).map _
  intro t u typeForm
  rw [← List.append_nil u]
  exact begins _ _ (.intro typeForm .absent)

theorem typeAt_faithful (levels : Nat) : Faithful (typeAt levels) TypeForm := by
  induction levels with
  | zero =>
      intro L begins
      exact .map (primitive_faithful fun p u formed => begins _ _ (.primitive formed)) _
  | succ levels ih =>
      intro L begins
      refine choose_truthful fun r among => ?_
      simp only [List.mem_cons, List.not_mem_nil, or_false] at among
      rcases among with rfl | rfl
      · have reads := argumentOf_reads (typeAt_reads levels)
        have faithful := arguments_faithful reads (argumentOf_faithful (typeAt_reads levels) ih)
        refine .map (signature_faithful (arguments_reads reads) faithful ⟨[], [], .empty⟩ ?_) _
        intro f u functionForm
        exact begins _ _ (.function functionForm)
      · exact .map (primitive_faithful fun p u formed => begins _ _ (.primitive formed)) _

theorem type_faithful : Faithful type TypeForm := by
  intro L begins
  refine get_truthful.bind get_reads fun c p unmoved => typeAt_faithful _ fun t u typeForm => ?_
  rw [begins_behind, unmoved]
  exact begins t u typeForm

theorem argument_faithful : Faithful argument ArgumentForm :=
  argumentOf_faithful type_reads type_faithful

theorem functionType_faithful : Faithful functionType FunctionForm :=
  signature_faithful (arguments_reads argument_reads)
    (arguments_faithful argument_reads argument_faithful) ⟨[], [], .empty⟩

/-- Behind a whole type nothing else is expected. -/
theorem wholeType_truthful : Truthful wholeType fun u => ∃ t, TypeForm t u := by
  refine (type_faithful ?_).bind type_reads fun t p typeForm => ?_
  · intro t u typeForm
    exact .of_sentence ⟨t, typeForm⟩
  refine get_truthful.bind get_reads fun c q unmoved => ?_
  split
  · refine fail_truthful (List.cons_ne_nil _ _) (List.pairwise_singleton _ _) fun x mem => ?_
    rw [List.mem_singleton.mp mem]
    refine .ending ⟨t, ?_⟩
    rwa [unmoved, terminals_nil, List.nil_append, List.append_nil]
  · exact .pure _

end InterfaceHeader.Reader
