import InterfaceHeader.Proofs.Conditional.Links
import InterfaceHeader.Proofs.Conditional.Nesting
import InterfaceHeader.Proofs.Conditional.PhysicalLines

/-!
# Which texts have no outline

A text has an outline just if all its directives can be read and are well nested. Otherwise one
line is to blame: the first that cannot be read or behind which nothing can make the text well
nested, or, if the text ends too early, the line that opened the innermost open block.
-/

namespace InterfaceHeader

/-- The directive of the line cannot be read: its condition is wrong, or no identifier follows a
    directive about a symbol. -/
inductive LogicalLine.Violates (line : LogicalLine) : DirectiveFault → Prop where
  | condition {error : ConditionError} :
      line.isDirective = true → String.ofList (Directive.split line.text).1 ∈ ["if", "elif"] →
      Condition.ofText? (Directive.split line.text).2 = .error error →
      Violates line (.invalidExpression error)
  | symbol {name : String} :
      line.isDirective = true → String.ofList (Directive.split line.text).1 = name →
      name ∈ ["ifdef", "ifndef", "define", "undef"] →
      (∀ symbol rest, (Directive.split line.text).2 = symbol ++ rest →
        Text.isIdentifier symbol = false) →
      Violates line (.missingSymbol name)

/-- Nothing is wrong with the line itself. -/
def LogicalLine.Readable (line : LogicalLine) : Prop :=
  ∀ fault, ¬ line.Violates fault

/-- The name of a directive that goes on with another branch of a block. -/
def Directive.furtherName? : Directive → Option String
  | .branch .elseIf _ => some "elif"
  | .otherwise => some "else"
  | _ => none

/-- What is wrong with a directive that has no place behind these lines: there is no open block, or
    the innermost one is in its last branch. -/
inductive LogicalLine.Misplaced (before : List LogicalLine) (line : LogicalLine) :
    DirectiveFault → Prop where
  | closing : line.directive? = some .endif → Misplaced before line .unbalancedEndif
  | outside {directive : Directive} {name : String} :
      line.directive? = some directive → directive.furtherName? = some name → Nested before →
      Misplaced before line (.unbalancedElse name)
  | afterLast {directive : Directive} {name : String} :
      line.directive? = some directive → directive.furtherName? = some name → ¬ Nested before →
      Misplaced before line (.branchAfterElse name)

/-- The lines can be read, and further ones can make them well nested. -/
def Fit (lines : List LogicalLine) : Prop :=
  (∀ line ∈ lines, line.Readable) ∧ Extendable lines

/-- What is to blame for lines without an outline. -/
inductive Refused (lines : List LogicalLine) : DirectiveError → Prop where
  /-- The first line that does not fit cannot be read, whether it has a place or not. -/
  | unreadable {before after : List LogicalLine} {line : LogicalLine} {fault : DirectiveFault} :
      lines = before ++ line :: after → Fit before → line.Violates fault →
      Refused lines ⟨fault, line.number⟩
  /-- The first line that does not fit can be read but has no place. -/
  | misplaced {before after : List LogicalLine} {line : LogicalLine} {fault : DirectiveFault} :
      lines = before ++ line :: after → Fit before → line.Readable →
      ¬ Extendable (before ++ [line]) → line.Misplaced before fault →
      Refused lines ⟨fault, line.number⟩
  /-- All lines fit, and with a closing directive the lines from the opening one on would be a
      block. -/
  | unclosed {before : List LogicalLine} {c : Chain} {opener : Opener} {condition : Condition} :
      Fit lines → lines = before ++ c.branches.flatMap Branch.lines → c.Formed →
      (∀ b ∈ c.branches, Nested b.body) →
      c.first.line.directive? = some (.branch opener condition) → opener ≠ .elseIf →
      Refused lines ⟨.unclosedBlock opener.text, c.first.line.number⟩

/-! ## Reading one line -/

/-- The word characters in front of a text are an identifier just if any identifier stands there. -/
theorem isIdentifier_takeWhile_eq_false_iff {cs : List Char} :
    Text.isIdentifier (cs.takeWhile Text.isWordChar) = false ↔
      ∀ symbol rest, cs = symbol ++ rest → Text.isIdentifier symbol = false := by
  constructor
  · rintro none symbol rest rfl
    cases symbol with
    | nil => rfl
    | cons c symbol =>
        by_cases start : Text.isWordStart c = true
        · have first := Text.isWordChar_of_isWordStart start
          simp [Text.isIdentifier, first, start] at none
        · simp [Text.isIdentifier, start]
  · intro none
    exact none _ _ List.takeWhile_append_dropWhile.symm

/-- A directive about a symbol has nothing to name just if no identifier follows it. -/
theorem symbol?_eq_error_iff {directive : String} {arguments : List Char}
    {fault : DirectiveFault} :
    Directive.symbol? directive arguments = .error fault ↔
      fault = .missingSymbol directive ∧
        ∀ symbol rest, arguments = symbol ++ rest → Text.isIdentifier symbol = false := by
  rw [← isIdentifier_takeWhile_eq_false_iff]
  unfold Directive.symbol?
  cases named : Text.isIdentifier (arguments.takeWhile Text.isWordChar) with
  | true => simp [named]
  | false => simpa [named] using eq_comm

/-- Only conditions and symbols can be wrong about a directive. -/
theorem ofParts?_eq_error_iff {name : String} {arguments : List Char} {fault : DirectiveFault} :
    Directive.ofParts? name arguments = .error fault ↔
      (name ∈ ["if", "elif"] ∧ ∃ error, Condition.ofText? arguments = .error error ∧
        fault = .invalidExpression error) ∨
      (name ∈ ["ifdef", "ifndef", "define", "undef"] ∧
        Directive.symbol? name arguments = .error fault) := by
  have mapped {α β : Type} (read : Except DirectiveFault α) (f : α → β) :
      (do return f (← read)) = .error fault ↔ read = .error fault := by
    cases read <;> simp [bind, Except.bind, pure, Except.pure]
  have returned (directive : Directive) :
      (pure directive : Except DirectiveFault Directive) ≠ .error fault := nofun
  have conditional : Directive.condition? arguments = .error fault ↔
      ∃ error, Condition.ofText? arguments = .error error ∧ fault = .invalidExpression error := by
    unfold Directive.condition?
    cases Condition.ofText? arguments with
    | ok condition => exact ⟨nofun, fun ⟨_, wrong, _⟩ => nomatch wrong⟩
    | error error =>
        constructor
        · rintro same
          cases same
          exact ⟨error, rfl, rfl⟩
        · rintro ⟨_, same, rfl⟩
          cases same
          rfl
  unfold Directive.ofParts?
  split <;> simp_all

/-- The faults of a directive line are those that reading it reports. -/
theorem violates_iff {line : LogicalLine} (kind : line.isDirective = true)
    {fault : DirectiveFault} :
    line.Violates fault ↔ Directive.ofText? line.text = .error fault := by
  have parts : Directive.ofText? line.text =
      Directive.ofParts? (String.ofList (Directive.split line.text).1)
        (Directive.split line.text).2 := rfl
  rw [parts, ofParts?_eq_error_iff, symbol?_eq_error_iff]
  constructor
  · intro violates
    cases violates with
    | condition _ name wrong => exact Or.inl ⟨name, _, wrong, rfl⟩
    | symbol _ same name none =>
        subst same
        exact Or.inr ⟨name, rfl, none⟩
  · rintro (⟨name, error, wrong, rfl⟩ | ⟨name, rfl, none⟩)
    · exact .condition kind name wrong
    · exact .symbol kind rfl name none

theorem LogicalLine.readable_of_text {line : LogicalLine} (text : line.isDirective = false) :
    line.Readable := by
  intro fault violates
  cases violates with
  | condition kind => simp [kind] at text
  | symbol kind => simp [kind] at text

/-- A directive line that can be read spells a directive. -/
theorem LogicalLine.Readable.directive? {line : LogicalLine} (readable : line.Readable)
    (kind : line.isDirective = true) :
    ∃ directive, Directive.ofText? line.text = .ok directive ∧
      line.directive? = some directive := by
  cases read : Directive.ofText? line.text with
  | error fault => exact absurd ((violates_iff kind).mpr read) (readable fault)
  | ok directive =>
      refine ⟨directive, rfl, ?_⟩
      rw [LogicalLine.directive?, if_pos kind, read]
      rfl

/-! ## Placing one line -/

namespace Draft

/-- A directive can be applied, or there is no block for it. -/
theorem apply_cases (d : Draft) (site : Site) (directive : Directive) :
    (∃ d', d.apply site directive = .ok d') ∨
      directive.opened? site d.opened = none ∧
        ((directive = .endif ∧ d.apply site directive = .error .unbalancedEndif) ∨
          ∃ name, directive.furtherName? = some name ∧ d.apply site directive =
            .error (if d.opened = [] then .unbalancedElse name else .branchAfterElse name)) := by
  obtain ⟨nodes, blocks⟩ := d
  cases directive with
  | branch opener condition =>
      by_cases further : opener = .elseIf
      · subst further
        cases blocks with
        | nil => exact Or.inr ⟨rfl, Or.inr ⟨"elif", rfl, rfl⟩⟩
        | cons b blocks =>
            obtain ⟨earlier, opening, body, otherwise⟩ := b
            cases otherwise with
            | none => exact Or.inl ⟨_, rfl⟩
            | some last => exact Or.inr ⟨rfl, Or.inr ⟨"elif", rfl, rfl⟩⟩
      · cases opener <;> first | exact absurd rfl further | exact Or.inl ⟨_, rfl⟩
  | otherwise =>
      cases blocks with
      | nil => exact Or.inr ⟨rfl, Or.inr ⟨"else", rfl, rfl⟩⟩
      | cons b blocks =>
          obtain ⟨earlier, opening, body, otherwise⟩ := b
          cases otherwise with
          | none => exact Or.inl ⟨_, rfl⟩
          | some last => exact Or.inr ⟨rfl, Or.inr ⟨"else", rfl, rfl⟩⟩
  | endif =>
      cases blocks with
      | nil => exact Or.inr ⟨rfl, Or.inl ⟨rfl, rfl⟩⟩
      | cons b blocks => exact Or.inl ⟨_, rfl⟩
  | define name value => exact Or.inl ⟨_, rfl⟩
  | undef name => exact Or.inl ⟨_, rfl⟩
  | other name => exact Or.inl ⟨_, rfl⟩

end Draft

/-- Behind a draft a line that can be read is taken in, or it has no block and is misplaced. -/
theorem Draft.step_readable {before : List LogicalLine} {d : Draft} {line : LogicalLine}
    (drafted : before.foldlM Draft.step .empty = .ok d) (readable : line.Readable) :
    (∃ d', d.step line = .ok d') ∨
      line.opened? d.opened = none ∧
        ∃ fault, line.Misplaced before fault ∧ d.step line = .error ⟨fault, line.number⟩ := by
  by_cases kind : line.isDirective = true
  · obtain ⟨directive, read, spelt⟩ := readable.directive? kind
    have stepped : d.step line = (d.apply ⟨line.number, line.span⟩ directive).mapError
        fun fault => ⟨fault, line.number⟩ := by
      rw [step, if_pos kind, read]
      rfl
    have nested : Nested before ↔ d.opened = [] := by
      have opened : openedAfter? [] before = some d.opened := opened_foldlM drafted
      rw [nested_iff_openedAfter?, opened, Option.some.injEq]
    rw [stepped, LogicalLine.opened?_of_directive? spelt]
    rcases d.apply_cases ⟨line.number, line.span⟩ directive with
      ⟨d', applied⟩ | ⟨unfit, ⟨rfl, applied⟩ | ⟨name, further, applied⟩⟩
    · exact Or.inl ⟨d', by rw [applied]; rfl⟩
    · exact Or.inr ⟨unfit, _, .closing spelt, by rw [applied]; rfl⟩
    · refine Or.inr ⟨unfit, ?_⟩
      rw [applied]
      by_cases none : d.opened = []
      · rw [if_pos none]
        exact ⟨_, .outside spelt further (nested.mpr none), rfl⟩
      · rw [if_neg none]
        exact ⟨_, .afterLast spelt further (mt nested.mp none), rfl⟩
  · exact Or.inl ⟨_, if_neg kind⟩

/-- A line that cannot be read is not taken in. -/
theorem Draft.step_violates {d : Draft} {line : LogicalLine} {fault : DirectiveFault}
    (violates : line.Violates fault) : d.step line = .error ⟨fault, line.number⟩ := by
  have kind : line.isDirective = true := by
    cases violates <;> assumption
  rw [step, if_pos kind, (violates_iff kind).mp violates]
  rfl

/-- A line is misplaced in one way only. -/
theorem LogicalLine.Misplaced.unique {before : List LogicalLine} {line : LogicalLine}
    {fault fault' : DirectiveFault} (misplaced : line.Misplaced before fault)
    (misplaced' : line.Misplaced before fault') : fault = fault' := by
  have closes : Directive.furtherName? .endif = none := rfl
  cases misplaced <;> cases misplaced' <;> grind

/-! ## Whole texts -/

namespace Draft

theorem readable_of_foldlM {lines : List LogicalLine} {d d' : Draft}
    (drafted : lines.foldlM step d = .ok d') : ∀ line ∈ lines, line.Readable := by
  induction lines generalizing d with
  | nil => exact nofun
  | cons line lines ih =>
      obtain ⟨next, stepped, drafted⟩ := foldlM_cons drafted
      intro l mem
      rcases List.mem_cons.mp mem with rfl | mem
      · intro fault violates
        rw [step_violates violates] at stepped
        cases stepped
      · exact ih drafted l mem

theorem foldlM_concat {before : List LogicalLine} {d d' : Draft} {line : LogicalLine}
    (drafted : before.foldlM step .empty = .ok d) (stepped : d.step line = .ok d') :
    (before ++ [line]).foldlM step .empty = .ok d' := by
  rw [List.foldlM_append, drafted]
  simp [bind, Except.bind, stepped, pure, Except.pure]

/-- Lines that can be read and find their blocks are taken in. -/
theorem exists_drafted {before lines : List LogicalLine} {d : Draft} {blocks : Opened}
    (drafted : before.foldlM step .empty = .ok d) (readable : ∀ line ∈ lines, line.Readable)
    (fit : openedAfter? d.opened lines = some blocks) :
    ∃ d', lines.foldlM step d = .ok d' := by
  induction lines generalizing before d with
  | nil => exact ⟨d, rfl⟩
  | cons line lines ih =>
      rw [openedAfter?_cons] at fit
      obtain ⟨behind, here, later⟩ := Option.bind_eq_some_iff.mp fit
      rcases step_readable drafted (readable line List.mem_cons_self) with
        ⟨next, stepped⟩ | ⟨unfit, _⟩
      · have opened := opened_step stepped
        rw [here] at opened
        cases opened
        obtain ⟨d', drafted'⟩ := ih (foldlM_concat drafted stepped)
          (fun l mem => readable l (List.mem_cons_of_mem _ mem)) later
        refine ⟨d', ?_⟩
        rw [List.foldlM_cons, stepped]
        exact drafted'
      · rw [here] at unfit
        cases unfit

/-- Drafting fails at a line in front of which it does not. -/
theorem foldlM_error {lines : List LogicalLine} {d : Draft} {e : DirectiveError}
    (failed : lines.foldlM step d = .error e) :
    ∃ before line after d', lines = before ++ line :: after ∧
      before.foldlM step d = .ok d' ∧ d'.step line = .error e := by
  induction lines generalizing d with
  | nil => cases failed
  | cons line lines ih =>
      rw [List.foldlM_cons] at failed
      cases stepped : d.step line with
      | error error =>
          rw [stepped] at failed
          cases failed
          exact ⟨[], line, lines, d, rfl, rfl, stepped⟩
      | ok next =>
          rw [stepped] at failed
          obtain ⟨before, found, after, d', rfl, drafted, failed⟩ := ih failed
          refine ⟨line :: before, found, after, d', rfl, ?_, failed⟩
          rw [List.foldlM_cons, stepped]
          exact drafted

end Draft

/-- Lines fit just if they can be drafted. -/
theorem fit_iff_drafted {lines : List LogicalLine} :
    Fit lines ↔ ∃ d, lines.foldlM Draft.step .empty = .ok d := by
  constructor
  · rintro ⟨readable, extendable⟩
    obtain ⟨blocks, fit⟩ := extendable_iff_openedAfter?.mp extendable
    have nothing : [].foldlM Draft.step .empty = .ok Draft.empty := rfl
    exact Draft.exists_drafted nothing readable fit
  · rintro ⟨d, drafted⟩
    have opened := Draft.opened_foldlM drafted
    exact ⟨Draft.readable_of_foldlM drafted, extendable_iff_openedAfter?.mpr ⟨_, opened⟩⟩

/-- Where drafting stops at a line, the line is the error of the whole text. -/
theorem outlineOfLines?_of_step_error {before after : List LogicalLine} {line : LogicalLine}
    {d : Draft} {e : DirectiveError} (drafted : before.foldlM Draft.step .empty = .ok d)
    (failed : d.step line = .error e) :
    outlineOfLines? (before ++ line :: after) = .error e := by
  rw [outlineOfLines?, List.foldlM_append, drafted]
  simp [bind, Except.bind, failed]

/-- What is to blame for lines is the error that they are refused with. -/
theorem outlineOfLines?_of_refused {lines : List LogicalLine} {e : DirectiveError}
    (refused : Refused lines e) : outlineOfLines? lines = .error e := by
  cases refused with
  | unreadable split fit violates =>
      obtain ⟨d, drafted⟩ := fit_iff_drafted.mp fit
      rw [split]
      exact outlineOfLines?_of_step_error drafted (Draft.step_violates violates)
  | @misplaced before after line fault split fit readable stuck misplaced =>
      obtain ⟨d, drafted⟩ := fit_iff_drafted.mp fit
      rw [split]
      apply outlineOfLines?_of_step_error drafted
      rcases Draft.step_readable drafted readable with
        ⟨next, stepped⟩ | ⟨_, fault', misplaced', failed⟩
      · have whole := Draft.foldlM_concat drafted stepped
        exact absurd (fit_iff_drafted.mpr ⟨next, whole⟩).2 stuck
      · rw [failed, misplaced.unique misplaced']
  | @unclosed before c opener condition fit split formed bodies spelt _ =>
      obtain ⟨d, drafted⟩ := fit_iff_drafted.mp fit
      have opened : openedAfter? [] lines = some d.opened := Draft.opened_foldlM drafted
      rw [split, openedAfter?_append] at opened
      obtain ⟨outer, _, inside⟩ := Option.bind_eq_some_iff.mp opened
      rw [c.openedAfter?_branches formed (fun b mem => (bodies b mem).steady) spelt] at inside
      rw [outlineOfLines?, drafted]
      obtain ⟨nodes, blocks⟩ := d
      cases blocks with
      | nil => cases inside
      | cons b blocks =>
          have first := (Prod.mk.inj (List.cons.inj (Option.some.inj inside)).1).1
          simp [Except.bind, Draft.finish, ← first]

/-- The error that lines are refused with says what is to blame. -/
theorem refused_of_outlineOfLines? {lines : List LogicalLine} {e : DirectiveError}
    (failed : outlineOfLines? lines = .error e) : Refused lines e := by
  rw [outlineOfLines?] at failed
  cases drafted : lines.foldlM Draft.step .empty with
  | error error =>
      rw [drafted] at failed
      cases failed
      obtain ⟨before, line, after, d, split, sofar, stuck⟩ := Draft.foldlM_error drafted
      have fit : Fit before := fit_iff_drafted.mpr ⟨d, sofar⟩
      by_cases readable : line.Readable
      · rcases Draft.step_readable sofar readable with
          ⟨next, stepped⟩ | ⟨unfit, fault, misplaced, failed⟩
        · rw [stuck] at stepped
          cases stepped
        · rw [stuck] at failed
          cases failed
          refine .misplaced split fit readable ?_ misplaced
          rw [extendable_iff_openedAfter?, openedAfter?_append]
          have opened : openedAfter? [] before = some d.opened := Draft.opened_foldlM sofar
          simp [opened, openedAfter?_cons, unfit]
      · obtain ⟨fault, violates⟩ : ∃ fault, line.Violates fault := by
          simpa [LogicalLine.Readable] using readable
        rw [Draft.step_violates violates] at stuck
        cases stuck
        exact .unreadable split fit violates
  | ok d =>
      have fit : Fit lines := fit_iff_drafted.mpr ⟨d, drafted⟩
      have opened : openedAfter? [] lines = some d.opened := Draft.opened_foldlM drafted
      rw [drafted] at failed
      obtain ⟨nodes, blocks⟩ := d
      cases blocks with
      | nil => cases failed
      | cons b blocks =>
          cases failed
          have stacked : Stacked lines (Draft.opened ⟨nodes, b :: blocks⟩) :=
            Stacked.run (.outside .nil) opened
          generalize same : Draft.opened ⟨nodes, b :: blocks⟩ = all at stacked
          cases stacked with
          | outside _ => cases same
          | @inside before outer c opener condition _ formed bodies spelt =>
              have first : b.first =
                  ⟨opener, condition, ⟨c.first.line.number, c.first.line.span⟩⟩ :=
                (Prod.mk.inj (List.cons.inj same).1).1
              have notFurther : opener ≠ .elseIf := by
                obtain ⟨_, _, other, notFurther⟩ := formed.opens
                cases spelt.symm.trans other
                exact notFurther
              rw [first]
              exact .unclosed fit rfl formed bodies spelt notFurther

/-- Well-nested lines that can be read have an outline. -/
theorem outlineOfLines?_of_nested {lines : List LogicalLine}
    (readable : ∀ line ∈ lines, line.Readable) (nested : Nested lines) :
    ∃ nodes, outlineOfLines? lines = .ok nodes := by
  have extendable : Extendable lines := ⟨[], by simpa using nested⟩
  obtain ⟨d, drafted⟩ := fit_iff_drafted.mp ⟨readable, extendable⟩
  have opened : openedAfter? [] lines = some d.opened := Draft.opened_foldlM drafted
  rw [nested_iff_openedAfter?.mp nested] at opened
  obtain ⟨nodes, blocks⟩ := d
  cases blocks with
  | nil => exact ⟨nodes, by rw [outlineOfLines?, drafted]; rfl⟩
  | cons b blocks => cases opened

/-- How many physical lines the lines take. -/
def spanOf : List LogicalLine → Nat
  | [] => 0
  | line :: rest => line.span + spanOf rest

/-- A logical line is numbered by the physical lines in front of it. -/
theorem number_logicalFrom {number skip : Nat} {inComment : Bool} {physical : List (List Char)}
    {before after : List LogicalLine} {line : LogicalLine} (room : skip ≤ physical.length)
    (split : logicalFrom number inComment skip physical = before ++ line :: after) :
    line.number = number + skip + spanOf before := by
  induction physical generalizing number skip inComment before with
  | nil => cases skip <;> simp [logicalFrom] at split
  | cons first rest ih =>
      cases skip with
      | succ skip =>
          have later := ih (Nat.le_of_succ_le_succ room) split
          omega
      | zero =>
          obtain ⟨top, further, inComment', lines, number', span, room, _⟩ :=
            logicalFrom_cons number inComment first rest
          rw [lines] at split
          cases before with
          | nil =>
              cases split
              exact number'
          | cons start before =>
              obtain ⟨same, split⟩ := List.cons.inj split
              have later := ih room split
              rw [spanOf, ← same]
              omega

/-- A text has an outline just if its directives can be read and its lines are well nested.
    Otherwise the error says what is to blame: the first line that does not fit, by its number, or
    else the opening line of the innermost open block. Links of chains as levels of their own,
    counted from above, come to the same, and neither of the cases that chains rule out occurs. -/
theorem outlineOf?_refused (text : List Char) :
    let lines := logicalLines (Text.lines text)
    ((∃ nodes, outlineOf? text = .ok nodes) ↔
      (∀ line ∈ lines, line.Readable) ∧ Nested lines) ∧
    (∀ e, outlineOf? text = .error e ↔ Refused lines e) ∧
    (∀ before line after, lines = before ++ line :: after →
      line.number = 1 + spanOf before) ∧
    linkedOutlineOf? text = (outlineOf? text).mapError .reported := by
  intro lines
  refine ⟨?_, ?_, ?_, linkedOutlineOf?_eq text⟩
  · constructor
    · rintro ⟨nodes, outline⟩
      have drafted := drafted_of_outlineOfLines? outline
      exact ⟨(fit_iff_drafted.mpr ⟨_, drafted⟩).1, nested_of_outlineOfLines? outline⟩
    · rintro ⟨readable, nested⟩
      exact outlineOfLines?_of_nested readable nested
  · intro e
    exact ⟨refused_of_outlineOfLines?, outlineOfLines?_of_refused⟩
  · intro before line after split
    simpa using number_logicalFrom (Nat.zero_le _) split

end InterfaceHeader
