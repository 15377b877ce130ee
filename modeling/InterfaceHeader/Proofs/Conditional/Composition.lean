import InterfaceHeader.Proofs.Conditional.Idempotence
import InterfaceHeader.Proofs.Token.CommentLines

/-!
# Preprocessing one text behind another

A text of whole lines that has an outline, leaves no comment open and no directive unfinished can
be preprocessed by itself: a text behind it is preprocessed as it is alone, with the symbols that
the definitions in the selected branches of the first one leave, and its faults are reported as
many lines further on as the first one has (`preprocess_append`).

Everything that preprocessing carries from line to line is cut at that place: physical lines
(`Text.lines_append`), continued directives and comments (`logicalLines_append`), open blocks
(`outlineOfLines?_append`), and the symbols of one pass (`Pass.symbols_run`).
-/

namespace InterfaceHeader

/-! ## Physical lines -/

namespace Text

/-- A separator cuts the text in front of it off. -/
theorem pieces_append_sep (sep : Char) (front rest : List Char) :
    pieces sep (front ++ sep :: rest) = pieces sep front ++ pieces sep rest := by
  induction front with
  | nil => exact pieces_cons_sep sep rest
  | cons c front ih =>
      rw [List.cons_append, pieces_cons, pieces_cons, ih]
      cases cut : pieces sep front with
      | nil => exact absurd cut (pieces_ne_nil sep front)
      | cons piece more =>
          simp only [List.cons_append, consPiece]
          split <;> rfl

/-- Pieces that others follow are whole lines. -/
theorem linesOfPieces_append {ps qs : List (List Char)} (some : qs ≠ []) :
    linesOfPieces (ps ++ qs) = ps.map dropReturn ++ linesOfPieces qs := by
  induction ps with
  | nil => rfl
  | cons piece ps ih =>
      cases more : ps ++ qs with
      | nil => exact absurd (List.append_eq_nil_iff.mp more).2 some
      | cons next rest =>
          rw [List.cons_append, more, linesOfPieces, ← more, ih]
          rfl

/-- Behind whole lines a text has the lines that it has alone. -/
theorem lines_append {front : List Char} (ended : EndsLine front) (rest : List Char) :
    lines (front ++ rest) = lines front ++ lines rest := by
  rcases ended.eq with rfl | ⟨line, rfl⟩
  · rfl
  · have whole (more : List Char) :
        lines (line ++ '\n' :: more) = (pieces '\n' line).map dropReturn ++ lines more := by
      rw [lines, pieces_append_sep, linesOfPieces_append (pieces_ne_nil '\n' more)]
      rfl
    have nothing : lines [] = [] := rfl
    rw [List.append_assoc, List.singleton_append, whole, whole, nothing, List.append_nil]

end Text

/-! ## Logical lines -/

/-- Whether a block comment is open behind lines, given whether one is open in front of them. -/
def commentBehind (inside : Bool) (lines : List LogicalLine) : Bool :=
  (lines.map LogicalLine.text).foldl endsInComment inside

/-- No directive goes on behind these physical lines: if the last one belongs to a directive, it
    does not end in a backslash. -/
def Complete (lines : List LogicalLine) (physical : List (List Char)) : Prop :=
  ∀ last ∈ lines.getLast?, last.isDirective = true →
    ∀ line ∈ physical.getLast?, isContinued line = false

instance (lines : List LogicalLine) (physical : List (List Char)) :
    Decidable (Complete lines physical) :=
  inferInstanceAs (Decidable (∀ last ∈ lines.getLast?, last.isDirective = true →
    ∀ line ∈ physical.getLast?, isContinued line = false))

/-- The line, so many lines further on. -/
def LogicalLine.shift (count : Nat) (line : LogicalLine) : LogicalLine :=
  { line with number := line.number + count }

theorem isContinued_join (line next : List Char) :
    isContinued (line ++ ' ' :: next) = isContinued next := by
  unfold isContinued
  cases next with
  | nil => simp
  | cons c next => simp [List.getLast?_append, List.getLast?_cons]

/-- A directive that does not go on behind some lines is joined as if nothing stood there. -/
theorem joinContinued_append {line : List Char} {rest : List (List Char)}
    (finished : (joinContinued line rest).2 = rest.length →
      ∀ last ∈ (line :: rest).getLast?, isContinued last = false) (more : List (List Char)) :
    joinContinued line (rest ++ more) = joinContinued line rest := by
  induction rest generalizing line with
  | nil =>
      have stops : isContinued line = false := finished rfl line rfl
      cases more <;> simp [joinContinued, stops]
  | cons next rest ih =>
      rw [List.cons_append]
      unfold joinContinued
      cases continued : isContinued line with
      | false => rfl
      | true =>
          have later : joinContinued (line.dropLast ++ ' ' :: next) (rest ++ more) =
              joinContinued (line.dropLast ++ ' ' :: next) rest := by
            refine ih ?_
            intro all last mem
            have whole : (joinContinued line (next :: rest)).2 = (next :: rest).length := by
              simp [joinContinued, continued, all]
            have finished := finished whole
            cases rest with
            | nil =>
                rw [← Option.some.inj mem, List.getLast_singleton, isContinued_join]
                exact finished next rfl
            | cons _ _ => exact finished last (by simpa using mem)
          simp only [if_pos, later]

/-- Lines that all belong to a directive in front of them are no lines of their own. -/
theorem logicalFrom_of_length_le {number skip : Nat} {inside : Bool}
    {physical : List (List Char)} (all : physical.length ≤ skip) :
    logicalFrom number inside skip physical = [] := by
  induction physical generalizing number skip with
  | nil => cases skip <;> rfl
  | cons line rest ih =>
      obtain ⟨skip, rfl⟩ : ∃ k, skip = k + 1 := ⟨skip - 1, by simp at all; omega⟩
      exact ih (Nat.le_of_succ_le_succ all)

/-- Behind complete lines come the logical lines of the rest, in the comment that is open there. -/
theorem logicalFrom_append {number skip : Nat} {inside : Bool} {front : List (List Char)}
    (room : skip ≤ front.length)
    (complete : Complete (logicalFrom number inside skip front) front)
    (rest : List (List Char)) :
    logicalFrom number inside skip (front ++ rest) =
      logicalFrom number inside skip front ++
        logicalFrom (number + front.length)
          (commentBehind inside (logicalFrom number inside skip front)) 0 rest := by
  induction front generalizing number skip inside with
  | nil =>
      rw [Nat.le_zero.mp room]
      rfl
  | cons line front ih =>
      have length : number + (line :: front).length = number + 1 + front.length := by
        rw [List.length_cons]
        omega
      -- The last line behind the first one is the last line, so completeness is handed on.
      have handOn (before : List LogicalLine) {later : List LogicalLine}
          (complete : Complete (before ++ later) (line :: front)) : Complete later front := by
        intro last isLast kind l mem
        refine complete last ?_ kind l ?_
        · rw [List.getLast?_append, Option.mem_def.mp isLast]
          rfl
        · rw [List.getLast?_cons, Option.mem_def.mp mem]
          rfl
      cases skip with
      | succ skip =>
          rw [List.cons_append, length]
          exact ih (Nat.le_of_succ_le_succ room) (handOn [] complete)
      | zero =>
          rw [List.cons_append, length, logicalFrom, logicalFrom]
          rw [logicalFrom] at complete
          cases starts : (!inside && startsDirective line) with
          | false =>
              rw [starts] at complete
              have later := ih (Nat.zero_le _) (handOn [_] complete)
              simp only [Bool.false_eq_true, if_false, later, List.cons_append]
              rfl
          | true =>
              rw [starts, if_pos rfl] at complete
              have outside : inside = false := by
                cases inside <;> simp_all
              have finished : (joinContinued line front).2 = front.length →
                  ∀ last ∈ (line :: front).getLast?, isContinued last = false := by
                intro all
                have none : logicalFrom (number + 1) (endsInComment false
                    (joinContinued line front).1) (joinContinued line front).2 front = [] :=
                  logicalFrom_of_length_le (Nat.le_of_eq all.symm)
                simp only [none] at complete
                refine complete _ rfl ?_
                have directive := startsDirective_joinContinued
                  (Bool.and_eq_true_iff.mp starts).2 front
                simp [LogicalLine.isDirective, directive]
              have later := ih (joinContinued_le line front) (handOn [_] complete)
              subst outside
              simp only [if_true, joinContinued_append finished, later, List.cons_append]
              rfl

/-- Logical lines do not depend on their numbers. -/
theorem logicalFrom_add (count number : Nat) (inside : Bool) (skip : Nat)
    (physical : List (List Char)) :
    logicalFrom (number + count) inside skip physical =
      (logicalFrom number inside skip physical).map (LogicalLine.shift count) := by
  induction physical generalizing number inside skip with
  | nil => cases skip <;> rfl
  | cons line rest ih =>
      cases skip with
      | succ skip =>
          rw [logicalFrom, logicalFrom, Nat.add_right_comm]
          exact ih (number + 1) inside skip
      | zero =>
          rw [logicalFrom, logicalFrom, Nat.add_right_comm]
          split <;> simp only [ih, List.map_cons] <;> rfl

/-- Behind complete lines outside every comment come the logical lines that the rest has alone, as
    many lines further on. -/
theorem logicalLines_append {front : List (List Char)}
    (outside : commentBehind false (logicalLines front) = false)
    (complete : Complete (logicalLines front) front) (rest : List (List Char)) :
    logicalLines (front ++ rest) =
      logicalLines front ++ (logicalLines rest).map (LogicalLine.shift front.length) := by
  have cut := logicalFrom_append (Nat.zero_le _) complete rest
  rw [← logicalLines, ← logicalLines, outside, logicalFrom_add] at cut
  exact cut

/-! ## Drafting further on -/

/-- The fault, so many lines further on. -/
def DirectiveError.shift (count : Nat) (e : DirectiveError) : DirectiveError :=
  { e with line := e.line + count }

/-- The directive, so many lines further on. -/
def Opening.shift (count : Nat) (o : Opening) : Opening :=
  { o with site := { o.site with line := o.site.line + count } }

/-- The open blocks, so many lines further on. -/
def shiftBlocks (count : Nat) (blocks : Opened) : Opened :=
  blocks.map fun block => (block.1.shift count, block.2)

/-- What comes of drafting at one place and at another one, so many lines further on: the same
    blocks are open, or the same is wrong. -/
inductive Draft.Shifted (count : Nat) :
    Except DirectiveError Draft → Except DirectiveError Draft → Prop where
  | ok {d d' : Draft} : d'.opened = shiftBlocks count d.opened → Shifted count (.ok d) (.ok d')
  | error (e : DirectiveError) : Shifted count (.error e) (.error (e.shift count))

theorem Directive.opened?_shift {count : Nat} (directive : Directive) (site : Site)
    (blocks : Opened) :
    directive.opened? { site with line := site.line + count } (shiftBlocks count blocks) =
      (directive.opened? site blocks).map (shiftBlocks count) := by
  cases directive with
  | branch opener condition =>
      cases opener with
      | elseIf => rcases blocks with _ | ⟨⟨first, _ | _⟩, outer⟩ <;> rfl
      | ifCondition => rfl
      | ifDefined => rfl
      | ifNotDefined => rfl
  | otherwise => rcases blocks with _ | ⟨⟨first, _ | _⟩, outer⟩ <;> rfl
  | endif => cases blocks <;> rfl
  | define name value => rfl
  | undef name => rfl
  | other name => rfl

namespace Draft

variable {count : Nat} {d d' : Draft}

/-- Applying a directive depends on the open blocks only. -/
theorem apply_shift (same : d'.opened = shiftBlocks count d.opened) (site : Site)
    (directive : Directive) :
    (∃ next next', d.apply site directive = .ok next ∧
        d'.apply { site with line := site.line + count } directive = .ok next' ∧
        next'.opened = shiftBlocks count next.opened) ∨
      ∃ fault, d.apply site directive = .error fault ∧
        d'.apply { site with line := site.line + count } directive = .error fault := by
  have blocks : directive.opened? { site with line := site.line + count } d'.opened =
      (directive.opened? site d.opened).map (shiftBlocks count) := by
    rw [same, directive.opened?_shift]
  have empty : d'.opened = [] ↔ d.opened = [] := by
    rw [same, shiftBlocks, List.map_eq_nil_iff]
  rcases d.apply_cases site directive with ⟨next, applied⟩ | ⟨unfit, wrong⟩
  · have opened := opened_applied (applied_of_apply applied)
    rw [opened, Option.map_some] at blocks
    rcases d'.apply_cases { site with line := site.line + count } directive with
      ⟨next', applied'⟩ | ⟨unfit', _⟩
    · have opened' := opened_applied (applied_of_apply applied')
      exact Or.inl ⟨next, next', applied, applied', Option.some.inj (opened'.symm.trans blocks)⟩
    · cases unfit'.symm.trans blocks
  · rw [unfit, Option.map_none] at blocks
    rcases d'.apply_cases { site with line := site.line + count } directive with
      ⟨next', applied'⟩ | ⟨_, wrong'⟩
    · cases (opened_applied (applied_of_apply applied')).symm.trans blocks
    · have notFurther : Directive.furtherName? .endif = none := rfl
      refine Or.inr ?_
      rcases wrong with ⟨rfl, failed⟩ | ⟨name, further, failed⟩
      · rcases wrong' with ⟨_, failed'⟩ | ⟨_, further', _⟩
        · exact ⟨_, failed, failed'⟩
        · cases further'
      · rcases wrong' with ⟨rfl, _⟩ | ⟨name', further', failed'⟩
        · cases further
        · cases further.symm.trans further'
          simp only [empty] at failed'
          exact ⟨_, failed, failed'⟩

/-- Taking in a line depends on the open blocks only. -/
theorem step_shift (same : d'.opened = shiftBlocks count d.opened) (line : LogicalLine) :
    Shifted count (d.step line) (d'.step (line.shift count)) := by
  by_cases kind : line.isDirective = true
  · have stepped (d : Draft) (line : LogicalLine) (kind : line.isDirective = true) :
        d.step line = ((Directive.ofText? line.text).bind
          (d.apply ⟨line.number, line.span⟩)).mapError fun fault => ⟨fault, line.number⟩ :=
      if_pos kind
    rw [stepped d line kind, stepped d' (line.shift count) kind]
    have text : (line.shift count).text = line.text := rfl
    rw [text]
    cases Directive.ofText? line.text with
    | error fault => exact .error ⟨fault, line.number⟩
    | ok directive =>
        rcases apply_shift same ⟨line.number, line.span⟩ directive with
          ⟨next, next', applied, applied', opened⟩ | ⟨fault, failed, failed'⟩
        · simp only [Except.bind, LogicalLine.shift, applied, applied']
          exact .ok opened
        · simp only [Except.bind, LogicalLine.shift, failed, failed']
          exact .error ⟨fault, line.number⟩
  · have added : d.step line = .ok (d.add (.text (String.ofList line.text))) := if_neg kind
    have added' : d'.step (line.shift count) = .ok (d'.add (.text (String.ofList line.text))) :=
      if_neg kind
    rw [added, added']
    exact .ok (by simpa using same)

/-- Drafting lines depends on the open blocks only. -/
theorem foldlM_shift (same : d'.opened = shiftBlocks count d.opened) (lines : List LogicalLine) :
    Shifted count (lines.foldlM step d) ((lines.map (LogicalLine.shift count)).foldlM step d') := by
  induction lines generalizing d d' with
  | nil => exact .ok same
  | cons line lines ih =>
      have first := step_shift same line
      rw [List.map_cons, List.foldlM_cons, List.foldlM_cons]
      generalize d.step line = next, d'.step (line.shift count) = next' at first
      cases first with
      | ok opened => exact ih opened
      | error e => exact .error e

theorem finish_error {e : DirectiveError} :
    d.finish = .error e ↔
      ∃ block ∈ d.opened.head?, e = ⟨.unclosedBlock block.1.opener.text, block.1.site.line⟩ := by
  obtain ⟨nodes, blocks⟩ := d
  cases blocks with
  | nil => simp [finish, opened]
  | cons b blocks => simp [finish, opened, eq_comm]

end Draft

/-- Behind lines with an outline others have an outline if they have one alone, and otherwise the
    same is wrong with them, as many lines further on. -/
theorem outlineOfLines?_append {front : List LogicalLine} {nodes : List Node}
    (outlined : outlineOfLines? front = .ok nodes) (count : Nat) (lines : List LogicalLine) :
    (∃ more whole, outlineOfLines? lines = .ok more ∧
        outlineOfLines? (front ++ lines.map (LogicalLine.shift count)) = .ok whole) ∨
      ∃ e, outlineOfLines? lines = .error e ∧
        outlineOfLines? (front ++ lines.map (LogicalLine.shift count)) =
          .error (e.shift count) := by
  have drafted := drafted_of_outlineOfLines? outlined
  have closed : Draft.opened ⟨nodes, []⟩ = shiftBlocks count Draft.empty.opened := rfl
  have behind := Draft.foldlM_shift closed lines
  have whole : outlineOfLines? (front ++ lines.map (LogicalLine.shift count)) =
      ((lines.map (LogicalLine.shift count)).foldlM Draft.step ⟨nodes, []⟩).bind Draft.finish := by
    rw [outlineOfLines?, List.foldlM_append, drafted]
    rfl
  rw [whole, outlineOfLines?]
  generalize lines.foldlM Draft.step .empty = result,
    (lines.map (LogicalLine.shift count)).foldlM Draft.step ⟨nodes, []⟩ = result' at behind
  cases behind with
  | error e => exact Or.inr ⟨e, rfl, rfl⟩
  | @ok d d' same =>
      simp only [Except.bind]
      cases finished : d.finish with
      | error e =>
          obtain ⟨block, first, rfl⟩ := Draft.finish_error.mp finished
          refine Or.inr ⟨_, rfl, Draft.finish_error.mpr ⟨(block.1.shift count, block.2), ?_, rfl⟩⟩
          rw [same, shiftBlocks, List.head?_map, Option.mem_def.mp first]
          rfl
      | ok more =>
          obtain ⟨parts, blocks⟩ := d
          cases blocks with
          | cons b blocks => cases finished
          | nil =>
              obtain ⟨parts', blocks'⟩ := d'
              obtain rfl : blocks' = [] := List.map_eq_nil_iff.mp same
              exact Or.inl ⟨more, parts', rfl, rfl⟩

/-! ## Symbols behind a text -/

/-- What a directive makes of a symbol: a value, or nothing if it removes the symbol. -/
def Directive.assignment? : Directive → Option (String × Option Bool)
  | .define name value => some (name, some value)
  | .undef name => some (name, none)
  | _ => none

/-- The table after several assignments. -/
def SymbolTable.assignAll (t : SymbolTable) (assignments : List (String × Option Bool)) :
    SymbolTable :=
  assignments.foldl (fun t a => t.assign a.1 a.2) t

namespace Pass

/-- What the definitions and their removals make of symbols, in order, as far as all branches
    around them are selected. -/
def assignments : Pass → List LogicalLine → List (String × Option Bool)
  | _, [] => []
  | p, line :: rest =>
    (if p.allActive then (line.directive?.bind Directive.assignment?).toList else [])
      ++ assignments (p.after line) rest

theorem symbols_apply (p : Pass) (directive : Directive) :
    (p.apply directive).symbols =
      p.symbols.assignAll (if p.active then directive.assignment?.toList else []) := by
  have further (holds : Bool) : (p.further holds).symbols = p.symbols := by
    obtain ⟨frames, symbols⟩ := p
    cases frames <;> rfl
  have nothing {directive : Directive} (none : directive.assignment? = none) :
      p.symbols.assignAll (if p.active then directive.assignment?.toList else []) =
        p.symbols := by
    rw [none]
    cases p.active <;> rfl
  cases directive with
  | branch opener condition =>
      rw [nothing rfl]
      cases opener with
      | elseIf => exact further _
      | ifCondition => rfl
      | ifDefined => rfl
      | ifNotDefined => rfl
  | otherwise =>
      rw [nothing rfl]
      exact further true
  | endif => exact (nothing rfl).symm
  | define name value =>
      rw [apply]
      cases p.active <;> rfl
  | undef name =>
      rw [apply]
      cases p.active <;> rfl
  | other name => exact (nothing rfl).symm

/-- One pass changes the symbols by what the selected definitions say. -/
theorem symbols_run {p : Pass} (consistent : Consistent p.frames) (lines : List LogicalLine) :
    (p.run lines).symbols = p.symbols.assignAll (p.assignments lines) := by
  induction lines generalizing p with
  | nil => rfl
  | cons line lines ih =>
      have later := ih (consistent_after consistent line)
      rw [run_cons, later, assignments, SymbolTable.assignAll, SymbolTable.assignAll,
        List.foldl_append, ← active_eq_allActive consistent]
      congr 1
      cases spelt : line.directive? with
      | none =>
          rw [after_of_none p spelt]
          cases p.active <;> rfl
      | some directive =>
          rw [after_of_directive? p spelt]
          exact symbols_apply p directive

end Pass

/-- The symbols behind a text: what its definitions leave, as far as they are in selected
    branches. -/
def symbolsBehind (text : List Char) (symbols : SymbolTable) : SymbolTable :=
  symbols.assignAll ((Pass.start symbols).assignments (logicalLines (Text.lines text)))

/-- Behind a text with an outline one pass is as in front of it, apart from the symbols. Walking
    through the outline leaves the same symbols. -/
theorem run_of_outlineOf? {text : List Char} {nodes : List Node}
    (outlined : outlineOf? text = .ok nodes) (symbols : SymbolTable) :
    (Pass.start symbols).run (logicalLines (Text.lines text)) =
        .start (symbolsBehind text symbols) ∧
      (walkAll true symbols nodes).2 = symbolsBehind text symbols := by
  have walked := walk_of_outlineOfLines? outlined ⟨symbols, true⟩
  rw [Progress.takeAll_eq] at walked
  have behind : Pass.start (walkAll true symbols nodes).2 =
      (Pass.start symbols).run (logicalLines (Text.lines text)) :=
    congrArg Progress.pass walked
  have left := Pass.symbols_run (p := .start symbols) .nil (logicalLines (Text.lines text))
  rw [← behind] at left
  have same : (walkAll true symbols nodes).2 = symbolsBehind text symbols := left
  exact ⟨by rw [← behind, same], same⟩

/-! ## Whole texts -/

/-- What lines leave in the flat text does not depend on their numbers. -/
theorem Pass.output_shift (preserveLines : Bool) (p : Pass) (count : Nat)
    (lines : List LogicalLine) :
    p.output preserveLines (lines.map (LogicalLine.shift count)) =
      p.output preserveLines lines := by
  induction lines generalizing p with
  | nil => rfl
  | cons line lines ih =>
      rw [List.map_cons, output_cons, output_cons]
      exact congrArg (p.shown preserveLines line ++ ·) (ih (p.after line))

/-- The flat text of a text with an outline. -/
theorem preprocess_eq_ok {text : String} {nodes : List Node}
    (outlined : outlineOf? text.toList = .ok nodes) (config : Configuration) :
    preprocess text config = .ok (Text.unlines ((Pass.start config.symbols).output
      config.preserveLines (logicalLines (Text.lines text.toList)))) := by
  rw [preprocess, outlined]
  exact congrArg (fun ls => Except.ok (Text.unlines ls)) (flatLines_eq_output outlined config)

/-- Behind whole lines with an outline, outside every comment and behind the end of the last
    directive, a text is preprocessed as it is alone with the symbols left there. Its flat text
    follows that of the lines in front of it, and its fault is reported as many lines further
    on. -/
theorem preprocess_append {front : String} {nodes : List Node} (ended : EndsLine front.toList)
    (outlined : outlineOf? front.toList = .ok nodes)
    (outside : commentBehind false (logicalLines (Text.lines front.toList)) = false)
    (complete : Complete (logicalLines (Text.lines front.toList)) (Text.lines front.toList))
    (rest : String) (config : Configuration) :
    ∃ flat, preprocess front config = .ok flat ∧
      preprocess (front ++ rest) config =
        match preprocess rest
          { config with symbols := symbolsBehind front.toList config.symbols } with
        | .ok more => .ok (flat ++ more)
        | .error e => .error (e.shift (Text.lines front.toList).length) := by
  refine ⟨_, preprocess_eq_ok outlined config, ?_⟩
  have lines : logicalLines (Text.lines (front ++ rest).toList) =
      logicalLines (Text.lines front.toList) ++
        (logicalLines (Text.lines rest.toList)).map
          (LogicalLine.shift (Text.lines front.toList).length) := by
    rw [String.toList_append, Text.lines_append ended, logicalLines_append outside complete]
  rcases outlineOfLines?_append outlined (Text.lines front.toList).length
      (logicalLines (Text.lines rest.toList)) with
    ⟨more, whole, alone, behind⟩ | ⟨e, alone, behind⟩
  · rw [← lines] at behind
    rw [preprocess_eq_ok behind, preprocess_eq_ok alone, lines, Pass.output_append,
      (run_of_outlineOf? outlined config.symbols).1, Pass.output_shift, Text.unlines_append]
  · rw [← lines] at behind
    have failed : preprocess (front ++ rest) config =
        .error (e.shift (Text.lines front.toList).length) := by
      rw [preprocess, outlineOf?, behind]
      rfl
    have failedAlone (config : Configuration) : preprocess rest config = .error e := by
      rw [preprocess, outlineOf?, alone]
      rfl
    rw [failed, failedAlone]

/-- A text with a definition in a branch that is not always selected. -/
def definingText : String :=
  "#if A\n#define B 0 \\\n // off\n#else\n#define C\n#endif\nx\n"

/-- With `A` the text leaves `B` defined and `C` not. A block that asks for `B` is selected behind
    it, and a directive without a block is reported seven lines further on than alone. -/
theorem definingText_append :
    (symbolsBehind definingText.toList (.ofFlags ["A"])).value? "B" = some false ∧
      (symbolsBehind definingText.toList (.ofFlags ["A"])).value? "C" = none ∧
      preprocess (definingText ++ "#ifdef B\ny\n#endif\n") ⟨.ofFlags ["A"], false⟩ =
        .ok "x\ny\n" ∧
      preprocess (definingText ++ "z\n#endif\n") ⟨.ofFlags ["A"], false⟩ =
        .error ⟨.unbalancedEndif, 9⟩ := by
  have flat : preprocess definingText ⟨.ofFlags ["A"], false⟩ = .ok "x\n" := by decide +kernel
  have last : definingText.toList.getLast? = some '\n' := by decide +kernel
  have ended : EndsLine definingText.toList := fun c isLast =>
    Option.some.inj (isLast.symm.trans last)
  have outside : commentBehind false (logicalLines (Text.lines definingText.toList)) = false := by
    decide +kernel
  have complete : Complete (logicalLines (Text.lines definingText.toList))
      (Text.lines definingText.toList) := by decide +kernel
  refine ⟨by decide +kernel, by decide +kernel, ?_⟩
  cases outlined : outlineOf? definingText.toList with
  | error error =>
      rw [preprocess, outlined] at flat
      cases flat
  | ok nodes =>
      have behind (rest : String) :
          preprocess (definingText ++ rest) ⟨.ofFlags ["A"], false⟩ =
            match preprocess rest
              ⟨symbolsBehind definingText.toList (.ofFlags ["A"]), false⟩ with
            | .ok more => .ok ("x\n" ++ more)
            | .error e => .error (e.shift (Text.lines definingText.toList).length) := by
        obtain ⟨alone, same, behind⟩ :=
          preprocess_append ended outlined outside complete rest ⟨.ofFlags ["A"], false⟩
        cases same.symm.trans flat
        exact behind
      have selected : preprocess "#ifdef B\ny\n#endif\n"
          ⟨symbolsBehind definingText.toList (.ofFlags ["A"]), false⟩ = .ok "y\n" := by
        decide +kernel
      have refused : preprocess "z\n#endif\n"
          ⟨symbolsBehind definingText.toList (.ofFlags ["A"]), false⟩ =
            .error ⟨.unbalancedEndif, 2⟩ := by decide +kernel
      rw [behind, behind, selected, refused]
      decide +kernel

end InterfaceHeader
