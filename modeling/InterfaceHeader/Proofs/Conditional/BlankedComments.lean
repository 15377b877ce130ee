import InterfaceHeader.Proofs.Conditional.Composition
import InterfaceHeader.Proofs.Conditional.Continuations
import InterfaceHeader.Proofs.Conditional.DirectiveComments
import InterfaceHeader.Proofs.Conditional.InertDirectives

/-!
# Blanking a comment of a directive

In a text a comment of a directive may be blanked: a block comment on one physical line may be
replaced by a space, and a line comment taken away, if no line is continued there before or after.
The logical lines stay where they are, and what the directive says stays the same, so the outline
of the text is the same, or the same is wrong with it. There is one exception, a block comment in
front of the name of the directive. The directive is kept as one without a name as long as the
comment is there.
-/

namespace InterfaceHeader

/-! ## Physical lines -/

namespace Text

theorem pieces_append {sep : Char} {front cs piece : List Char} {more : List (List Char)}
    (noSep : sep ∉ front) (cut : pieces sep cs = piece :: more) :
    pieces sep (front ++ cs) = (front ++ piece) :: more := by
  induction front with
  | nil => exact cut
  | cons c front ih =>
      have other : c ≠ sep := fun same => noSep (same ▸ List.mem_cons_self)
      have later := ih fun mem => noSep (List.mem_cons_of_mem c mem)
      rw [List.cons_append, pieces_cons, later, consPiece, if_neg other, List.cons_append]

/-- A character at the end of a line that is no carriage return stays there. -/
theorem dropReturn_of_last {line : List Char} (last : line.getLast? ≠ some '\r') :
    dropReturn line = line :=
  if_neg last

/-- What stands on a line behind a place, and the lines below, do not depend on what stands in
    front, if that does not end in a carriage return. -/
theorem exists_lines_behind (after : List Char) :
    ∃ back below, ∀ front, '\n' ∉ front → front ≠ [] → front.getLast? ≠ some '\r' →
      lines (front ++ after) = (front ++ back) :: below := by
  cases cut : pieces '\n' after with
  | nil => exact absurd cut (pieces_ne_nil '\n' after)
  | cons piece more =>
      cases more with
      | nil =>
          refine ⟨piece, [], fun front inLine some _ => ?_⟩
          rw [lines, pieces_append inLine cut, linesOfPieces, if_neg (by simp [some])]
      | cons next more =>
          refine ⟨dropReturn piece, linesOfPieces (next :: more), fun front inLine _ last => ?_⟩
          rw [lines, pieces_append inLine cut, linesOfPieces]
          congr 1
          by_cases empty : piece = []
          · rw [empty, List.append_nil, dropReturn_of_last last]
            exact (List.append_nil front).symm
          · exact dropReturn_append front empty

/-- The text ends here, or it goes on with the end of the line. -/
def AtLineEnd (after : List Char) : Prop :=
  after = [] ∨ (∃ below, after = '\n' :: below) ∨ ∃ below, after = '\r' :: '\n' :: below

/-- What stands in front of the end of a line is the line, but for a carriage return. -/
theorem exists_lines_end {after : List Char} (ends : AtLineEnd after) :
    ∃ below, (∀ front, '\n' ∉ front → front ++ after ≠ [] →
        lines (front ++ after) = front :: below) ∨
      ∀ front, '\n' ∉ front → lines (front ++ after) = dropReturn front :: below := by
  have ended {front : List Char} (inLine : '\n' ∉ front) (below : List Char) :
      lines (front ++ '\n' :: below) = dropReturn front :: lines below := by
    rw [lines, pieces_line inLine]
    cases cut : pieces '\n' below with
    | nil => exact absurd cut (pieces_ne_nil '\n' below)
    | cons next more => rw [linesOfPieces, lines, cut]
  rcases ends with rfl | ⟨below, rfl⟩ | ⟨below, rfl⟩
  · refine ⟨[], Or.inl fun front inLine some => ?_⟩
    have whole := pieces_append inLine (pieces_nil '\n')
    rw [List.append_nil] at some
    rw [lines, whole, List.append_nil, linesOfPieces, if_neg some]
  · exact ⟨lines below, Or.inr fun front inLine => ended inLine below⟩
  · refine ⟨lines below, Or.inl fun front inLine _ => ?_⟩
    have noBreak : '\n' ∉ front ++ ['\r'] := by simp [inLine]
    have whole := ended noBreak below
    have returned : dropReturn (front ++ ['\r']) = front := by simp [dropReturn]
    rwa [List.append_assoc, returned] at whole

/-- A line is what is left of it and a carriage return, or all is left. -/
theorem dropReturn_cases (line : List Char) :
    dropReturn line = line ∨ line = dropReturn line ++ ['\r'] := by
  unfold dropReturn
  split
  · rename_i last
    obtain ⟨front, rfl⟩ := List.getLast?_eq_some_iff.mp last
    exact Or.inr (by rw [List.dropLast_concat])
  · exact Or.inl rfl

/-- Taking away a comment at the end of a line leaves a line with what stands in front of it, but
    for a carriage return, if anything stands there. -/
theorem exists_lines_comment {front body after : List Char} (ends : AtLineEnd after)
    (inLine : '\n' ∉ front ++ '/' :: '/' :: body) :
    ∃ below body' left, body'.length ≤ body.length ∧ (left = front ∨ front = left ++ ['\r']) ∧
      lines (front ++ '/' :: '/' :: body ++ after) = (front ++ '/' :: '/' :: body') :: below ∧
      (front ++ after ≠ [] → lines (front ++ after) = left :: below) := by
  have inFront : '\n' ∉ front := fun mem => inLine (List.mem_append_left _ mem)
  obtain ⟨below, whole | returned⟩ := exists_lines_end ends
  · exact ⟨below, body, front, Nat.le_refl _, Or.inl rfl, whole _ inLine (by simp),
      whole front inFront⟩
  · refine ⟨below, dropReturn body, dropReturn front, ?_, dropReturn_cases front, ?_,
      fun _ => returned front inFront⟩
    · obtain ⟨rest, split⟩ := dropReturn_prefix body
      have length := congrArg List.length split
      rw [List.length_append] at length
      omega
    · rw [returned _ inLine]
      congr 1
      by_cases empty : body = []
      · rw [empty]
        exact dropReturn_of_last (by simp)
      · have behind := dropReturn_append (front ++ ['/', '/']) empty
        rwa [List.append_assoc, List.append_assoc] at behind

end Text

/-! ## One directive for another -/

/-- Two texts have the same logical lines, but for a directive that takes the same physical lines in
    both. -/
structure Exchanged (text text' : List Char) (line line' : LogicalLine) : Prop where
  lines : ∃ before behind, logicalLines (Text.lines text) = before ++ line :: behind ∧
    logicalLines (Text.lines text') = before ++ line' :: behind
  kind : line.isDirective = true
  kind' : line'.isDirective = true
  number : line'.number = line.number
  span : line'.span = line.span

namespace Exchanged

variable {text text' : List Char} {line line' : LogicalLine}

/-- If the directives say the same, the outlines are the same. -/
theorem outlineOf? (exchanged : Exchanged text text' line line')
    (same : Directive.ofText? line'.text = Directive.ofText? line.text) :
    outlineOf? text' = InterfaceHeader.outlineOf? text := by
  obtain ⟨before, behind, lines, lines'⟩ := exchanged.lines
  have stepped (d : Draft) : d.step line' = d.step line := by
    unfold Draft.step
    rw [exchanged.kind, exchanged.kind', exchanged.number, exchanged.span, same]
    rfl
  unfold InterfaceHeader.outlineOf? outlineOfLines?
  rw [lines, lines', List.foldlM_append, List.foldlM_append]
  simp only [List.foldlM_cons, stepped]

/-- If only one of them is without effect, the outlines are different. -/
theorem outlineOf?_ne (exchanged : Exchanged text text' line line') {name : String}
    (inert : Directive.ofText? line.text = .ok (.other name))
    (other : Directive.ofText? line'.text ≠ .ok (.other name)) {nodes : List Node}
    (outlined : InterfaceHeader.outlineOf? text = .ok nodes) :
    InterfaceHeader.outlineOf? text' ≠ .ok nodes := by
  intro outlined'
  obtain ⟨before, behind, lines, lines'⟩ := exchanged.lines
  have same := (inertAll_of_outlineOfLines? outlined').symm.trans
    (inertAll_of_outlineOfLines? outlined)
  rw [lines, lines', List.flatMap_append, List.flatMap_append, List.flatMap_cons,
    List.flatMap_cons, List.append_cancel_left_eq, List.append_cancel_right_eq] at same
  have kept : (name, ⟨line.number, line.span⟩) ∈ line.inert :=
    LogicalLine.mem_inert.mpr
      ⟨(LogicalLine.directive?_eq_some_iff exchanged.kind).mpr inert, rfl⟩
  rw [← same] at kept
  have spelt := (LogicalLine.mem_inert.mp kept).1
  exact other ((LogicalLine.directive?_eq_some_iff exchanged.kind').mp spelt)

end Exchanged

/-- Another physical line in the place of one that a directive takes exchanges the directive, if it
    is joined to as many lines and the same goes on behind them. -/
theorem exchanged_of_lines {text text' : List Char} {earlier below : List (List Char)}
    {physical other : List Char} {line : LogicalLine}
    (lines : Text.lines text = earlier ++ physical :: below)
    (lines' : Text.lines text' = earlier ++ other :: below)
    (among : line ∈ logicalLines (Text.lines text)) (kind : line.isDirective = true)
    (covers : line.Covers (earlier.length + 1))
    (starts : startsDirective (joinedFront (line.taken 1 earlier) ++ other) = true)
    (count : (joinContinued other below).2 = (joinContinued physical below).2)
    (comments : endsInComment false
        (joinedFront (line.taken 1 earlier) ++ (joinContinued other below).1) =
      endsInComment false line.text) :
    Exchanged text text' line (.joined line.number (line.taken 1 earlier) other below) := by
  rw [lines] at among
  rw [Nat.add_comm] at covers
  obtain ⟨-, started, same, before, others⟩ := logicalFrom_directive among kind covers
  have text := congrArg LogicalLine.text same
  have span := congrArg LogicalLine.span same
  have whole := others physical started
  have whole' := others other starts
  rw [← same, ← count] at whole
  dsimp only [LogicalLine.joined] at text span
  rw [← text, ← comments] at whole
  exact ⟨⟨before, _, by rw [lines]; exact whole, by rw [lines']; exact whole'⟩, kind,
    LogicalLine.isDirective_joined starts _ _, rfl, by rw [span, LogicalLine.joined, count]⟩

/-! ## Blanking a comment -/

/-- The part of a directive in front of a place on one of its physical lines, given the text above
    that line and the part of the line in front of the place. -/
def LogicalLine.upTo (line : LogicalLine) (above front : List Char) : List Char :=
  joinedFront (line.taken 1 (Text.lines above)) ++ front

/-- The last physical line up to a number ends in a backslash. -/
def ContinuedAt (text : List Char) (number : Nat) : Prop :=
  ((Text.lines text).take number).getLast?.any isContinued = true

instance (text : List Char) (number : Nat) : Decidable (ContinuedAt text number) :=
  inferInstanceAs (Decidable (_ = _))

/-- Whole lines, a part of the next line, and what follows on that line make up a text with the rest
    of it. The line belongs to a directive, and no comment is open behind the first part of it. -/
structure CommentIn (above front comment after : List Char) (line : LogicalLine) : Prop where
  ended : EndsLine above
  inLine : '\n' ∉ front ++ comment
  among : line ∈ logicalLines (Text.lines (above ++ front ++ comment ++ after))
  kind : line.isDirective = true
  covers : line.Covers ((Text.lines above).length + 1)
  outside : OutsideComments (line.upTo above front)

/-- What stands there is a comment, and what it is replaced with: a block comment by a space, and a
    line comment by nothing, at the end of a line that is continued neither before nor after. -/
inductive Replaces (above front after : List Char) : List Char → List Char → Prop where
  | block {body : List Char} : ¬ ['*', '/'] <:+: body →
      Replaces above front after ('/' :: '*' :: (body ++ ['*', '/'])) [' ']
  | line {body : List Char} : Text.AtLineEnd after →
      ¬ ContinuedAt (above ++ front ++ '/' :: '/' :: body ++ after)
        ((Text.lines above).length + 1) →
      ¬ ContinuedAt (above ++ front ++ after) ((Text.lines above).length + 1) →
      Replaces above front after ('/' :: '/' :: body) []

theorem continuedAt_iff {text : List Char} {earlier below : List (List Char)}
    {physical : List Char} (lines : Text.lines text = earlier ++ physical :: below) :
    ContinuedAt text (earlier.length + 1) ↔ isContinued physical = true := by
  simp [ContinuedAt, lines, List.take_append]

/-- A directive that takes lines at the end of a text, all continued, is continued there. -/
theorem continuedAt_of_taken {text : List Char} {line : LogicalLine}
    (continued : ∀ l ∈ line.taken 1 (Text.lines text), isContinued l = true)
    (starts : startsDirective (joinedFront (line.taken 1 (Text.lines text))) = true) :
    ContinuedAt text ((Text.lines text).length + 1) := by
  unfold LogicalLine.taken at continued starts
  have whole := List.take_append_drop (line.number - 1) (Text.lines text)
  rcases List.eq_nil_or_concat ((Text.lines text).drop (line.number - 1)) with
    none | ⟨_, last, split⟩
  · rw [none] at starts
    cases starts
  · rw [split] at continued whole
    rw [ContinuedAt, List.take_of_length_le (Nat.le_succ _), ← whole]
    simpa using continued last (by simp)

/-- A directive line starts in front of what does not start one. -/
theorem startsDirective_front {front rest : List Char}
    (starts : startsDirective (front ++ rest) = true) (other : startsDirective rest = false) :
    startsDirective front = true := by
  unfold startsDirective at *
  by_cases blank : Text.trimStart front = []
  · rw [Text.trimStart_blanks (Text.blank_of_trimStart blank), other] at starts
    cases starts
  · obtain ⟨c, cs, visible⟩ := List.exists_cons_of_ne_nil blank
    rw [Text.trimStart_append blank, visible] at starts
    rw [visible]
    exact starts

theorem startsDirective_slash (rest : List Char) : startsDirective ('/' :: rest) = false := by
  have visible : Text.trimStart ('/' :: rest) = '/' :: rest :=
    Text.trimStart_of_head (by decide : Text.isBlank '/' = false)
  rw [startsDirective, visible]
  rfl

section

variable {above front comment after : List Char} {line : LogicalLine}

theorem CommentIn.inLine_upTo (commented : CommentIn above front comment after line) :
    '\n' ∉ line.upTo above front := by
  intro mem
  rcases List.mem_append.mp mem with mem | mem
  · obtain ⟨l, taken, inside⟩ := List.mem_flatMap.mp mem
    rcases List.mem_append.mp inside with inside | inside
    · exact Text.newline_not_mem_of_mem_lines (List.mem_of_mem_drop taken)
        (List.dropLast_subset l inside)
    · cases List.mem_singleton.mp inside
  · exact commented.inLine (List.mem_append_left comment mem)

/-- With the text behind the place where the comment starts, the directive is what its earlier
    lines come to and what the line with the comment is joined to. -/
theorem CommentIn.directive (commented : CommentIn above front comment after line)
    {back : List Char} {below : List (List Char)}
    (lines : Text.lines (above ++ front ++ comment ++ after) =
      Text.lines above ++ (front ++ '/' :: back) :: below) :
    (∀ l ∈ line.taken 1 (Text.lines above), isContinued l = true) ∧
      startsDirective (line.upTo above front) = true ∧
      line.text = joinedFront (line.taken 1 (Text.lines above)) ++
        (joinContinued (front ++ '/' :: back) below).1 := by
  have among := commented.among
  have covers := commented.covers
  rw [lines] at among
  rw [Nat.add_comm] at covers
  obtain ⟨continued, started, whole, -⟩ := logicalFrom_directive among commented.kind covers
  refine ⟨continued, startsDirective_front ?_ (startsDirective_slash back),
    congrArg LogicalLine.text whole⟩
  rwa [LogicalLine.upTo, List.append_assoc]

/-- Blanking a block comment exchanges the directive for one with a space there. -/
theorem exchanged_block {body : List Char} (closed : ¬ ['*', '/'] <:+: body)
    (same : comment = '/' :: '*' :: (body ++ ['*', '/']))
    (commented : CommentIn above front comment after line) :
    ∃ line' behind, startsDirective (line.upTo above front) = true ∧
      line.text = line.upTo above front ++ (comment ++ behind) ∧
      line'.text = line.upTo above front ++ ([' '] ++ behind) ∧
      Exchanged (above ++ front ++ comment ++ after) (above ++ front ++ [' '] ++ after)
        line line' := by
  obtain ⟨back, below, behind⟩ := Text.exists_lines_behind after
  have last : comment.getLast? = some '/' := by simp [same, List.getLast?_cons]
  have inLine : '\n' ∉ front := fun mem => commented.inLine (List.mem_append_left comment mem)
  have cut := behind (front ++ comment) commented.inLine (by simp [same])
    (by simp [List.getLast?_append, last])
  have cut' := behind (front ++ [' ']) (by simpa using inLine) (by simp) (by simp)
  have lines : Text.lines (above ++ front ++ comment ++ after) =
      Text.lines above ++ (front ++ comment ++ back) :: below := by
    rw [List.append_assoc above, List.append_assoc above, Text.lines_append commented.ended, cut]
  have lines' : Text.lines (above ++ front ++ [' '] ++ after) =
      Text.lines above ++ (front ++ [' '] ++ back) :: below := by
    rw [List.append_assoc above, List.append_assoc above, Text.lines_append commented.ended, cut']
  have ended : isContinued (front ++ comment) = false := by simp [isContinued, last]
  have ended' : isContinued (front ++ [' ']) = false := by simp [isContinued]
  have joined := joinContinued_front ended back below
  have joined' := joinContinued_front ended' back below
  have slash : front ++ comment ++ back =
      front ++ '/' :: ('*' :: (body ++ ['*', '/']) ++ back) := by simp [same]
  obtain ⟨-, starts, spelt⟩ := commented.directive (slash ▸ lines)
  have text : line.text = line.upTo above front ++
      (comment ++ (joinContinued back below).1) := by
    rw [← slash, joined] at spelt
    simpa [LogicalLine.upTo] using spelt
  have text' : joinedFront (line.taken 1 (Text.lines above)) ++
        (joinContinued (front ++ [' '] ++ back) below).1 =
      line.upTo above front ++ ([' '] ++ (joinContinued back below).1) := by
    rw [joined']
    simp [LogicalLine.upTo]
  refine ⟨.joined line.number (line.taken 1 (Text.lines above)) (front ++ [' '] ++ back) below, _,
    starts, text, text', ?_⟩
  refine exchanged_of_lines lines lines' commented.among commented.kind commented.covers ?_ ?_ ?_
  · have starts' := startsDirective_append starts ([' '] ++ back)
    simpa [LogicalLine.upTo] using starts'
  · rw [joined, joined']
  · have inLine := commented.inLine_upTo
    have blanked : Blanked comment [' '] (joinContinued back below).1 := same ▸ .block closed
    rw [text, text', commented.outside.endsInComment inLine,
      commented.outside.endsInComment inLine, blanked.endsInComment]

/-- With or without the carriage return in front of a line comment, what is left of the directive
    says the same and leaves no comment open. -/
theorem CommentIn.left {left : List Char} (commented : CommentIn above front comment after line)
    (starts : startsDirective (line.upTo above front) = true)
    (kept : left = front ∨ front = left ++ ['\r']) :
    startsDirective (joinedFront (line.taken 1 (Text.lines above)) ++ left) = true ∧
      Directive.ofText? (joinedFront (line.taken 1 (Text.lines above)) ++ left) =
        Directive.ofText? (line.upTo above front) ∧
      endsInComment false (joinedFront (line.taken 1 (Text.lines above)) ++ left) = false := by
  have closed : endsInComment false (line.upTo above front) = false := by
    have nothing := commented.outside.endsInComment commented.inLine_upTo []
    rwa [List.append_nil] at nothing
  rcases kept with rfl | returned
  · exact ⟨starts, rfl, closed⟩
  · have whole : line.upTo above front =
        joinedFront (line.taken 1 (Text.lines above)) ++ left ++ ['\r'] := by
      rw [LogicalLine.upTo, returned, List.append_assoc]
    rw [whole] at starts closed ⊢
    have starts' := startsDirective_front starts (by decide)
    rw [(comments_return false _).2] at closed
    exact ⟨starts', (ofText?_return starts').symm, closed⟩

/-- Taking away a line comment exchanges the directive for one that ends there. -/
theorem exchanged_line {body : List Char} (same : comment = '/' :: '/' :: body)
    (ends : Text.AtLineEnd after)
    (last : ¬ ContinuedAt (above ++ front ++ comment ++ after) ((Text.lines above).length + 1))
    (last' : ¬ ContinuedAt (above ++ front ++ after) ((Text.lines above).length + 1))
    (commented : CommentIn above front comment after line) :
    ∃ line' body', startsDirective (line.upTo above front) = true ∧
      body'.length ≤ body.length ∧
      line.text = line.upTo above front ++ '/' :: '/' :: body' ∧
      Directive.ofText? line'.text = Directive.ofText? (line.upTo above front) ∧
      Exchanged (above ++ front ++ comment ++ after) (above ++ front ++ after) line line' := by
  have inComment := commented.inLine
  rw [same] at inComment
  obtain ⟨below, body', left, length, kept, cut, cut'⟩ := Text.exists_lines_comment ends inComment
  have lines : Text.lines (above ++ front ++ comment ++ after) =
      Text.lines above ++ (front ++ '/' :: '/' :: body') :: below := by
    rw [List.append_assoc above, List.append_assoc above, Text.lines_append commented.ended, same,
      cut]
  obtain ⟨continued, starts, spelt⟩ := commented.directive lines
  have some : front ++ after ≠ [] := by
    intro nothing
    obtain ⟨rfl, rfl⟩ := List.append_eq_nil_iff.mp nothing
    rw [LogicalLine.upTo, List.append_nil] at starts
    refine last' ?_
    rw [List.append_nil, List.append_nil]
    exact continuedAt_of_taken continued starts
  have lines' : Text.lines (above ++ front ++ after) = Text.lines above ++ left :: below := by
    rw [List.append_assoc, Text.lines_append commented.ended, cut' some]
  rw [continuedAt_iff lines, Bool.not_eq_true] at last
  rw [continuedAt_iff lines', Bool.not_eq_true] at last'
  have joined := joinContinued_of_ended last below
  have joined' := joinContinued_of_ended last' below
  have text : line.text = line.upTo above front ++ '/' :: '/' :: body' := by
    rw [joined] at spelt
    simpa [LogicalLine.upTo] using spelt
  have closed : endsInComment false line.text = false := by
    rw [text, commented.outside.endsInComment commented.inLine_upTo]
    rfl
  obtain ⟨starts', reads, closed'⟩ := commented.left starts kept
  refine ⟨.joined line.number (line.taken 1 (Text.lines above)) left below, body', starts, length,
    text, ?_, ?_⟩
  · rw [LogicalLine.joined, joined']
    exact reads
  · refine exchanged_of_lines lines lines' commented.among commented.kind commented.covers starts'
      ?_ ?_
    · rw [joined, joined']
    · rw [closed, joined', closed']

end

/-- The comment of the line behind a place stands between its hash mark and its name. -/
def LogicalLine.HidesName (line : LogicalLine) (above front comment : List Char) : Prop :=
  InterfaceHeader.HidesName (line.upTo above front)
    (line.text.drop (line.upTo above front ++ comment).length)

instance (line : LogicalLine) (above front comment : List Char) :
    Decidable (line.HidesName above front comment) :=
  inferInstanceAs (Decidable (InterfaceHeader.HidesName _ _))

/-- Blanking a comment of a directive leaves the outline of the text as it is, or what is wrong
    with it, unless the comment hides the name of the directive. If it does, a text with an outline
    gets another one or none. -/
theorem outlineOf?_blanked {above front comment replacement after : List Char} {line : LogicalLine}
    (commented : CommentIn above front comment after line)
    (replaces : Replaces above front after comment replacement) :
    (¬ line.HidesName above front comment →
      outlineOf? (above ++ front ++ replacement ++ after) =
        outlineOf? (above ++ front ++ comment ++ after)) ∧
    (line.HidesName above front comment → ∀ nodes,
      outlineOf? (above ++ front ++ comment ++ after) = .ok nodes →
        outlineOf? (above ++ front ++ replacement ++ after) ≠ .ok nodes) := by
  have inLine := commented.inLine_upTo
  cases replaces with
  | @block body closed =>
      obtain ⟨line', behind, starts, text, text', exchanged⟩ :=
        exchanged_block closed rfl commented
      have rest : line.text.drop
          (line.upTo above front ++ '/' :: '*' :: (body ++ ['*', '/'])).length = behind := by
        rw [text, ← List.append_assoc, List.drop_left]
      have blanked : Blanked ('/' :: '*' :: (body ++ ['*', '/'])) [' '] behind := .block closed
      obtain ⟨same, hides⟩ := ofText?_blanked starts commented.outside inLine blanked
      rw [← text, ← text'] at same hides
      rw [LogicalLine.HidesName, rest]
      refine ⟨fun shown => exchanged.outlineOf? (same shown), fun hidden nodes outlined => ?_⟩
      exact exchanged.outlineOf?_ne (hides hidden).1 (hides hidden).2 outlined
  | @line body ends last last' =>
      obtain ⟨line', body', starts, length, text, reads, exchanged⟩ :=
        exchanged_line rfl ends last last' commented
      have rest : line.text.drop (line.upTo above front ++ '/' :: '/' :: body).length = [] := by
        rw [text]
        refine List.drop_of_length_le ?_
        simp [length]
      have shown : ¬ line.HidesName above front ('/' :: '/' :: body) := by
        rw [LogicalLine.HidesName, rest]
        exact fun hidden => hidden.2 rfl
      have blanked : Blanked ('/' :: '/' :: body') [] [] := .line
      have same := (ofText?_blanked starts commented.outside inLine blanked).1
        fun hidden => hidden.2 rfl
      rw [List.append_nil, List.append_nil, List.append_nil, ← text, ← reads] at same
      rw [List.append_nil]
      exact ⟨fun _ => exchanged.outlineOf? same, fun hidden => absurd hidden shown⟩

theorem endsLine_of_getLast? {cs : List Char} (last : cs.getLast? = some '\n') : EndsLine cs :=
  fun _ isLast => Option.some.inj (isLast.symm.trans last)

/-- A definition over two lines, with a comment of either kind on the second one. -/
def commentedDefinition : LogicalLine :=
  ⟨"#define X  /* a */ 1 // b".toList, 1, 2, false⟩

theorem commentedDefinition_block :
    CommentIn "#define X \\\n".toList [] "/* a */".toList " 1 // b\n".toList
      commentedDefinition where
  ended := endsLine_of_getLast? (by decide +kernel)
  inLine := by decide +kernel
  among := by decide +kernel
  kind := by decide +kernel
  covers := ⟨by decide +kernel, by decide +kernel⟩
  outside := .of_not_mem (by decide +kernel)

theorem commentedDefinition_line :
    CommentIn "#define X \\\n".toList "/* a */ 1 ".toList "// b".toList "\n".toList
      commentedDefinition where
  ended := endsLine_of_getLast? (by decide +kernel)
  inLine := by decide +kernel
  among := by decide +kernel
  kind := by decide +kernel
  covers := ⟨by decide +kernel, by decide +kernel⟩
  outside := fun _ => rfl

/-- A definition with a comment in front of its name. -/
def hiddenDefinition : LogicalLine :=
  ⟨"#/* a */define X".toList, 1, 1, false⟩

theorem hiddenDefinition_block :
    CommentIn [] "#".toList "/* a */".toList "define X\n".toList hiddenDefinition where
  ended := nofun
  inLine := by decide +kernel
  among := by decide +kernel
  kind := by decide +kernel
  covers := ⟨by decide +kernel, by decide +kernel⟩
  outside := .of_not_mem (by decide +kernel)

/-- Behind its name, a directive may have comments on each line. In front of it, it may not. -/
theorem commentedDefinition_blanked :
    outlineOf? "#define X \\\n  1 // b\n".toList =
        outlineOf? "#define X \\\n/* a */ 1 // b\n".toList ∧
      outlineOf? "#define X \\\n/* a */ 1 \n".toList =
        outlineOf? "#define X \\\n/* a */ 1 // b\n".toList ∧
      outlineOf? "#/* a */define X\n".toList = .ok [.other "" ⟨1, 1⟩] ∧
      outlineOf? "# define X\n".toList ≠ .ok [.other "" ⟨1, 1⟩] := by
  have closed : ¬ ['*', '/'] <:+: " a ".toList := by decide +kernel
  have ends : Text.AtLineEnd "\n".toList := Or.inr (Or.inl ⟨[], rfl⟩)
  obtain ⟨block, -⟩ := outlineOf?_blanked commentedDefinition_block (.block closed)
  obtain ⟨line, -⟩ := outlineOf?_blanked commentedDefinition_line
    (.line ends (by decide +kernel) (by decide +kernel))
  obtain ⟨-, hidden⟩ := outlineOf?_blanked hiddenDefinition_block (.block closed)
  have outlined : outlineOf? "#/* a */define X\n".toList = .ok [.other "" ⟨1, 1⟩] := by
    rfl
  refine ⟨block (by decide +kernel), line (by decide +kernel), outlined,
    hidden (by decide +kernel) _ outlined⟩

/-- A test of a symbol with a comment in front of its name. -/
def hiddenTest : LogicalLine :=
  ⟨"#/* guard */ifdef A".toList, 1, 1, false⟩

/-- Where a comment hides the name of a directive that opens a block, the block is not opened, and
    the directive that closes it is refused. With a space instead of the comment, the text has an
    outline. -/
theorem hiddenTest_refused :
    CommentIn [] "#".toList "/* guard */".toList "ifdef A\nint a;\n#endif\n".toList hiddenTest ∧
      Replaces [] "#".toList "ifdef A\nint a;\n#endif\n".toList "/* guard */".toList [' '] ∧
      outlineOf? "#/* guard */ifdef A\nint a;\n#endif\n".toList =
        .error ⟨.unbalancedEndif, 3⟩ ∧
      outlineOf? "# ifdef A\nint a;\n#endif\n".toList = .ok
        [.ifThen ⟨.ifDefined, .defined "A", ⟨1, 1⟩⟩ [.text "int a;"] 1] := by
  have closed : ¬ ['*', '/'] <:+: " guard ".toList := by decide +kernel
  refine ⟨?_, .block closed, rfl, rfl⟩
  exact
    { ended := nofun
      inLine := by decide +kernel
      among := by decide +kernel
      kind := by decide +kernel
      covers := ⟨by decide +kernel, by decide +kernel⟩
      outside := .of_not_mem (by decide +kernel) }

end InterfaceHeader
