import InterfaceHeader.Proofs.Source.ErrorPlaces
import InterfaceHeader.Proofs.Source.Moved
import InterfaceHeader.Proofs.Source.PlainText

/-!
# Keeping line numbers

With line numbers kept, an empty line stands in the flat text for every line that was dropped.
Where no directive leaves a block comment open such a line never falls into a comment, so it only
moves the tokens behind it, all of them by the same amount and all of them on later lines than the
tokens in front of it. The empty lines are taken out one by one, and each time the text is read
alike (`preserveLines_read_alike`).
-/

namespace InterfaceHeader

/-- The places are in the same column. -/
def SameColumn (p p' : Position) : Prop :=
  p.column = p'.column

theorem SameColumn.refl (p : Position) : SameColumn p p := rfl

theorem SameColumn.trans (p p' p'' : Position) (same : SameColumn p p')
    (same' : SameColumn p' p'') : SameColumn p p'' :=
  Eq.trans same same'

/-! ## One empty line -/

/-- Places in front of `q` stay, those from `q` on move by one byte and one line. None of them is
    as far as the end of all texts. -/
structure Displaced (q p p' : Position) : Prop where
  held : p.offset < SyntaxError.endDepth ∧ p'.offset < SyntaxError.endDepth
  moved : (p = p' ∧ p'.offset < q.offset ∧ p'.line < q.line) ∨
    (p = p'.shift 1 1 ∧ q.offset ≤ p'.offset ∧ q.line ≤ p'.line)

namespace Displaced

variable {q p₁ p₁' p₂ p₂' : Position}

theorem offset_lt_iff (displaced₁ : Displaced q p₁ p₁') (displaced₂ : Displaced q p₂ p₂') :
    p₁.offset < p₂.offset ↔ p₁'.offset < p₂'.offset := by
  rcases displaced₁.moved with ⟨rfl, side₁, -⟩ | ⟨rfl, side₁, -⟩ <;>
    rcases displaced₂.moved with ⟨rfl, side₂, -⟩ | ⟨rfl, side₂, -⟩ <;>
    simp only [Position.shift] <;> omega

theorem line_eq_iff (displaced₁ : Displaced q p₁ p₁') (displaced₂ : Displaced q p₂ p₂') :
    p₁.line = p₂.line ↔ p₁'.line = p₂'.line := by
  rcases displaced₁.moved with ⟨rfl, -, side₁⟩ | ⟨rfl, -, side₁⟩ <;>
    rcases displaced₂.moved with ⟨rfl, -, side₂⟩ | ⟨rfl, -, side₂⟩ <;>
    simp only [Position.shift] <;> omega

theorem column_eq (displaced : Displaced q p₁ p₁') : p₁.column = p₁'.column := by
  rcases displaced.moved with ⟨rfl, -⟩ | ⟨rfl, -⟩ <;> rfl

theorem eq_iff (displaced₁ : Displaced q p₁ p₁') (displaced₂ : Displaced q p₂ p₂') :
    p₁ = p₂ ↔ p₁' = p₂' := by
  have below := offset_lt_iff displaced₁ displaced₂
  have above := offset_lt_iff displaced₂ displaced₁
  have sameLine := line_eq_iff displaced₁ displaced₂
  have column₁ := column_eq displaced₁
  have column₂ := column_eq displaced₂
  obtain ⟨o₁, l₁, c₁⟩ := p₁
  obtain ⟨o₂, l₂, c₂⟩ := p₂
  obtain ⟨o₁', l₁', c₁'⟩ := p₁'
  obtain ⟨o₂', l₂', c₂'⟩ := p₂'
  simp only [Position.mk.injEq] at *
  omega

end Displaced

theorem orderly_displaced (q : Position) : Orderly (Displaced q) :=
  ⟨Displaced.offset_lt_iff, Displaced.eq_iff,
    fun displaced => iff_of_true displaced.held.1 displaced.held.2⟩

theorem Position.line_le_advance (p : Position) (cs : List Char) :
    p.line ≤ (p.advance cs).line := by
  induction cs generalizing p with
  | nil => exact Nat.le_refl _
  | cons c cs ih =>
      refine Nat.le_trans ?_ (ih (p.next c))
      unfold next
      split
      · exact Nat.le_succ _
      · exact Nat.le_refl _

/-- Behind whole lines a line starts. -/
theorem Position.column_of_endsLine {cs : List Char} (ended : EndsLine cs) :
    (start.advance cs).column = 1 := by
  obtain rfl | ⟨line, rfl⟩ := ended.eq
  · rfl
  · rw [advance_append]
    rfl

/-- Each token of whole lines starts on a line before the one behind them. -/
theorem line_lt_of_tokensFrom {cs : List Char} {p : Position} {tokens : List Token}
    (ended : EndsLine cs) (scanned : tokensFrom cs p = .ok tokens) {t : Token} (mem : t ∈ tokens) :
    t.position.line < (p.advance cs).line := by
  obtain ⟨before, after, whole, nonempty, placed⟩ := exists_before_of_tokensFrom scanned mem
  rw [whole, List.append_assoc] at ended ⊢
  obtain empty | ⟨line, lastLine⟩ := ended.of_append.eq
  · exact absurd (List.append_eq_nil_iff.mp empty).1 nonempty
  · have nextLine : (p.advance (before ++ (line ++ ['\n']))).line =
        ((p.advance before).advance line).line + 1 := by
      rw [Position.advance_append, Position.advance_append]
      rfl
    rw [lastLine, nextLine, placed]
    exact Nat.lt_succ_of_le (Position.line_le_advance _ _)

/-- The tokens of whole lines stay, and those behind them are displaced by an empty line. -/
theorem displaced_tokens {front rest : List Char} {first later : List Token}
    (ended : EndsLine front) (scannedFirst : tokensFrom front .start = .ok first)
    (scannedLater : tokensFrom rest (Position.start.advance front) = .ok later)
    (held : (Position.start.advance (front ++ '\n' :: rest)).offset ≤ SyntaxError.endDepth) :
    List.Forall₂ (Token.Alike (Displaced (Position.start.advance front)))
      (first ++ later.map (·.shift 1 1)) (first ++ later) := by
  obtain ⟨q, reached⟩ : ∃ q, Position.start.advance front = q := ⟨_, rfl⟩
  have size : (Position.start.advance (front ++ '\n' :: rest)).offset =
      (q.advance rest).offset + 1 := by
    rw [Position.advance_append, reached, Position.advance_cons, Position.advance_offset,
      Position.advance_offset]
    show q.offset + 1 + _ = _
    omega
  rw [reached] at scannedLater ⊢
  rw [size] at held
  refine List.rel_append (List.forall₂_same.mpr fun t mem => ?_)
    (List.forall₂_map_left_iff.mpr (List.forall₂_same.mpr fun t mem => ?_))
  · have offsets := offset_lt_of_tokensFrom scannedFirst mem
    have above := line_lt_of_tokensFrom ended scannedFirst mem
    rw [reached] at offsets above
    have bound : q.offset ≤ (q.advance rest).offset := by
      rw [Position.advance_offset]
      exact Nat.le_add_right _ _
    exact ⟨rfl, rfl, ⟨by omega, Or.inl ⟨rfl, offsets, above⟩⟩⟩
  · have offsets := offset_lt_of_tokensFrom scannedLater mem
    have behind := (offsets_of_tokensFrom scannedLater mem).1
    obtain ⟨before, -, -, -, placed⟩ := exists_before_of_tokensFrom scannedLater mem
    have below : q.line ≤ t.position.line := placed ▸ q.line_le_advance before
    refine ⟨rfl, rfl, ⟨⟨?_, by omega⟩, Or.inr ⟨rfl, behind, below⟩⟩⟩
    show t.position.offset + 1 < SyntaxError.endDepth
    omega

/-- An empty line behind whole lines that leave no block comment open changes nothing but where the
    rest of the text stands. -/
theorem ofText?_insert_line {text text' : String} {front rest : List Char}
    (whole : text.toList = front ++ '\n' :: rest) (whole' : text'.toList = front ++ rest)
    (ended : EndsLine front) (closed : ¬ OpensBlockComment front)
    (held : text.utf8ByteSize ≤ SyntaxError.endDepth) :
    ReadAlike SameColumn (Header.ofText? text) (Header.ofText? text') := by
  obtain ⟨q, reached⟩ : ∃ q, Position.start.advance front = q := ⟨_, rfl⟩
  have column : q.column = 1 := reached ▸ Position.column_of_endsLine ended
  have movedOn : q.next '\n' = q.shift 1 1 := by
    rw [Position.shift, column]
    rfl
  have scanned := tokensFrom_append ended closed ('\n' :: rest) .start
  have scanned' := tokensFrom_append ended closed rest .start
  rw [← whole, ← tokenize_eq_tokensFrom, reached, tokensFrom_newline, movedOn,
    tokensFrom_shift] at scanned
  rw [← whole', ← tokenize_eq_tokensFrom, reached] at scanned'
  cases scannedFirst : tokensFrom front .start with
  | error e =>
      rw [scannedFirst] at scanned scanned'
      rw [Header.ofText?_eq, Header.ofText?_eq, scanned, scanned']
      exact .error (.lexical rfl rfl)
  | ok first =>
      cases scannedLater : tokensFrom rest q with
      | error e =>
          rw [scannedFirst, scannedLater] at scanned scanned'
          rw [Header.ofText?_eq, Header.ofText?_eq, scanned, scanned']
          exact .error (.lexical rfl rfl)
      | ok later =>
          rw [scannedFirst, scannedLater] at scanned scanned'
          have size : (Position.start.advance (front ++ '\n' :: rest)).offset ≤
              SyntaxError.endDepth := by
            rw [Position.advance_offset, ← whole, String.ofList_toList]
            show 0 + text.utf8ByteSize ≤ _
            omega
          have displaced := displaced_tokens ended scannedFirst (reached ▸ scannedLater) size
          exact (ofText?_alike (orderly_displaced _) Displaced.line_eq_iff scanned scanned'
            displaced).mono fun _ _ placed => placed.column_eq

/-! ## All empty lines -/

/-- Empty lines may be taken out where no block comment is open. -/
theorem ofText?_blanks {kept rest : List String} {n : Nat}
    (singleLines : ∀ line ∈ kept, '\n' ∉ line.toList)
    (closed : (kept.map String.toList).foldl endsInComment false = false)
    (held : (Text.unlines (kept ++ (List.replicate n "" ++ rest))).utf8ByteSize ≤
      SyntaxError.endDepth) :
    ReadAlike SameColumn
      (Header.ofText? (Text.unlines (kept ++ (List.replicate n "" ++ rest))))
      (Header.ofText? (Text.unlines (kept ++ rest))) := by
  induction n with
  | zero => exact ReadAlike.refl SameColumn.refl (Header.ofText? (Text.unlines (kept ++ rest)))
  | succ n ih =>
      obtain ⟨more, written⟩ : ∃ more, Text.unlines (List.replicate n "" ++ rest) = more := ⟨_, rfl⟩
      have blank : Text.unlines (kept ++ (List.replicate (n + 1) "" ++ rest)) =
          Text.unlines kept ++ ("\n" ++ more) := by
        rw [Text.unlines_append, List.replicate_succ, List.cons_append, Text.unlines_cons,
          String.empty_append, written]
      have fewer : Text.unlines (kept ++ (List.replicate n "" ++ rest)) =
          Text.unlines kept ++ more := by
        rw [Text.unlines_append, written]
      have noneOpen : ¬ OpensBlockComment (Text.unlines kept).toList := by
        rw [opensBlockComment_unlines singleLines, closed]
        exact Bool.false_ne_true
      rw [fewer] at ih
      rw [blank] at held ⊢
      have smaller : (Text.unlines kept ++ more).utf8ByteSize ≤ SyntaxError.endDepth := by
        simp only [String.utf8ByteSize_append] at held ⊢
        omega
      have split : (Text.unlines kept ++ ("\n" ++ more)).toList =
          (Text.unlines kept).toList ++ '\n' :: more.toList := by simp
      have oneLine :=
        ofText?_insert_line split String.toList_append (endsLine_unlines kept) noneOpen held
      exact oneLine.trans SameColumn.trans (ih smaller)

/-- A line is kept, or it leaves nothing but empty lines. Then no block comment is open in front of
    it, nor behind it, as far as the region is active. -/
theorem Pass.shown_cases {p : Pass} {source : Bool} {line : LogicalLine}
    (threaded : line.inComment = source)
    (closed : line.isDirective = true → endsInComment false line.text = false) :
    (p.active = true ∧ p.after line = p ∧
      ∀ preserveLines, p.shown preserveLines line = [String.ofList line.text]) ∨
    ∃ n, p.shown true line = List.replicate n "" ∧ p.shown false line = [] ∧
      (p.active && source) = false ∧
      ((p.after line).active && endsInComment source line.text) = false := by
  cases kind : line.isDirective with
  | true =>
      have outside : source = false := threaded ▸ LogicalLine.inComment_of_isDirective kind
      have ends : endsInComment source line.text = false := outside ▸ closed kind
      refine Or.inr ⟨line.span, shown_directive kind p, ?_, ?_, ?_⟩
      · rw [Pass.shown, if_pos kind]
        rfl
      · rw [outside, Bool.and_false]
      · rw [ends, Bool.and_false]
  | false =>
      have stays : p.after line = p := Pass.after_of_text kind
      cases active : p.active with
      | true =>
          refine Or.inl ⟨rfl, stays, fun preserveLines => ?_⟩
          simp [Pass.shown, kind, active]
      | false =>
          have shown (preserveLines : Bool) :
              p.shown preserveLines line = blankLines preserveLines 1 := by
            simp [Pass.shown, kind, active]
          refine Or.inr ⟨1, shown true, shown false, Bool.false_and _, ?_⟩
          rw [stays, active, Bool.false_and]

/-- Line by line, what is kept is read alike with the empty lines and without them. The lines kept
    so far say of comments what the source says where the region is active, and nothing where it
    is not. -/
theorem ofText?_output {p : Pass} {source : Bool} {kept : List String} {lines : List LogicalLine}
    (threaded : Threaded source lines)
    (closed : ∀ line ∈ lines, line.isDirective = true → endsInComment false line.text = false)
    (singleLines : ∀ line ∈ kept, '\n' ∉ line.toList) (oneLine : ∀ line ∈ lines, '\n' ∉ line.text)
    (sameState : (kept.map String.toList).foldl endsInComment false = (p.active && source))
    (held : (Text.unlines (kept ++ p.output true lines)).utf8ByteSize ≤ SyntaxError.endDepth) :
    ReadAlike SameColumn
      (Header.ofText? (Text.unlines (kept ++ p.output true lines)))
      (Header.ofText? (Text.unlines (kept ++ p.output false lines))) := by
  induction lines generalizing p source kept with
  | nil => exact ReadAlike.refl SameColumn.refl (Header.ofText? (Text.unlines (kept ++ [])))
  | cons line rest ih =>
      obtain ⟨inSource, threadedRest⟩ := threaded
      have closed' := fun l mem => closed l (List.mem_cons_of_mem line mem)
      have oneLine' := fun l mem => oneLine l (List.mem_cons_of_mem line mem)
      rcases p.shown_cases inSource (closed line List.mem_cons_self) with
        ⟨active, stays, shown⟩ | ⟨n, shown, shown', before, behind⟩
      · -- the line joins those that are kept
        have joined (preserveLines : Bool) :
            kept ++ p.output preserveLines (line :: rest) =
              (kept ++ [String.ofList line.text]) ++ p.output preserveLines rest := by
          rw [Pass.output_cons, shown, stays, List.append_assoc]
        rw [joined] at held
        rw [joined, joined]
        refine ih threadedRest closed' ?_ oneLine' ?_ held
        · intro l mem
          rcases List.mem_append.mp mem with mem | mem
          · exact singleLines l mem
          · rw [List.mem_singleton.mp mem, String.toList_ofList]
            exact oneLine line List.mem_cons_self
        · rw [List.map_append, List.foldl_append, sameState, active]
          simp
      · -- its empty lines are taken out behind those that are kept
        rw [Pass.output_cons, shown] at held ⊢
        rw [Pass.output_cons, shown', List.nil_append]
        rw [before] at sameState
        have smaller : (Text.unlines (kept ++ (p.after line).output true rest)).utf8ByteSize ≤
            SyntaxError.endDepth := by
          simp only [Text.unlines_append, String.utf8ByteSize_append] at held ⊢
          omega
        exact (ofText?_blanks singleLines sameState held).trans SameColumn.trans
          (ih threadedRest closed' singleLines oneLine' (sameState.trans behind.symm) smaller)

/-! ## The size of the flat text -/

namespace Text

theorem size_unlines_le {ls ms : List String}
    (noLonger : List.Forall₂ (fun l m => l.utf8ByteSize ≤ m.utf8ByteSize) ls ms) :
    (unlines ls).utf8ByteSize ≤ (unlines ms).utf8ByteSize := by
  induction noLonger with
  | nil => exact Nat.le_refl _
  | cons first _ ih =>
      simp only [unlines_cons, String.utf8ByteSize_append]
      omega

theorem size_dropReturn_le (line : List Char) :
    (String.ofList (dropReturn line)).utf8ByteSize ≤ (String.ofList line).utf8ByteSize := by
  obtain ⟨rest, whole⟩ := dropReturn_prefix line
  conv => rhs; rw [whole, String.ofList_append, String.utf8ByteSize_append]
  exact Nat.le_add_right _ _

/-- At most the newline at the end is new when a text is written line by line. -/
theorem size_unlines_lines_le (cs : List Char) :
    (unlines ((lines cs).map String.ofList)).utf8ByteSize ≤
      (String.ofList cs).utf8ByteSize + 1 := by
  have ofPieces (ps : List (List Char)) :
      (unlines ((linesOfPieces ps).map String.ofList)).utf8ByteSize ≤
        (String.ofList (['\n'].intercalate ps)).utf8ByteSize + 1 := by
    have newline : "\n".utf8ByteSize = 1 := rfl
    have separator : (String.ofList ['\n']).utf8ByteSize = 1 := rfl
    induction ps with
    | nil => simp [linesOfPieces]
    | cons piece rest ih =>
        cases rest with
        | nil =>
            rw [linesOfPieces]
            split
            · exact Nat.zero_le _
            · simp [newline]
        | cons next rest =>
            have shorter := size_dropReturn_le piece
            rw [linesOfPieces, List.map_cons, unlines_cons, List.intercalate_cons_cons]
            simp only [String.ofList_append, String.utf8ByteSize_append] at ih ⊢
            omega
  have whole := ofPieces (pieces '\n' cs)
  rwa [intercalate_pieces] at whole

end Text

theorem size_flatten_le {text : String} {nodes : List Node}
    (outlined : outlineOf? text.toList = .ok nodes) (symbols : SymbolTable) :
    (flatten nodes ⟨symbols, true⟩).utf8ByteSize ≤ text.utf8ByteSize + 1 := by
  obtain ⟨lengths, physical⟩ := flatLines_physical outlined symbols
  have written : (flatten nodes ⟨symbols, true⟩).utf8ByteSize ≤
      (Text.unlines ((Text.lines text.toList).map String.ofList)).utf8ByteSize := by
    refine Text.size_unlines_le (List.forall₂_iff_get.mpr ⟨by simpa using lengths, ?_⟩)
    intro k inFlat inPhysical
    rw [List.length_map] at inPhysical
    obtain ⟨_, _, _, _, _, sameLine⟩ := physical k inPhysical
    rw [List.getElem?_eq_getElem inFlat, Option.some_inj] at sameLine
    rw [List.get_eq_getElem, List.get_eq_getElem, sameLine, List.getElem_map]
    split
    · exact Nat.le_refl _
    · exact Nat.zero_le _
  have bound := Text.size_unlines_lines_le text.toList
  rw [String.ofList_toList] at bound
  exact Nat.le_trans written bound

/-- Where no directive leaves a block comment open, a text is read alike with line numbers kept and
    without: as the same header, with the same comments, or with errors of the same kind about the
    same thing in the same column. -/
theorem preserveLines_read_alike {text : String} (held : Text.Held text)
    (closed : ∀ line ∈ logicalLines (Text.lines text.toList), line.isDirective = true →
      endsInComment false line.text = false) (symbols : SymbolTable) :
    ReadAlike SameColumn (Header.ofSource? text ⟨symbols, true⟩)
      (Header.ofSource? text ⟨symbols, false⟩) := by
  cases outlined : outlineOf? text.toList with
  | error e =>
      have failed (config : Configuration) :
          Header.ofSource? text config = .error (.directive e) := by
        unfold Header.ofSource? preprocess
        rw [outlined]
        rfl
      rw [failed, failed]
      exact .error (.directive e)
  | ok nodes =>
      have flat (preserveLines : Bool) :
          Header.ofSource? text ⟨symbols, preserveLines⟩ =
            Header.ofText? (Text.unlines ([] ++ (Pass.start symbols).output preserveLines
              (logicalLines (Text.lines text.toList)))) := by
        rw [ofSource?_eq outlined, flatten, flatLines_eq_output outlined]
        rfl
      have size := size_flatten_le outlined symbols
      rw [flatten, flatLines_eq_output outlined] at size
      rw [flat, flat]
      refine ofText?_output (threaded_logicalFrom 1 false 0 _) closed (List.forall_mem_nil _) ?_
        rfl ?_
      · intro line lineMem newlineMem
        rcases mem_text_logicalFrom lineMem newlineMem with blank | ⟨l, mem, inside⟩
        · cases blank
        · exact Text.newline_not_mem_of_mem_lines mem inside
      · exact Nat.le_trans size held

/-- A text with a branch that is not selected, a comment over two lines and a slip behind it. -/
def branchedText : String :=
  "#if A\ntypedef int a;\n#endif\ntypedef enum \x7b /*\n*/ B, // b\n\x7d = ;\n"

/-- The slip is reported in the same column, three lines and three bytes further up where line
    numbers are not kept. -/
theorem branchedText_read_alike :
    Text.Held branchedText ∧
      (∀ line ∈ logicalLines (Text.lines branchedText.toList), line.isDirective = true →
        endsInComment false line.text = false) ∧
      Header.ofSource? branchedText ⟨.empty, true⟩ =
        .error (.grammatical ⟨some ⟨34, 6, 3⟩, "'='", ["';'"]⟩) ∧
      Header.ofSource? branchedText ⟨.empty, false⟩ =
        .error (.grammatical ⟨some ⟨31, 3, 3⟩, "'='", ["';'"]⟩) ∧
      ReadAlike SameColumn (Header.ofSource? branchedText ⟨.empty, true⟩)
        (Header.ofSource? branchedText ⟨.empty, false⟩) := by
  have held : Text.Held branchedText := by decide +kernel
  have closed : ∀ line ∈ logicalLines (Text.lines branchedText.toList),
      line.isDirective = true → endsInComment false line.text = false := by decide +kernel
  exact ⟨held, closed, ofSource?_of_refusal? (by decide +kernel),
    ofSource?_of_refusal? (by decide +kernel), preserveLines_read_alike held closed .empty⟩

end InterfaceHeader
