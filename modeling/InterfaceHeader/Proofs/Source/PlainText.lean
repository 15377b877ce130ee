import InterfaceHeader.Declaration.Source
import InterfaceHeader.Proofs.Conditional.Idempotence
import InterfaceHeader.Proofs.Token.CommentLines

/-!
# Texts that scan as they are

No token starts with a hash mark, so a text that scans has one only inside its comments. There a
line that looks like a directive is none, because conditional compilation knows that it starts
inside a comment. So such a text has no directives, and reading it under any configuration is
reading it as it is (`ofSource?_of_scans`).
-/

namespace InterfaceHeader

/-! ## Hash marks -/

/-- No token starts with a hash mark. -/
theorem firstMatch?_hash (cs : List Char) : firstMatch? rules '#' cs = none := by
  cases fit : firstMatch? rules '#' cs with
  | none => rfl
  | some found =>
      obtain ⟨kind, reach⟩ := found
      obtain ⟨rule, mem, -, reaches⟩ := exists_rule_of_firstMatch? fit
      have starts := mayStart_of_reach? mem (by rw [reaches]; rfl)
      rcases mem_rules mem with ⟨word, rfl⟩ | ⟨mark, rfl⟩ | rfl | rfl | rfl | rfl
      · cases word <;> exact absurd starts (by decide)
      · cases mark <;> exact absurd starts (by decide)
      all_goals exact absurd starts (by decide)

/-- A line that starts like a directive does not scan. -/
theorem not_startsDirective_of_tokensFrom {line more : List Char} {p : Position}
    {tokens : List Token} (scanned : tokensFrom (line ++ more) p = .ok tokens) :
    startsDirective line = false := by
  induction line generalizing p with
  | nil => rfl
  | cons c line ih =>
      rw [List.cons_append] at scanned
      cases visible : Text.isBlank c with
      | true =>
          rw [tokensFrom_blank visible] at scanned
          have later := ih scanned
          rwa [startsDirective, Text.trimStart, List.dropWhile_cons_of_pos visible]
      | false =>
          rw [startsDirective, Text.trimStart, List.dropWhile_cons_of_neg (by simp [visible])]
          by_cases hash : c = '#'
          · subst hash
            rw [tokensFrom_none visible (firstMatch?_hash _)] at scanned
            cases scanned
          · simpa using hash

/-! ## Lines of the text -/

theorem Text.mem_intercalate {sep c : Char} {piece : List Char} {ps : List (List Char)}
    (mem : piece ∈ ps) (inside : c ∈ piece) : c ∈ [sep].intercalate ps := by
  induction ps with
  | nil => cases mem
  | cons first rest ih =>
      cases rest with
      | nil =>
          obtain rfl := List.mem_singleton.mp mem
          simpa using inside
      | cons next rest =>
          rw [List.intercalate_cons_cons, List.mem_append]
          rcases List.mem_cons.mp mem with rfl | mem
          · exact Or.inl (List.mem_append_left _ inside)
          · exact Or.inr (ih mem)

/-- Without carriage returns the lines of a text make up the text again, and at most the newline at
    its end is new. -/
theorem Text.unlines_lines {cs : List Char} (noReturn : '\r' ∉ cs) :
    (unlines ((lines cs).map String.ofList)).toList = cs ∨
      (unlines ((lines cs).map String.ofList)).toList = cs ++ ['\n'] := by
  have written (ps : List (List Char)) (some : ps ≠ []) (plain : ∀ piece ∈ ps, '\r' ∉ piece) :
      (linesOfPieces ps).flatMap (· ++ ['\n']) = ['\n'].intercalate ps ∨
        (linesOfPieces ps).flatMap (· ++ ['\n']) = ['\n'].intercalate ps ++ ['\n'] := by
    induction ps with
    | nil => exact absurd rfl some
    | cons piece rest ih =>
        cases rest with
        | nil =>
            rw [linesOfPieces]
            split
            · rename_i empty
              subst empty
              exact Or.inl rfl
            · exact Or.inr (by simp)
        | cons next rest =>
            have later :=
              ih (List.cons_ne_nil _ _) fun q mem => plain q (List.mem_cons_of_mem _ mem)
            rw [linesOfPieces, List.flatMap_cons, dropReturn_eq_self (plain _ List.mem_cons_self),
              List.intercalate_cons_cons, List.append_assoc]
            rcases later with later | later
            · exact Or.inl (by rw [later, List.append_assoc])
            · exact Or.inr (by rw [later]; simp)
  have plain : ∀ piece ∈ pieces '\n' cs, '\r' ∉ piece := by
    intro piece mem inside
    refine noReturn ?_
    rw [← intercalate_pieces '\n' cs]
    exact mem_intercalate mem inside
  have whole := written (pieces '\n' cs) (pieces_ne_nil _ _) plain
  rw [intercalate_pieces] at whole
  rw [toList_unlines, List.flatMap_map]
  simpa [lines] using whole

/-- A line break at the end adds no tokens. -/
theorem tokenize_concat_newline {cs : List Char} {tokens : List Token}
    (scanned : tokenize cs = .ok tokens) : tokenize (cs ++ ['\n']) = .ok tokens := by
  rw [tokenize_append_newline scanned, tokenize_eq_tokensFrom, tokensFrom_nil]
  exact congrArg Except.ok (List.append_nil tokens)

/-- Behind any of its lines, a text that scans has no line that starts a directive. -/
theorem allText_of_tokensFrom {before after : List String} {tokens : List Token}
    (single : ∀ line ∈ before ++ after, '\n' ∉ line.toList)
    (scanned : tokensFrom (Text.unlines (before ++ after)).toList .start = .ok tokens) :
    AllText ((before.map String.toList).foldl endsInComment false) (after.map String.toList) := by
  induction after generalizing before with
  | nil => trivial
  | cons line rest ih =>
      have whole : before ++ line :: rest = (before ++ [line]) ++ rest := by simp
      have later := ih (by rwa [← whole]) (by rwa [← whole])
      rw [List.map_append, List.foldl_append] at later
      refine ⟨?_, later⟩
      cases inside : (before.map String.toList).foldl endsInComment false with
      | true => rfl
      | false =>
          -- outside comments the text from this line on scans by itself
          have front : ∀ l ∈ before, '\n' ∉ l.toList := fun l mem =>
            single l (List.mem_append_left _ mem)
          have closed : ¬ OpensBlockComment (Text.unlines before).toList := by
            rw [opensBlockComment_unlines front, inside]
            exact Bool.false_ne_true
          rw [Text.unlines_append, String.toList_append] at scanned
          obtain ⟨_, _, -, behind, -⟩ :=
            tokensFrom_append_ok (endsLine_unlines before) closed scanned
          rw [Text.unlines_cons, String.append_assoc, String.toList_append] at behind
          rw [not_startsDirective_of_tokensFrom behind]
          rfl

/-! ## Reading under any configuration -/

/-- Texts with the same lines have the same flat text. -/
theorem preprocess_congr {text other : String}
    (same : Text.lines text.toList = Text.lines other.toList) (config : Configuration) :
    preprocess text config = preprocess other config := by
  unfold preprocess outlineOf?
  rw [same]

section

variable {text : String} {tokens : List Token}

/-- Written line by line again, the text has the same tokens. -/
theorem tokenize_unlines_lines (noReturn : '\r' ∉ text.toList)
    (scanned : tokenize text.toList = .ok tokens) :
    tokenize (Text.unlines ((Text.lines text.toList).map String.ofList)).toList = .ok tokens := by
  rcases Text.unlines_lines noReturn with whole | whole
  · rw [whole, scanned]
  · rw [whole, tokenize_concat_newline scanned]

/-- No line of a text has a line end in it, if there are no carriage returns. -/
theorem single_of_lines (noReturn : '\r' ∉ text.toList) :
    ∀ line ∈ (Text.lines text.toList).map String.ofList,
      '\n' ∉ line.toList ∧ '\r' ∉ line.toList := by
  intro line mem
  obtain ⟨physical, among, rfl⟩ := List.mem_map.mp mem
  rw [String.toList_ofList]
  exact ⟨Text.newline_not_mem_of_mem_lines among,
    fun inside => noReturn (Text.mem_of_mem_lines among inside)⟩

theorem map_toList_ofList (physical : List (List Char)) :
    (physical.map String.ofList).map String.toList = physical := by
  simp [List.map_map, Function.comp_def]

/-- The lines of a text that scans start no directive. -/
theorem allText_of_tokenize (noReturn : '\r' ∉ text.toList)
    (scanned : tokenize text.toList = .ok tokens) :
    AllText false (Text.lines text.toList) := by
  have written := tokenize_unlines_lines noReturn scanned
  rw [tokenize_eq_tokensFrom, ← List.nil_append (List.map _ _)] at written
  have allText := allText_of_tokensFrom (fun l mem => (single_of_lines noReturn l mem).1) written
  rwa [map_toList_ofList] at allText

/-- A text that scans is read under every configuration as it is. -/
theorem ofSource?_eq_ofText? (noReturn : '\r' ∉ text.toList)
    (scanned : tokenize text.toList = .ok tokens) (config : Configuration) :
    Header.ofSource? text config = Header.ofText? text := by
  obtain ⟨ls, lines⟩ : ∃ ls, (Text.lines text.toList).map String.ofList = ls := ⟨_, rfl⟩
  have single := single_of_lines noReturn
  have written := tokenize_unlines_lines noReturn scanned
  have allText := allText_of_tokenize noReturn scanned
  rw [← map_toList_ofList (Text.lines text.toList)] at allText
  rw [lines] at single written allText
  have same : Text.lines text.toList = Text.lines (Text.unlines ls).toList := by
    rw [Text.lines_unlines single, ← lines, map_toList_ofList]
  unfold Header.ofSource?
  rw [preprocess_congr same, preprocess_of_allText single allText]
  show Header.ofText? (Text.unlines ls) = Header.ofText? text
  rw [Header.ofText?_eq, Header.ofText?_eq, written, scanned]

/-- The text is made up of the lines in front of a line, the line, and the rest. -/
theorem exists_rest_of_split (noReturn : '\r' ∉ text.toList)
    (allText : AllText false (Text.lines text.toList)) {before after : List LogicalLine}
    {line : LogicalLine}
    (split : logicalLines (Text.lines text.toList) = before ++ line :: after) :
    ∃ rest, text.toList =
      (Text.unlines (before.map fun l => String.ofList l.text)).toList ++ line.text ++ rest := by
  have texts := (allText.logicalFrom 1).2
  rw [← logicalLines, split] at texts
  obtain ⟨front, lines⟩ :
      ∃ front, Text.unlines (before.map fun l => String.ofList l.text) = front := ⟨_, rfl⟩
  have written : ∃ behind,
      (Text.unlines ((Text.lines text.toList).map String.ofList)).toList =
        front.toList ++ line.text ++ '\n' :: behind := by
    refine ⟨(Text.unlines (after.map fun l => String.ofList l.text)).toList, ?_⟩
    rw [← texts, List.map_map, List.map_append, List.map_cons, Text.unlines_append,
      Text.unlines_cons, ← lines]
    simp [Function.comp_def]
  obtain ⟨behind, written⟩ := written
  rw [lines]
  rcases Text.unlines_lines noReturn with whole | whole
  · exact ⟨'\n' :: behind, by rw [← whole, written]⟩
  · -- The newline at the end is not one of the text.
    rw [whole] at written
    refine ⟨('\n' :: behind).dropLast, ?_⟩
    rw [← List.dropLast_append_of_ne_nil (List.cons_ne_nil _ _), ← written, List.dropLast_concat]

end

/-- A text without carriage returns that scans is read under every configuration as it is. What
    conditional compilation says of its lines is what scanning finds: a line starts inside a
    comment just if a comment token starts before the line and ends behind its start. -/
theorem ofSource?_of_scans {text : String} {tokens : List Token}
    (noReturn : '\r' ∉ text.toList) (scanned : tokenize text.toList = .ok tokens) :
    (∀ config, Header.ofSource? text config = Header.ofText? text) ∧
      ∀ before line after, logicalLines (Text.lines text.toList) = before ++ line :: after →
        ∃ front rest, front = (Text.unlines (before.map fun l => String.ofList l.text)).toList ∧
          text.toList = front ++ line.text ++ rest ∧
          (line.inComment = true ↔
            ∃ t ∈ tokens, t.kind = .comment ∧
              t.position.offset < (Position.behind front).offset ∧
              (Position.behind front).offset < t.position.offset + t.lexeme.utf8ByteSize) := by
  refine ⟨ofSource?_eq_ofText? noReturn scanned, ?_⟩
  intro before line after split
  obtain ⟨rest, whole⟩ :=
    exists_rest_of_split noReturn (allText_of_tokenize noReturn scanned) split
  refine ⟨_, rest, rfl, whole, ?_⟩
  rw [inComment_iff_opensBlockComment split, ← Position.advance_start]
  rw [tokenize_eq_tokensFrom, whole, List.append_assoc] at scanned
  exact opensBlockComment_iff_token (endsLine_unlines _) scanned

/-- A text whose second line looks like a directive inside a comment. -/
def hiddenText : String :=
  "/* a\n#if 0\n*/ typedef int b;\n"

/-- The comment token goes on over the fifth byte, where the second line starts. -/
theorem hiddenText_read :
    ∃ tokens, '\r' ∉ hiddenText.toList ∧ tokenize hiddenText.toList = .ok tokens ∧
      (∀ config, Header.ofSource? hiddenText config = Header.ofText? hiddenText) ∧
      ∃ t ∈ tokens, t.kind = .comment ∧ t.position.offset < 5 ∧
        5 < t.position.offset + t.lexeme.utf8ByteSize := by
  have noReturn : '\r' ∉ hiddenText.toList := by decide +kernel
  have accepted : (tokenize hiddenText.toList).isOk = true := by decide +kernel
  have split : logicalLines (Text.lines hiddenText.toList) =
      [⟨"/* a".toList, 1, 1, false⟩] ++ ⟨"#if 0".toList, 2, 1, true⟩ ::
        [⟨"*/ typedef int b;".toList, 3, 1, true⟩] := by decide +kernel
  cases scanned : tokenize hiddenText.toList with
  | error e =>
      rw [scanned] at accepted
      cases accepted
  | ok tokens =>
      obtain ⟨read, inside⟩ := ofSource?_of_scans noReturn scanned
      obtain ⟨front, _, lines, _, starts⟩ := inside _ _ _ split
      have place : (Position.behind front).offset = 5 := by
        rw [lines]
        decide +kernel
      rw [place] at starts
      exact ⟨tokens, noReturn, rfl, read, starts.mp rfl⟩

end InterfaceHeader
