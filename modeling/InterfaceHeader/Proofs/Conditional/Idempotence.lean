import InterfaceHeader.Proofs.Conditional.Comments
import InterfaceHeader.Proofs.Conditional.Refusal

/-!
# Flattening twice

A flat text has no directives of its own, and flattening it again changes nothing, as long as no
directive of the source spills its comment. If one does, the rest of the comment is code in the
flat text: a hash mark in it becomes a directive.
-/

namespace InterfaceHeader

/-! ## Characters of the flat text -/

/-- What is shown of lines is empty or one of them. -/
theorem Pass.mem_output {preserveLines : Bool} {p : Pass} {lines : List LogicalLine} {s : String}
    (shown : s ∈ p.output preserveLines lines) :
    s = "" ∨ ∃ line ∈ lines, s = String.ofList line.text := by
  have blank {count : Nat} (mem : s ∈ blankLines preserveLines count) : s = "" := by
    unfold blankLines at mem
    split at mem
    · exact (List.mem_replicate.mp mem).2
    · cases mem
  induction lines generalizing p with
  | nil => cases shown
  | cons line rest ih =>
      rw [output_cons] at shown
      rcases List.mem_append.mp shown with here | later
      · unfold Pass.shown at here
        split at here
        · exact Or.inl (blank here)
        · split at here
          · exact Or.inr ⟨line, by simp, List.mem_singleton.mp here⟩
          · exact Or.inl (blank here)
      · rcases ih later with empty | ⟨found, mem, same⟩
        · exact Or.inl empty
        · exact Or.inr ⟨found, List.mem_cons_of_mem _ mem, same⟩

/-- A character other than a blank that no physical line has is on no line that is shown. -/
theorem not_mem_output {text : List Char} {preserveLines : Bool} {p : Pass}
    {lines : List LogicalLine} (part : lines ⊆ logicalLines (Text.lines text)) {c : Char}
    (noBlank : c ≠ ' ') (absent : ∀ l ∈ Text.lines text, c ∉ l) :
    ∀ s ∈ p.output preserveLines lines, c ∉ s.toList := by
  intro s shown inside
  rcases Pass.mem_output shown with rfl | ⟨line, mem, rfl⟩
  · cases inside
  · rw [String.toList_ofList] at inside
    rcases mem_text_logicalFrom (part mem) inside with blank | ⟨l, mem, inside⟩
    · exact noBlank blank
    · exact absent l mem inside

/-! ## Texts without directives -/

/-- None of the physical lines starts a directive. -/
def AllText : Bool → List (List Char) → Prop
  | _, [] => True
  | inside, line :: rest =>
    (!inside && startsDirective line) = false ∧ AllText (endsInComment inside line) rest

/-- Lines that start no directive are logical lines as they are. -/
theorem AllText.logicalFrom {inside : Bool} {physical : List (List Char)}
    (allText : AllText inside physical) (number : Nat) :
    (∀ line ∈ logicalFrom number inside 0 physical, line.isDirective = false) ∧
      (logicalFrom number inside 0 physical).map LogicalLine.text = physical := by
  induction physical generalizing number inside with
  | nil => simp [InterfaceHeader.logicalFrom]
  | cons line rest ih =>
      obtain ⟨here, later⟩ := allText
      obtain ⟨text, same⟩ := ih later (number + 1)
      rw [InterfaceHeader.logicalFrom, here]
      refine ⟨?_, by simp [same]⟩
      intro l mem
      rcases List.mem_cons.mp mem with rfl | mem
      · exact here
      · exact text l mem

theorem allText_blankLines (preserveLines : Bool) (count : Nat) {inside : Bool}
    {rest : List (List Char)} (allText : AllText inside rest) :
    AllText inside ((blankLines preserveLines count).map String.toList ++ rest) := by
  unfold blankLines
  cases preserveLines with
  | false => exact allText
  | true =>
      induction count with
      | zero => exact allText
      | succ count ih => cases inside <;> exact ⟨rfl, ih⟩

/-- Where kept lines and source agree about comments, no kept line starts a directive. -/
theorem Agrees.allText {preserveLines : Bool} {p : Pass} {inside : Bool}
    {lines : List LogicalLine} (agrees : Agrees preserveLines p inside lines) :
    AllText inside ((p.output preserveLines lines).map String.toList) := by
  induction lines generalizing p inside with
  | nil => trivial
  | cons line rest ih =>
      obtain ⟨here, later⟩ := agrees_cons.mp agrees
      have later := ih later
      rw [Pass.output_cons, List.map_append]
      by_cases kept : line.isDirective = false ∧ p.active = true
      · obtain ⟨text, active⟩ := kept
        have same := here text active
        have shown : p.shown preserveLines line = [String.ofList line.text] := by
          simp [Pass.shown, text, active]
        rw [shown] at later ⊢
        subst same
        rw [List.map_singleton, String.toList_ofList] at later ⊢
        exact ⟨text, later⟩
      · obtain ⟨count, shown⟩ :
            ∃ count, p.shown preserveLines line = blankLines preserveLines count := by
          unfold Pass.shown
          split
          · exact ⟨_, rfl⟩
          · rw [if_neg (by simp_all)]
            exact ⟨1, rfl⟩
        rw [shown] at later ⊢
        rw [foldl_endsInComment_blankLines] at later
        exact allText_blankLines preserveLines count later

/-- Lines of text are shown as they are. -/
theorem Pass.output_of_text {lines : List LogicalLine} (preserveLines : Bool)
    (text : ∀ line ∈ lines, line.isDirective = false) {p : Pass} (active : p.active = true) :
    p.output preserveLines lines = lines.map fun line => String.ofList line.text := by
  induction lines with
  | nil => rfl
  | cons line rest ih =>
      have here := text line List.mem_cons_self
      have later := ih fun l mem => text l (List.mem_cons_of_mem _ mem)
      simp [Pass.shown, here, active, after_of_text here, later]

theorem nested_of_text {lines : List LogicalLine}
    (text : ∀ line ∈ lines, line.isDirective = false) : Nested lines := by
  induction lines with
  | nil => exact .nil
  | cons line rest ih =>
      have silent := LogicalLine.directive?_of_text (text line List.mem_cons_self)
      exact .plain (LogicalLine.plain_of_none silent)
        (ih fun l mem => text l (List.mem_cons_of_mem _ mem))

/-- A text without directives is its own flat text. -/
theorem preprocess_of_allText {ls : List String}
    (single : ∀ line ∈ ls, '\n' ∉ line.toList ∧ '\r' ∉ line.toList)
    (allText : AllText false (ls.map String.toList)) (config : Configuration) :
    preprocess (Text.unlines ls) config = .ok (Text.unlines ls) := by
  have physical := Text.lines_unlines single
  obtain ⟨text, same⟩ := allText.logicalFrom 1
  obtain ⟨nodes, outlined⟩ : ∃ nodes, outlineOf? (Text.unlines ls).toList = .ok nodes := by
    rw [outlineOf?, physical]
    exact outlineOfLines?_of_nested (fun line mem => LogicalLine.readable_of_text (text line mem))
      (nested_of_text text)
  have shown := flatLines_eq_output outlined config
  rw [physical] at shown
  have shown : flatLines nodes config = ls := by
    rw [shown, logicalLines, Pass.output_of_text _ text rfl]
    have texts := congrArg (List.map String.ofList) same
    simpa [List.map_map, Function.comp_def] using texts
  rw [preprocess, outlined]
  exact congrArg (Except.ok ∘ Text.unlines) shown

/-! ## Comments and flattening -/

/-- A line of the source starts inside a block comment just if the text in front of it leaves one
    open, with continued lines joined. -/
theorem inComment_iff_opensBlockComment {text : List Char} {before after : List LogicalLine}
    {line : LogicalLine} (split : logicalLines (Text.lines text) = before ++ line :: after) :
    line.inComment = true ↔
      OpensBlockComment (Text.unlines (before.map fun l => String.ofList l.text)).toList := by
  have single : ∀ s ∈ before.map fun l => String.ofList l.text, '\n' ∉ s.toList := by
    intro s mem inside
    obtain ⟨l, among, rfl⟩ := List.mem_map.mp mem
    rw [String.toList_ofList] at inside
    have among : l ∈ logicalLines (Text.lines text) := by simp [split, among]
    rcases mem_text_logicalFrom among inside with blank | ⟨l, mem, inside⟩
    · cases blank
    · exact Text.newline_not_mem_of_mem_lines mem inside
  have threaded : Threaded false (logicalLines (Text.lines text)) :=
    threaded_logicalFrom 1 false 0 _
  rw [opensBlockComment_unlines single, threaded.inComment split, List.map_map]
  simp [Function.comp_def]

/-- The flat text consists of what is shown of the lines in front of a kept one, the kept line, and
    what is shown of the lines behind it. -/
theorem Pass.output_kept {preserveLines : Bool} {p : Pass} {before after : List LogicalLine}
    {line : LogicalLine} (text : line.isDirective = false) (active : (p.run before).active = true) :
    p.output preserveLines (before ++ line :: after) = p.output preserveLines before ++
      String.ofList line.text :: (p.run before).output preserveLines after := by
  rw [output_append, output_cons, after_of_text text, shown, text, active]
  rfl

/-- On the lines of a text, agreement about comments can be read off the characters. -/
theorem agrees_iff_opensBlockComment {text : List Char} {preserveLines : Bool} {p : Pass} :
    Agrees preserveLines p false (logicalLines (Text.lines text)) ↔
      ∀ before line after, logicalLines (Text.lines text) = before ++ line :: after →
        line.isDirective = false → (p.run before).active = true →
        (OpensBlockComment (Text.unlines (p.output preserveLines before)).toList ↔
          line.inComment = true) := by
  have read {before after : List LogicalLine} {line : LogicalLine}
      (split : logicalLines (Text.lines text) = before ++ line :: after) :
      OpensBlockComment (Text.unlines (p.output preserveLines before)).toList ↔
        ((p.output preserveLines before).map String.toList).foldl endsInComment false = true := by
    have part : before ⊆ logicalLines (Text.lines text) := by simp [split]
    exact opensBlockComment_unlines (not_mem_output part (by decide)
      fun _ mem => Text.newline_not_mem_of_mem_lines mem)
  constructor
  · intro agrees before line after split text active
    rw [read split, agrees before line after split text active]
  · intro agrees before line after split text active
    have same := agrees before line after split text active
    rw [read split] at same
    exact Bool.eq_iff_iff.mpr same

/-- Conditional compilation keeps comments as they are just if no directive spills its comment: on
    every kept line the flat text in front of it leaves a block comment open just if the source
    does. Then the flat text has no directives, and flattening it again changes nothing. -/
theorem flatten_comments_iff {text : List Char} {nodes : List Node}
    (outlined : outlineOf? text = .ok nodes) (noReturn : '\r' ∉ text) (config : Configuration) :
    let lines := logicalLines (Text.lines text)
    let p := Pass.start config.symbols
    (∀ before line after, lines = before ++ line :: after →
      (line.inComment = true ↔
        OpensBlockComment
          (Text.unlines (before.map fun l => String.ofList l.text)).toList)) ∧
    (∀ before line after, lines = before ++ line :: after →
      line.isDirective = false → (p.run before).active = true →
      flatLines nodes config = p.output config.preserveLines before ++
        String.ofList line.text :: (p.run before).output config.preserveLines after) ∧
    ((∀ before line after, lines = before ++ line :: after →
        line.isDirective = false → (p.run before).active = true →
        (OpensBlockComment (Text.unlines (p.output config.preserveLines before)).toList ↔
          line.inComment = true)) ↔
      ¬ Spills p lines) ∧
    (¬ Spills p lines →
      (∀ line ∈ logicalLines (Text.lines (flatten nodes config).toList),
        line.isDirective = false) ∧
      ∀ other, preprocess (flatten nodes config) other = .ok (flatten nodes config)) := by
  intro lines p
  have threaded : Threaded false lines := threaded_logicalFrom 1 false 0 _
  have flat : flatLines nodes config = p.output config.preserveLines lines :=
    flatLines_eq_output outlined config
  have newline (l : List Char) (mem : l ∈ Text.lines text) : '\n' ∉ l :=
    Text.newline_not_mem_of_mem_lines mem
  have carriageReturn (l : List Char) (mem : l ∈ Text.lines text) : '\r' ∉ l :=
    fun inside => noReturn (Text.mem_of_mem_lines mem inside)
  have agrees : Agrees config.preserveLines p false lines ↔ ¬ Spills p lines :=
    agrees_iff threaded
  refine ⟨fun _ _ _ => inComment_iff_opensBlockComment, ?_, ?_, ?_⟩
  · intro before line after split text active
    rw [flat, split]
    exact Pass.output_kept text active
  · rw [← agrees]
    exact agrees_iff_opensBlockComment.symm
  · intro noSpill
    have single : ∀ s ∈ flatLines nodes config, '\n' ∉ s.toList ∧ '\r' ∉ s.toList := by
      intro s mem
      rw [flat] at mem
      exact ⟨not_mem_output (List.Subset.refl _) (by decide) newline s mem,
        not_mem_output (List.Subset.refl _) (by decide) carriageReturn s mem⟩
    have allText : AllText false ((flatLines nodes config).map String.toList) := by
      rw [flat]
      exact (agrees.mpr noSpill).allText
    constructor
    · rw [flatten, Text.lines_unlines single]
      exact (allText.logicalFrom 1).1
    · exact preprocess_of_allText single allText

instance : DecidableEq (Except DirectiveError String)
  | .ok s, .ok t => decidable_of_iff (s = t) (by simp)
  | .error d, .error e => decidable_of_iff (d = e) (by simp)
  | .ok _, .error _ => isFalse nofun
  | .error _, .ok _ => isFalse nofun

/-- A text with a comment that goes over several lines, one of which looks like a directive. -/
def commentedText : String :=
  "#if A // b\n/* x\n#if 0\n*/ y\n#endif\n"

/-- Flattening the text twice is flattening it once. -/
theorem commentedText_again :
    ∃ nodes, outlineOf? commentedText.toList = .ok nodes ∧ '\r' ∉ commentedText.toList ∧
      ¬ Spills (.start (.ofFlags ["A"])) (logicalLines (Text.lines commentedText.toList)) ∧
      flatten nodes ⟨.ofFlags ["A"], false⟩ = "/* x\n#if 0\n*/ y\n" ∧
      ∀ other, preprocess (flatten nodes ⟨.ofFlags ["A"], false⟩) other =
        .ok (flatten nodes ⟨.ofFlags ["A"], false⟩) := by
  have noReturn : '\r' ∉ commentedText.toList := by decide +kernel
  have closed : ∀ line ∈ logicalLines (Text.lines commentedText.toList),
      line.isDirective = true → endsInComment false line.text = false := by decide +kernel
  have noSpill : ¬ Spills (.start (.ofFlags ["A"]))
      (logicalLines (Text.lines commentedText.toList)) :=
    not_spills (threaded_logicalFrom 1 false 0 _) closed
  have flat : (outlineOf? commentedText.toList).map
      (fun nodes => flatten nodes ⟨.ofFlags ["A"], false⟩) = .ok "/* x\n#if 0\n*/ y\n" := by
    decide +kernel
  cases outlined : outlineOf? commentedText.toList with
  | error error =>
      rw [outlined] at flat
      cases flat
  | ok nodes =>
      rw [outlined] at flat
      obtain ⟨_, _, _, again⟩ := flatten_comments_iff outlined noReturn ⟨.ofFlags ["A"], false⟩
      exact ⟨nodes, rfl, noReturn, noSpill, Except.ok.inj flat, (again noSpill).2⟩

/-- A text whose first line, a directive, opens a comment. -/
def spilledText : String :=
  "#define X /*\n#if 0\n*/\n"

/-- The second line of the text starts inside a block comment and is kept; in the flat text it
    starts outside one and opens a block, so that the flat text is refused. -/
theorem spilledText_refused :
    (logicalLines (Text.lines spilledText.toList))[1]? = some ⟨"#if 0".toList, 2, 1, true⟩ ∧
      preprocess spilledText ⟨.empty, false⟩ = .ok "#if 0\n*/\n" ∧
      ¬ OpensBlockComment [] ∧
      preprocess "#if 0\n*/\n" ⟨.empty, false⟩ = .error ⟨.unclosedBlock "if", 1⟩ := by
  decide +kernel

end InterfaceHeader
