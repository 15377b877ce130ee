import InterfaceHeader.Text.Lines
import InterfaceHeader.Text.Position

/-!
# Words and their places

A word stands at a line and a column of a text. Within one line the column counts characters, so
the place of a word without newlines is given by its line and by what precedes it there. This
holds of a text that is written line by line, and of the lines that a text is read as: reading
takes nothing from a line but a carriage return at its end.
-/

namespace InterfaceHeader

namespace Position

/-- Within a line only the column changes. -/
theorem advance_line {cs : List Char} (inLine : '\n' ∉ cs) (p : Position) :
    (p.advance cs).line = p.line ∧ (p.advance cs).column = p.column + cs.length := by
  induction cs generalizing p with
  | nil => exact ⟨rfl, rfl⟩
  | cons c cs ih =>
      have other : c ≠ '\n' := fun same => inLine (same ▸ List.mem_cons_self)
      have next : p.next c = ⟨p.offset + c.utf8Size, p.line, p.column + 1⟩ := if_neg other
      obtain ⟨line, column⟩ := ih (fun mem => inLine (List.mem_cons_of_mem c mem)) (p.next c)
      rw [next] at line column
      rw [advance_cons, next, List.length_cons]
      exact ⟨line, by rw [column]; exact Nat.add_right_comm _ _ _⟩

/-- Behind a line and its newline the next line starts. -/
theorem advance_newline {cs : List Char} (inLine : '\n' ∉ cs) (p : Position) :
    (p.advance (cs ++ ['\n'])).line = p.line + 1 ∧ (p.advance (cs ++ ['\n'])).column = 1 := by
  rw [advance_append]
  have next : (p.advance cs).advance ['\n'] =
      ⟨(p.advance cs).offset + '\n'.utf8Size, (p.advance cs).line + 1, 1⟩ := rfl
  rw [next, (advance_line inLine p).1]
  exact ⟨rfl, rfl⟩

/-- The place behind a text, counted: the bytes of its encoding, its newlines, and the characters
    behind the last of them. -/
def behind (text : List Char) : Position :=
  ⟨(String.ofList text).utf8ByteSize, 1 + text.count '\n',
    1 + (text.reverse.takeWhile (· ≠ '\n')).length⟩

theorem behind_concat (text : List Char) (c : Char) :
    behind (text ++ [c]) = (behind text).next c := by
  have bytes : (String.ofList (text ++ [c])).utf8ByteSize =
      (String.ofList text).utf8ByteSize + c.utf8Size := by
    rw [String.ofList_append, String.utf8ByteSize_append]
    exact congrArg _ String.utf8ByteSize_singleton
  unfold behind next
  rw [bytes]
  by_cases newline : c = '\n'
  · simp [newline, Nat.add_assoc]
  · simp [newline, Nat.add_comm]

/-- Walking on from behind a text leads behind the longer text. -/
theorem advance_behind (before text : List Char) :
    (behind before).advance text = behind (before ++ text) := by
  induction text generalizing before with
  | nil => simp
  | cons c text ih =>
      have step := ih (before ++ [c])
      rw [advance_cons, ← behind_concat, step, List.append_assoc]
      rfl

/-- Walking over a text leads to the place that counting says. -/
theorem advance_start (text : List Char) : start.advance text = behind text :=
  advance_behind [] text

end Position

namespace Text

/-- The word stands at this line and column of the text. -/
def StandsAt (text word : List Char) (line column : Nat) : Prop :=
  ∃ before after, text = before ++ word ++ after ∧
    (Position.start.advance before).line = line ∧ (Position.start.advance before).column = column

/-- No piece holds the separator. -/
theorem not_mem_of_mem_pieces {sep : Char} {cs piece : List Char} (mem : piece ∈ pieces sep cs) :
    sep ∉ piece := by
  induction cs generalizing piece with
  | nil =>
      cases List.mem_singleton.mp mem
      exact List.not_mem_nil
  | cons c cs ih =>
      rw [pieces_cons] at mem
      cases cut : pieces sep cs with
      | nil => exact absurd cut (pieces_ne_nil sep cs)
      | cons first rest =>
          rw [cut] at mem ih
          simp only [consPiece] at mem
          split at mem
          · rcases List.mem_cons.mp mem with rfl | mem
            · exact List.not_mem_nil
            · exact ih mem
          · rename_i other
            rcases List.mem_cons.mp mem with rfl | mem
            · intro inside
              rcases List.mem_cons.mp inside with same | inside
              · exact other same.symm
              · exact ih List.mem_cons_self inside
            · exact ih (List.mem_cons_of_mem _ mem)

/-- Reading takes at most a carriage return from the end of a line. -/
theorem dropReturn_prefix (line : List Char) : ∃ rest, line = dropReturn line ++ rest := by
  unfold dropReturn
  split
  · rename_i last
    obtain ⟨line, rfl⟩ := List.getLast?_eq_some_iff.mp last
    exact ⟨['\r'], by rw [List.dropLast_concat]⟩
  · exact ⟨[], (List.append_nil line).symm⟩

/-- A word within one of the lines that pieces are read as stands in the text of the pieces. -/
theorem exists_place_of_linesOfPieces {ps : List (List Char)} (cut : ∀ piece ∈ ps, '\n' ∉ piece)
    {k : Nat} {a w b : List Char} (found : (linesOfPieces ps)[k]? = some (a ++ w ++ b))
    {p : Position} (fresh : p.column = 1) :
    ∃ before after, ['\n'].intercalate ps = before ++ w ++ after ∧
      (p.advance before).line = p.line + k ∧ (p.advance before).column = 1 + a.length := by
  induction ps generalizing k p with
  | nil => cases found
  | cons piece rest ih =>
      have inPiece : '\n' ∉ piece := cut piece List.mem_cons_self
      cases rest with
      | nil =>
          simp only [linesOfPieces] at found
          split at found
          · cases found
          · cases k with
            | succ k => cases found
            | zero =>
                have whole : piece = a ++ w ++ b := Option.some.inj found
                have inLine : '\n' ∉ a := fun mem => inPiece (by simp [whole, mem])
                refine ⟨a, b, by rw [← whole]; simp, (Position.advance_line inLine p).1, ?_⟩
                rw [(Position.advance_line inLine p).2, fresh]
      | cons next rest =>
          rw [List.intercalate_cons_cons]
          cases k with
          | zero =>
              obtain ⟨more, split⟩ := dropReturn_prefix piece
              have whole : dropReturn piece = a ++ w ++ b := Option.some.inj found
              have inLine : '\n' ∉ a := fun mem => inPiece (by rw [split, whole]; simp [mem])
              refine ⟨a, b ++ more ++ ['\n'] ++ ['\n'].intercalate (next :: rest), ?_,
                (Position.advance_line inLine p).1, ?_⟩
              · conv => lhs; rw [split, whole]
                simp only [List.append_assoc]
              · rw [(Position.advance_line inLine p).2, fresh]
          | succ k =>
              obtain ⟨line, column⟩ := Position.advance_newline inPiece p
              obtain ⟨before, after, text, line', column'⟩ :=
                ih (fun q mem => cut q (List.mem_cons_of_mem _ mem)) found column
              refine ⟨piece ++ ['\n'] ++ before, after, ?_, ?_, ?_⟩
              · rw [text]
                simp only [List.append_assoc]
              · rw [Position.advance_append, line', line]
                omega
              · rw [Position.advance_append, column']

/-- A word within a line of a text stands on that line of the text. -/
theorem standsAt_of_lines {text : List Char} {k : Nat} {a w b : List Char}
    (found : (lines text)[k]? = some (a ++ w ++ b)) : StandsAt text w (k + 1) (a.length + 1) := by
  obtain ⟨before, after, whole, line, column⟩ := exists_place_of_linesOfPieces
    (fun _ mem => not_mem_of_mem_pieces mem) found (p := .start) rfl
  rw [intercalate_pieces] at whole
  refine ⟨before, after, whole, ?_, ?_⟩
  · rw [line]
    exact Nat.add_comm 1 k
  · rw [column, Nat.add_comm]

/-- The characters of a text that is written line by line. -/
theorem toList_unlines (ls : List String) :
    (unlines ls).toList = ls.flatMap fun line => line.toList ++ ['\n'] := by
  induction ls with
  | nil => rfl
  | cons line ls ih =>
      rw [unlines_cons, String.toList_append, String.toList_append, ih, List.flatMap_cons]
      rfl

/-- A word without newlines that stands in a text written line by line stands in one of the
    lines. -/
theorem exists_line_of_place {ls : List String} (single : ∀ line ∈ ls, '\n' ∉ line.toList)
    {before w after : List Char}
    (stands : ls.flatMap (fun line => line.toList ++ ['\n']) = before ++ w ++ after)
    (some : w ≠ []) (inLine : '\n' ∉ w) {p : Position} (fresh : p.column = 1) :
    ∃ (k : Nat) (line : String) (a b : List Char), ls[k]? = Option.some line ∧
      line.toList = a ++ w ++ b ∧ (p.advance before).line = p.line + k ∧
      (p.advance before).column = 1 + a.length := by
  induction ls generalizing before p with
  | nil =>
      exact absurd (List.append_eq_nil_iff.mp (List.append_eq_nil_iff.mp stands.symm).1).2 some
  | cons line ls ih =>
      have inFirst : '\n' ∉ line.toList := single line List.mem_cons_self
      rw [List.flatMap_cons, List.append_assoc, List.append_assoc, List.singleton_append] at stands
      -- A word without newlines does not reach over the newline of the first line.
      have notOver {more rest : List Char} (reaches : '\n' :: rest = more ++ after)
          (part : more <:+ w) : more = [] := by
        cases more with
        | nil => rfl
        | cons c more =>
            obtain ⟨rfl, _⟩ := List.cons.inj reaches
            exact absurd (part.subset List.mem_cons_self) inLine
      rcases List.append_eq_append_iff.mp stands with ⟨more, rfl, rest⟩ | ⟨more, first, rest⟩
      · -- The word starts behind the first line.
        cases more with
        | nil => exact absurd (notOver rest (List.suffix_refl w)) some
        | cons c more =>
            obtain ⟨rfl, tail⟩ := List.cons.inj rest
            obtain ⟨line', column⟩ := Position.advance_newline inFirst p
            obtain ⟨k, found, a, b, index, whole, place, column'⟩ :=
              ih (fun l mem => single l (List.mem_cons_of_mem _ mem))
                (tail.trans (List.append_assoc _ _ _).symm) column
            have split : line.toList ++ '\n' :: more = line.toList ++ ['\n'] ++ more := by simp
            refine ⟨k + 1, found, a, b, index, whole, ?_, ?_⟩
            · rw [split, Position.advance_append, place, line']
              omega
            · rw [split, Position.advance_append, column']
      · -- The word starts in the first line.
        have whole : ∃ b, line.toList = before ++ w ++ b := by
          rcases List.append_eq_append_iff.mp rest with ⟨b, rfl, _⟩ | ⟨b, rfl, tail⟩
          · exact ⟨b, by rw [first, List.append_assoc]⟩
          · obtain rfl := notOver tail (List.suffix_append _ _)
            exact ⟨[], by rw [first, List.append_nil, List.append_nil]⟩
        obtain ⟨b, whole⟩ := whole
        have inBefore : '\n' ∉ before := fun mem => inFirst (by rw [first]; simp [mem])
        obtain ⟨line', column⟩ := Position.advance_line inBefore p
        exact ⟨0, line, before, b, rfl, whole, line', by rw [column, fresh]⟩

theorem newline_not_mem_of_mem_linesOfPieces {ps : List (List Char)}
    (cut : ∀ piece ∈ ps, '\n' ∉ piece) {line : List Char} (mem : line ∈ linesOfPieces ps) :
    '\n' ∉ line := by
  induction ps with
  | nil => cases mem
  | cons piece rest ih =>
      cases rest with
      | nil =>
          simp only [linesOfPieces] at mem
          split at mem
          · cases mem
          · exact cut line mem
      | cons next rest =>
          rcases List.mem_cons.mp mem with rfl | mem
          · obtain ⟨more, split⟩ := dropReturn_prefix piece
            intro inside
            exact cut piece List.mem_cons_self (by rw [split]; exact List.mem_append_left _ inside)
          · exact ih (fun q mem => cut q (List.mem_cons_of_mem _ mem)) mem

/-- No line that a text is read as holds a newline. -/
theorem newline_not_mem_of_mem_lines {cs line : List Char} (mem : line ∈ lines cs) :
    '\n' ∉ line :=
  newline_not_mem_of_mem_linesOfPieces (fun _ mem => not_mem_of_mem_pieces mem) mem

theorem pieces_line {line : List Char} (inLine : '\n' ∉ line) (rest : List Char) :
    pieces '\n' (line ++ '\n' :: rest) = line :: pieces '\n' rest := by
  induction line with
  | nil => exact pieces_cons_sep '\n' rest
  | cons c line ih =>
      have other : c ≠ '\n' := fun same => inLine (same ▸ List.mem_cons_self)
      have tail := ih fun mem => inLine (List.mem_cons_of_mem _ mem)
      rw [List.cons_append, pieces_cons, tail]
      simp [consPiece, other]

theorem dropReturn_eq_self {line : List Char} (noReturn : '\r' ∉ line) :
    dropReturn line = line := by
  unfold dropReturn
  split
  · rename_i last
    exact absurd (List.mem_of_getLast? last) noReturn
  · rfl

/-- A text written line by line is read as these lines, but for a carriage return at the end of a
    line. -/
theorem lines_unlines_dropReturn {ls : List String}
    (single : ∀ line ∈ ls, '\n' ∉ line.toList) :
    lines (unlines ls).toList = ls.map fun line => dropReturn line.toList := by
  induction ls with
  | nil => rfl
  | cons line ls ih =>
      have inLine := single line List.mem_cons_self
      have tail := ih fun l mem => single l (List.mem_cons_of_mem _ mem)
      have whole : (unlines (line :: ls)).toList =
          line.toList ++ '\n' :: (unlines ls).toList := by simp
      rw [lines, whole, pieces_line inLine]
      cases cut : pieces '\n' (unlines ls).toList with
      | nil => exact absurd cut (pieces_ne_nil _ _)
      | cons next rest =>
          rw [lines, cut] at tail
          rw [linesOfPieces, tail]
          rfl

/-- A text written line by line is read as these lines, if they have no line ends in them. -/
theorem lines_unlines {ls : List String}
    (single : ∀ line ∈ ls, '\n' ∉ line.toList ∧ '\r' ∉ line.toList) :
    lines (unlines ls).toList = ls.map String.toList := by
  rw [lines_unlines_dropReturn fun line mem => (single line mem).1]
  exact List.map_congr_left fun line mem => dropReturn_eq_self (single line mem).2

/-- Reading a text as lines makes up no characters. -/
theorem mem_of_mem_lines {cs line : List Char} (mem : line ∈ lines cs) {c : Char}
    (inside : c ∈ line) : c ∈ cs := by
  obtain ⟨k, found⟩ := List.mem_iff_getElem?.mp mem
  obtain ⟨a, b, rfl⟩ := List.append_of_mem inside
  obtain ⟨before, after, whole, _⟩ := standsAt_of_lines (w := [c]) (by simpa using found)
  simp [whole]

end Text

end InterfaceHeader
