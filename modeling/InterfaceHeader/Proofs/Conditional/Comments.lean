import InterfaceHeader.Proofs.Conditional.PhysicalLines
import InterfaceHeader.Proofs.Text.Places

/-!
# Comments in the flat text

A line of text starts inside a block comment or not, and conditional compilation goes by the lines
of the source. Whoever reads the flat text goes by the lines that are left. The two agree on every
kept line unless a directive opens a block comment and the line behind it is in an active region:
the directive is dropped and the rest of its comment is kept.
-/

namespace InterfaceHeader

/-! ## Comments character by character -/

/-- Where a place in a text is, as far as comments go. -/
inductive CommentState where
  | code
  | lineComment
  | blockComment
deriving DecidableEq

/-- The state of lines is only whether a block comment is open. -/
def CommentState.ofInside (inside : Bool) : CommentState :=
  if inside then .blockComment else .code

/-- The state behind a text. -/
def CommentState.behind : CommentState → List Char → CommentState
  | state, [] => state
  | .blockComment, '*' :: '/' :: cs => behind .code cs
  | .blockComment, _ :: cs => behind .blockComment cs
  | .lineComment, c :: cs => behind (if c = '\n' then .code else .lineComment) cs
  | .code, '/' :: '*' :: cs => behind .blockComment cs
  | .code, '/' :: '/' :: cs => behind .lineComment cs
  | .code, _ :: cs => behind .code cs

/-- What follows the text starts inside a block comment. -/
def OpensBlockComment (text : List Char) : Prop :=
  CommentState.code.behind text = .blockComment

instance (text : List Char) : Decidable (OpensBlockComment text) :=
  inferInstanceAs (Decidable (_ = _))

namespace CommentState

/-- A line comment ends with its line. -/
theorem behind_lineComment {cs : List Char} (inLine : '\n' ∉ cs) (rest : List Char) :
    lineComment.behind (cs ++ '\n' :: rest) = code.behind rest := by
  induction cs with
  | nil => simp [behind]
  | cons c cs ih =>
      have other : c ≠ '\n' := fun same => inLine (same ▸ List.mem_cons_self)
      have rest := ih fun mem => inLine (List.mem_cons_of_mem _ mem)
      simpa [behind, other] using rest

/-- No mark reaches over the end of a line. -/
theorem behind_line {line : List Char} (inLine : '\n' ∉ line) (inside : Bool)
    (rest : List Char) :
    (ofInside inside).behind (line ++ '\n' :: rest) =
      (ofInside (endsInComment inside line)).behind rest := by
  fun_induction endsInComment inside line with
  | case1 inside => cases inside <;> simp [ofInside, behind]
  | case2 cs ih =>
      have later := ih (by simp_all)
      simpa [ofInside, behind] using later
  | case3 c cs noMark ih =>
      have later := ih (by simp_all)
      cases cs <;> simp_all [ofInside, behind]
  | case4 cs ih =>
      have later := ih (by simp_all)
      simpa [ofInside, behind] using later
  | case5 cs =>
      have inComment : '\n' ∉ cs := by simp_all
      have later := behind_lineComment inComment rest
      simpa [ofInside, behind] using later
  | case6 c cs noBlock noLine ih =>
      have later := ih (by simp_all)
      cases cs <;> simp_all [ofInside, behind]

theorem behind_unlines {ls : List String} (single : ∀ line ∈ ls, '\n' ∉ line.toList)
    (inside : Bool) :
    (ofInside inside).behind (Text.unlines ls).toList =
      ofInside ((ls.map String.toList).foldl endsInComment inside) := by
  induction ls generalizing inside with
  | nil => cases inside <;> rfl
  | cons line ls ih =>
      have later := ih (fun l mem => single l (List.mem_cons_of_mem _ mem))
        (endsInComment inside line.toList)
      have first := behind_line (single line List.mem_cons_self) inside (Text.unlines ls).toList
      simpa [later] using first

end CommentState

/-- A text written line by line is followed character by character or line by line. -/
theorem opensBlockComment_unlines {ls : List String}
    (single : ∀ line ∈ ls, '\n' ∉ line.toList) :
    OpensBlockComment (Text.unlines ls).toList ↔
      (ls.map String.toList).foldl endsInComment false = true := by
  have followed := CommentState.behind_unlines single false
  have start : CommentState.ofInside false = .code := rfl
  rw [OpensBlockComment, ← start, followed]
  cases (ls.map String.toList).foldl endsInComment false <;> simp [CommentState.ofInside]

/-! ## Comments line by line -/

/-- Each line starts inside a comment just if the lines in front of it leave one open. -/
def Threaded : Bool → List LogicalLine → Prop
  | _, [] => True
  | inside, line :: rest =>
    line.inComment = inside ∧ Threaded (endsInComment inside line.text) rest

theorem threaded_logicalFrom (number : Nat) (inside : Bool) (skip : Nat)
    (physical : List (List Char)) : Threaded inside (logicalFrom number inside skip physical) := by
  induction physical generalizing number inside skip with
  | nil => cases skip <;> exact trivial
  | cons line rest ih =>
      cases skip with
      | succ skip => exact ih (number + 1) inside skip
      | zero =>
          rw [logicalFrom]
          split
          · rename_i starts
            have outside : inside = false := by simp_all
            subst outside
            exact ⟨rfl, ih _ _ _⟩
          · exact ⟨rfl, ih _ _ _⟩

theorem Threaded.inComment {inside : Bool} {lines before after : List LogicalLine}
    {line : LogicalLine} (threaded : Threaded inside lines)
    (split : lines = before ++ line :: after) :
    line.inComment = (before.map LogicalLine.text).foldl endsInComment inside := by
  subst split
  induction before generalizing inside with
  | nil => exact threaded.1
  | cons first before ih => exact ih threaded.2

/-- A directive opens a block comment that goes on behind it, where the region is active. -/
def Spills (p : Pass) (lines : List LogicalLine) : Prop :=
  ∃ before directive line after, lines = before ++ directive :: line :: after ∧
    directive.isDirective = true ∧ line.inComment = true ∧
    (p.run (before ++ [directive])).active = true

/-- On every line that is kept, what is kept of the lines in front of it says the same about
    comments as these lines do. -/
def Agrees (preserveLines : Bool) (p : Pass) (inside : Bool) (lines : List LogicalLine) : Prop :=
  ∀ before line after, lines = before ++ line :: after →
    line.isDirective = false → (p.run before).active = true →
    ((p.output preserveLines before).map String.toList).foldl endsInComment inside =
      line.inComment

/-- Lines without characters leave comments as they are. -/
theorem foldl_endsInComment_blankLines (preserveLines : Bool) (count : Nat) (inside : Bool) :
    ((blankLines preserveLines count).map String.toList).foldl endsInComment inside =
      inside := by
  unfold blankLines
  cases preserveLines with
  | false => rfl
  | true =>
      induction count with
      | zero => rfl
      | succ count ih => cases inside <;> exact ih

section

variable {preserveLines : Bool} {p : Pass} {inside : Bool} {line : LogicalLine}
  {rest : List LogicalLine}

theorem LogicalLine.inComment_of_isDirective (kind : line.isDirective = true) :
    line.inComment = false := by
  simp_all [isDirective]

theorem LogicalLine.isDirective_of_inComment (starts : line.inComment = true) :
    line.isDirective = false := by
  simp [isDirective, starts]

theorem Pass.after_of_text (text : line.isDirective = false) : p.after line = p :=
  p.after_of_none (LogicalLine.directive?_of_text text)

/-- A spill is at the first line or behind it. -/
theorem spills_cons :
    Spills p (line :: rest) ↔
      (line.isDirective = true ∧ (p.after line).active = true ∧
        ∃ next more, rest = next :: more ∧ next.inComment = true) ∨
      Spills (p.after line) rest := by
  constructor
  · rintro ⟨before, directive, next, after, split, kind, inside, active⟩
    cases before with
    | nil =>
        obtain ⟨rfl, rfl⟩ := List.cons.inj split
        exact Or.inl ⟨kind, active, next, after, rfl, inside⟩
    | cons first before =>
        obtain ⟨rfl, rfl⟩ := List.cons.inj split
        exact Or.inr ⟨before, directive, next, after, rfl, kind, inside, active⟩
  · rintro (⟨kind, active, next, more, rfl, inside⟩ |
      ⟨before, directive, next, after, rfl, kind, inside, active⟩)
    · exact ⟨[], line, next, more, rfl, kind, inside, active⟩
    · exact ⟨line :: before, directive, next, after, rfl, kind, inside, active⟩

/-- Agreement is about the first line and those behind it. -/
theorem agrees_cons :
    Agrees preserveLines p inside (line :: rest) ↔
      (line.isDirective = false → p.active = true → inside = line.inComment) ∧
      Agrees preserveLines (p.after line)
        (((p.shown preserveLines line).map String.toList).foldl endsInComment inside) rest := by
  constructor
  · intro agrees
    refine ⟨agrees [] line rest rfl, ?_⟩
    intro before found after split text active
    have found := agrees (line :: before) found after (by rw [split]; rfl) text active
    simpa using found
  · rintro ⟨here, later⟩ before found after split text active
    cases before with
    | nil =>
        obtain ⟨rfl, _⟩ := List.cons.inj split
        exact here text active
    | cons first before =>
        obtain ⟨rfl, tail⟩ := List.cons.inj split
        have found := later before found after tail text active
        simpa using found

theorem agrees_nil : Agrees preserveLines p inside [] := by
  intro before line after split
  simp at split

theorem not_spills_nil : ¬ Spills p [] := by
  rintro ⟨before, directive, line, after, split, _⟩
  simp at split

end

/-- Where what is kept says of comments what the lines say in active regions, and nothing in
    others, agreement holds for the rest just if no directive spills its comment. -/
theorem agrees_iff {preserveLines : Bool} {p : Pass} {source : Bool} {lines : List LogicalLine}
    (threaded : Threaded source lines) :
    Agrees preserveLines p (p.active && source) lines ↔ ¬ Spills p lines := by
  induction lines generalizing p source with
  | nil => simp [agrees_nil, not_spills_nil]
  | cons line rest ih =>
      obtain ⟨rfl, threaded⟩ := threaded
      rw [agrees_cons, spills_cons, not_or]
      by_cases kind : line.isDirective = true
      · have outside := LogicalLine.inComment_of_isDirective kind
        have shown : ((p.shown preserveLines line).map String.toList).foldl endsInComment
            (p.active && line.inComment) = false := by
          rw [Pass.shown, if_pos kind, outside, Bool.and_false]
          exact foldl_endsInComment_blankLines _ _ _
        rw [shown, ← ih threaded]
        cases rest with
        | nil => simp [agrees_nil, kind]
        | cons next more =>
            obtain ⟨goesOn, _⟩ := threaded
            rw [← goesOn]
            by_cases spilled : (p.after line).active = true ∧ next.inComment = true
            · have text := LogicalLine.isDirective_of_inComment spilled.2
              simp [agrees_cons, kind, spilled, text]
            · have closed : ((p.after line).active && next.inComment) = false := by
                simpa using spilled
              rw [closed]
              simp_all
      · have text : line.isDirective = false := by simpa using kind
        have shown : ((p.shown preserveLines line).map String.toList).foldl endsInComment
            (p.active && line.inComment) =
              (p.active && endsInComment line.inComment line.text) := by
          rw [Pass.shown, if_neg kind]
          cases p.active with
          | true => simp
          | false => exact foldl_endsInComment_blankLines _ 1 _
        rw [shown]
        have later := ih (p := p) threaded
        rw [Pass.after_of_text text, later]
        simp +contextual [text]

/-- Directives that leave no comment open spill none. -/
theorem not_spills {source : Bool} {p : Pass} {lines : List LogicalLine}
    (threaded : Threaded source lines)
    (closed : ∀ line ∈ lines, line.isDirective = true → endsInComment false line.text = false) :
    ¬ Spills p lines := by
  rintro ⟨before, directive, line, after, split, kind, inside, _⟩
  have outside := LogicalLine.inComment_of_isDirective kind
  rw [threaded.inComment split] at outside
  have whole : lines = (before ++ [directive]) ++ line :: after := by simp [split]
  rw [threaded.inComment whole, List.map_append, List.foldl_append, outside] at inside
  have open? : endsInComment false directive.text = true := inside
  rw [closed directive (by simp [split]) kind] at open?
  cases open?

end InterfaceHeader
