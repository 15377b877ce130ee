import InterfaceHeader.Proofs.Conditional.Chain

/-!
# Open blocks

Line by line some blocks are open: each has been opened by a directive, and is in its last branch
or not. `openedAfter?` follows them through lines and fails at the first directive that has no
block to belong to. Well-nested lines leave the open blocks as they are, and lines behind which no
block is open are well nested. So lines can be made well nested by further ones just if every
directive among them finds its block.
-/

namespace InterfaceHeader

/-- The blocks that are open, innermost first: the directive that opened each, and whether the
    block is in its last branch. -/
abbrev Opened := List (Opening × Bool)

/-- The open blocks behind a directive, if it fits. -/
def Directive.opened? (site : Site) (blocks : Opened) : Directive → Option Opened
  | .branch .elseIf _ =>
    match blocks with
    | (first, false) :: outer => some ((first, false) :: outer)
    | _ => none
  | .branch opener condition => some ((⟨opener, condition, site⟩, false) :: blocks)
  | .otherwise =>
    match blocks with
    | (first, false) :: outer => some ((first, true) :: outer)
    | _ => none
  | .endif =>
    match blocks with
    | _ :: outer => some outer
    | [] => none
  | _ => some blocks

/-- The open blocks behind a line. -/
def LogicalLine.opened? (blocks : Opened) (line : LogicalLine) : Option Opened :=
  match line.directive? with
  | some directive => directive.opened? ⟨line.number, line.span⟩ blocks
  | none => some blocks

/-- The open blocks behind several lines. -/
def openedAfter? (blocks : Opened) (lines : List LogicalLine) : Option Opened :=
  lines.foldlM LogicalLine.opened? blocks

/-- The lines leave the open blocks as they are, whatever these are. -/
def Steady (lines : List LogicalLine) : Prop :=
  ∀ blocks : Opened, openedAfter? blocks lines = some blocks

@[simp] theorem openedAfter?_nil (blocks : Opened) : openedAfter? blocks [] = some blocks := rfl

theorem openedAfter?_cons (blocks : Opened) (line : LogicalLine) (lines : List LogicalLine) :
    openedAfter? blocks (line :: lines) =
      (line.opened? blocks).bind fun behind => openedAfter? behind lines :=
  List.foldlM_cons

theorem openedAfter?_append (blocks : Opened) (lines more : List LogicalLine) :
    openedAfter? blocks (lines ++ more) =
      (openedAfter? blocks lines).bind fun behind => openedAfter? behind more :=
  List.foldlM_append

theorem LogicalLine.opened?_of_directive? {line : LogicalLine} {directive : Directive}
    (spelt : line.directive? = some directive) (blocks : Opened) :
    line.opened? blocks = directive.opened? ⟨line.number, line.span⟩ blocks := by
  rw [opened?, spelt]

/-- A line that has no part in a block fits everywhere. -/
theorem LogicalLine.opened?_plain {line : LogicalLine} (plain : line.Plain) (blocks : Opened) :
    line.opened? blocks = some blocks := by
  cases spelt : line.directive? with
  | none => rw [opened?, spelt]
  | some directive =>
      have other := plain directive spelt
      rw [opened?_of_directive? spelt]
      cases directive <;> simp_all [Directive.isOfBlock, Directive.opened?]

/-- The blocks behind the first line of a block. -/
theorem LogicalLine.opened?_opens {line : LogicalLine} {opener : Opener} {condition : Condition}
    (spelt : line.directive? = some (.branch opener condition)) (notFurther : opener ≠ .elseIf)
    (blocks : Opened) :
    line.opened? blocks =
      some ((⟨opener, condition, ⟨line.number, line.span⟩⟩, false) :: blocks) := by
  rw [opened?_of_directive? spelt]
  cases opener <;> first | exact absurd rfl notFurther | rfl

/-! ## Through well-nested lines -/

/-- Going through further branches of a block. -/
theorem openedAfter?_further {branches : List Branch}
    (continues : ∀ b ∈ branches, b.line.Continues) (steady : ∀ b ∈ branches, Steady b.body)
    (first : Opening) (outer : Opened) :
    openedAfter? ((first, false) :: outer) (branches.flatMap Branch.lines) =
      some ((first, false) :: outer) := by
  induction branches with
  | nil => rfl
  | cons b branches ih =>
      obtain ⟨condition, spelt⟩ := continues b List.mem_cons_self
      have rest := ih (fun b mem => continues b (List.mem_cons_of_mem _ mem))
        (fun b mem => steady b (List.mem_cons_of_mem _ mem))
      have body := steady b List.mem_cons_self ((first, false) :: outer)
      simp [Branch.lines, openedAfter?_cons, openedAfter?_append, Directive.opened?,
        LogicalLine.opened?_of_directive? spelt, body, rest]

/-- In front of its closing directive a chain has one more block open: its own. -/
theorem Chain.openedAfter?_branches {c : Chain} (formed : c.Formed)
    (steady : ∀ b ∈ c.branches, Steady b.body) {opener : Opener} {condition : Condition}
    (spelt : c.first.line.directive? = some (.branch opener condition)) (blocks : Opened) :
    openedAfter? blocks (c.branches.flatMap Branch.lines) =
      some ((⟨opener, condition, ⟨c.first.line.number, c.first.line.span⟩⟩, c.last.isSome) ::
        blocks) := by
  have notFurther : opener ≠ .elseIf := by
    obtain ⟨_, _, other, notFurther⟩ := formed.opens
    cases spelt.symm.trans other
    exact notFurther
  obtain ⟨start, same⟩ :
      ∃ start : Opening, ⟨opener, condition, ⟨c.first.line.number, c.first.line.span⟩⟩ = start :=
    ⟨_, rfl⟩
  have opened := LogicalLine.opened?_opens spelt notFurther blocks
  have body := steady c.first List.mem_cons_self ((start, false) :: blocks)
  have further := openedAfter?_further formed.continues
    (fun b mem => steady b (by simp [branches, others, mem])) start blocks
  rw [same] at opened ⊢
  cases hasLast : c.last with
  | none =>
      simp [branches, others, hasLast, Branch.lines, openedAfter?_cons, openedAfter?_append,
        opened, body, further]
  | some last =>
      have otherwise := formed.otherwise last hasLast
      have body' := steady last (by simp [branches, others, hasLast]) ((start, true) :: blocks)
      simp [branches, others, hasLast, Branch.lines, openedAfter?_cons, openedAfter?_append,
        opened, body, further, LogicalLine.opened?_of_directive? otherwise, Directive.opened?,
        body']

/-- Well-nested lines leave the open blocks as they are. -/
theorem Nested.steady {lines : List LogicalLine} (nested : Nested lines) : Steady lines := by
  induction nested with
  | nil => exact fun _ => rfl
  | plain plain _ ih =>
      intro blocks
      simp [openedAfter?_cons, LogicalLine.opened?_plain plain, ih blocks]
  | @block c rest formed _ _ bodies ih =>
      intro blocks
      obtain ⟨opener, condition, spelt, _⟩ := formed.opens
      have inside := c.openedAfter?_branches formed bodies spelt blocks
      simp [Chain.lines, openedAfter?_cons, openedAfter?_append, inside,
        LogicalLine.opened?_of_directive? formed.closes, Directive.opened?, ih blocks]

/-! ## Back from the open blocks -/

theorem Nested.append {lines more : List LogicalLine} (nested : Nested lines)
    (behind : Nested more) : Nested (lines ++ more) := by
  induction nested with
  | nil => exact behind
  | plain plain _ ih => exact .plain plain ih
  | block formed bodies _ _ ih =>
      rw [List.append_assoc]
      exact .block formed bodies ih

/-- A directive that closes a block. -/
def closingLine : LogicalLine := ⟨"#endif".toList, 1, 1, false⟩

theorem closingLine_directive? : closingLine.directive? = some .endif := by
  decide +kernel

/-- What lines with open blocks are made of. Behind the well-nested lines in front of it, each open
    block is a chain up to some place in its latest branch. -/
inductive Stacked : List LogicalLine → Opened → Prop where
  | outside {lines : List LogicalLine} : Nested lines → Stacked lines []
  | inside {before : List LogicalLine} {blocks : Opened} {c : Chain} {opener : Opener}
      {condition : Condition} :
      Stacked before blocks → c.Formed → (∀ b ∈ c.branches, Nested b.body) →
      c.first.line.directive? = some (.branch opener condition) →
      Stacked (before ++ c.branches.flatMap Branch.lines)
        ((⟨opener, condition, ⟨c.first.line.number, c.first.line.span⟩⟩, c.last.isSome) :: blocks)

/-- A chain whose latest branch has more lines at its end. -/
theorem Chain.exists_longer {c : Chain} (formed : c.Formed)
    (bodies : ∀ b ∈ c.branches, Nested b.body) {more : List LogicalLine} (nested : Nested more) :
    ∃ longer : Chain, longer.Formed ∧ (∀ b ∈ longer.branches, Nested b.body) ∧
      longer.first.line = c.first.line ∧ longer.last.isSome = c.last.isSome ∧
      longer.branches.flatMap Branch.lines = c.branches.flatMap Branch.lines ++ more := by
  obtain ⟨first, further, last, closing⟩ := c
  obtain ⟨opens, continues, otherwise, closes⟩ := formed
  -- Wherever the latest branch is, only its body changes.
  have replaced (P : Branch → Prop) (init : List Branch) {b : Branch}
      (all : ∀ x ∈ init ++ [b], P x) (keeps : P b → P ⟨b.line, b.body ++ more⟩) :
      ∀ x ∈ init ++ [⟨b.line, b.body ++ more⟩], P x := by
    intro x mem
    rcases List.mem_append.mp mem with mem | mem
    · exact all x (List.mem_append_left _ mem)
    · rw [List.mem_singleton.mp mem]
      exact keeps (all b (by simp))
  have bodies' (init : List Branch) {b : Branch} (all : ∀ x ∈ init ++ [b], Nested x.body) :
      ∀ x ∈ init ++ [⟨b.line, b.body ++ more⟩], Nested x.body :=
    replaced (fun x => Nested x.body) init all fun body => body.append nested
  cases last with
  | some b =>
      refine ⟨⟨first, further, some ⟨b.line, b.body ++ more⟩, closing⟩,
        ⟨opens, continues, by simpa using otherwise, closes⟩, ?_, rfl, rfl, ?_⟩
      · exact bodies' (first :: further) bodies
      · simp [branches, others, Branch.lines]
  | none =>
      rcases List.eq_nil_or_concat further with rfl | ⟨init, b, rfl⟩
      · refine ⟨⟨⟨first.line, first.body ++ more⟩, [], none, closing⟩,
          ⟨opens, continues, otherwise, closes⟩, ?_, rfl, rfl, ?_⟩
        · exact bodies' [] bodies
        · simp [branches, others, Branch.lines]
      · rw [List.concat_eq_append] at continues bodies
        have continues' := replaced (fun x => x.line.Continues) init continues id
        refine ⟨⟨first, init ++ [⟨b.line, b.body ++ more⟩], none, closing⟩,
          ⟨opens, continues', otherwise, closes⟩, ?_, rfl, rfl, ?_⟩
        · have all := bodies' (first :: init) (by simpa [branches, others] using bodies)
          simpa [branches, others] using all
        · simp [branches, others, Branch.lines]

namespace Stacked

/-- Well-nested lines go to the end of the innermost block. -/
theorem append {lines more : List LogicalLine} {blocks : Opened} (stacked : Stacked lines blocks)
    (nested : Nested more) : Stacked (lines ++ more) blocks := by
  cases stacked with
  | outside inner => exact .outside (inner.append nested)
  | @inside before outer c opener condition stacked formed bodies spelt =>
      obtain ⟨longer, formed', bodies', start, last, lines⟩ := c.exists_longer formed bodies nested
      rw [← start] at spelt
      have whole := Stacked.inside stacked formed' bodies' spelt
      rw [lines, start, last] at whole
      simpa using whole

/-- A line that has no part in a block goes to the end of the innermost block. -/
theorem plain {lines : List LogicalLine} {blocks : Opened} {line : LogicalLine}
    (stacked : Stacked lines blocks) (plain : line.Plain) : Stacked (lines ++ [line]) blocks :=
  stacked.append (.plain plain .nil)

/-- A line that opens a block. -/
theorem opens {lines : List LogicalLine} {blocks : Opened} {line : LogicalLine}
    (stacked : Stacked lines blocks) {opener : Opener} {condition : Condition}
    (spelt : line.directive? = some (.branch opener condition)) (notFurther : opener ≠ .elseIf) :
    Stacked (lines ++ [line])
      ((⟨opener, condition, ⟨line.number, line.span⟩⟩, false) :: blocks) := by
  let c : Chain := ⟨⟨line, []⟩, [], none, closingLine⟩
  have formed : c.Formed :=
    ⟨⟨opener, condition, spelt, notFurther⟩, nofun, nofun, closingLine_directive?⟩
  have bodies : ∀ b ∈ c.branches, Nested b.body := by
    simp [c, Chain.branches, Chain.others, Nested.nil]
  have whole := Stacked.inside stacked formed bodies spelt
  simpa [c, Chain.branches, Chain.others, Branch.lines] using whole

section Innermost

variable {before : List LogicalLine} {blocks : Opened} {c : Chain} {opener : Opener}
  {condition : Condition} {line : LogicalLine}

/-- A line that starts one more branch of the innermost block. -/
theorem branch {longer : Chain} (stacked : Stacked before blocks) (formed : longer.Formed)
    (bodies : ∀ b ∈ c.branches, Nested b.body)
    (start : c.first.line.directive? = some (.branch opener condition))
    (first : longer.first = c.first) (branches : longer.branches = c.branches ++ [⟨line, []⟩]) :
    Stacked (before ++ c.branches.flatMap Branch.lines ++ [line])
      ((⟨opener, condition, ⟨c.first.line.number, c.first.line.span⟩⟩, longer.last.isSome) ::
        blocks) := by
  have bodies' : ∀ b ∈ longer.branches, Nested b.body := by
    rw [branches]
    simpa [or_imp, forall_and, Nested.nil] using bodies
  rw [← first] at start
  have whole := Stacked.inside stacked formed bodies' start
  rw [branches, first] at whole
  simpa [Branch.lines] using whole

/-- A line that goes on with a further branch of the innermost block. -/
theorem continues (stacked : Stacked before blocks) (formed : c.Formed)
    (bodies : ∀ b ∈ c.branches, Nested b.body)
    (start : c.first.line.directive? = some (.branch opener condition)) (noLast : c.last = none)
    (continues : line.Continues) :
    Stacked (before ++ c.branches.flatMap Branch.lines ++ [line])
      ((⟨opener, condition, ⟨c.first.line.number, c.first.line.span⟩⟩, false) :: blocks) := by
  let more : Chain := { c with further := c.further ++ [⟨line, []⟩] }
  have formed' : more.Formed := by
    refine ⟨formed.opens, ?_, formed.otherwise, formed.closes⟩
    intro b mem
    rcases List.mem_append.mp mem with mem | mem
    · exact formed.continues b mem
    · rw [List.mem_singleton.mp mem]
      exact continues
  have branches : more.branches = c.branches ++ [⟨line, []⟩] := by
    simp [more, Chain.branches, Chain.others, noLast]
  have whole := stacked.branch formed' bodies start rfl branches
  simpa [more, noLast] using whole

/-- A line that starts the last branch of the innermost block. -/
theorem otherwise (stacked : Stacked before blocks) (formed : c.Formed)
    (bodies : ∀ b ∈ c.branches, Nested b.body)
    (start : c.first.line.directive? = some (.branch opener condition)) (noLast : c.last = none)
    (spelt : line.directive? = some .otherwise) :
    Stacked (before ++ c.branches.flatMap Branch.lines ++ [line])
      ((⟨opener, condition, ⟨c.first.line.number, c.first.line.span⟩⟩, true) :: blocks) := by
  let more : Chain := { c with last := some ⟨line, []⟩ }
  have formed' : more.Formed :=
    ⟨formed.opens, formed.continues, by simpa [more] using spelt, formed.closes⟩
  have branches : more.branches = c.branches ++ [⟨line, []⟩] := by
    simp [more, Chain.branches, Chain.others, noLast]
  exact stacked.branch formed' bodies start rfl branches

end Innermost

/-- A line that fits keeps lines stacked. -/
theorem step {lines : List LogicalLine} {blocks behind : Opened} {line : LogicalLine}
    (stacked : Stacked lines blocks) (fits : line.opened? blocks = some behind) :
    Stacked (lines ++ [line]) behind := by
  cases spelt : line.directive? with
  | none =>
      rw [LogicalLine.opened?, spelt] at fits
      cases fits
      exact stacked.plain (LogicalLine.plain_of_none spelt)
  | some directive =>
      have isPlain (other : directive.isOfBlock = false) : line.Plain := by
        simp [LogicalLine.Plain, spelt, other]
      rw [LogicalLine.opened?_of_directive? spelt] at fits
      cases directive with
      | branch opener condition =>
          by_cases further : opener = .elseIf
          · subst further
            cases stacked with
            | outside _ => cases fits
            | @inside before outer c opener' condition' stacked formed bodies start =>
                cases hasLast : c.last with
                | some last => simp [hasLast, Directive.opened?] at fits
                | none =>
                    simp only [hasLast, Option.isSome_none, Directive.opened?] at fits
                    cases fits
                    exact stacked.continues formed bodies start hasLast ⟨condition, spelt⟩
          · have opened : behind = (⟨opener, condition, ⟨line.number, line.span⟩⟩, false) ::
                blocks := by
              cases opener <;> simp_all [Directive.opened?]
            rw [opened]
            exact stacked.opens spelt further
      | otherwise =>
          cases stacked with
          | outside _ => cases fits
          | @inside before outer c opener' condition' stacked formed bodies start =>
              cases hasLast : c.last with
              | some last => simp [hasLast, Directive.opened?] at fits
              | none =>
                  simp only [hasLast, Option.isSome_none, Directive.opened?] at fits
                  cases fits
                  exact stacked.otherwise formed bodies start hasLast spelt
      | endif =>
          cases stacked with
          | outside _ => cases fits
          | @inside before outer c opener condition stacked formed bodies _ =>
              cases fits
              have closed : { c with closing := line }.Formed :=
                ⟨formed.opens, formed.continues, formed.otherwise, spelt⟩
              have whole := stacked.append (Nested.block closed bodies .nil)
              simpa [Chain.lines, Chain.branches, Chain.others] using whole
      | define name value =>
          cases fits
          exact stacked.plain (isPlain rfl)
      | undef name =>
          cases fits
          exact stacked.plain (isPlain rfl)
      | other name =>
          cases fits
          exact stacked.plain (isPlain rfl)

theorem run {lines more : List LogicalLine} {blocks behind : Opened}
    (stacked : Stacked lines blocks) (fit : openedAfter? blocks more = some behind) :
    Stacked (lines ++ more) behind := by
  induction more generalizing lines blocks with
  | nil =>
      cases fit
      simpa using stacked
  | cons line more ih =>
      rw [openedAfter?_cons] at fit
      obtain ⟨next, here, later⟩ := Option.bind_eq_some_iff.mp fit
      have whole := ih (stacked.step here) later
      simpa using whole

end Stacked

/-- Lines are well nested just if every directive among them finds its block and no block is left
    open. -/
theorem nested_iff_openedAfter? {lines : List LogicalLine} :
    Nested lines ↔ openedAfter? [] lines = some [] := by
  constructor
  · intro nested
    exact nested.steady []
  · intro fit
    have stacked := Stacked.run (.outside .nil) fit
    cases stacked with
    | outside nested => exact nested

/-- Open blocks can be closed. -/
theorem openedAfter?_closing (blocks : Opened) :
    openedAfter? blocks (List.replicate blocks.length closingLine) = some [] := by
  induction blocks with
  | nil => rfl
  | cons block outer ih =>
      simp [List.replicate_succ, openedAfter?_cons, Directive.opened?,
        LogicalLine.opened?_of_directive? closingLine_directive?, ih]

/-- The lines can be made well nested by further ones. -/
def Extendable (lines : List LogicalLine) : Prop :=
  ∃ more, Nested (lines ++ more)

/-- Lines can be made well nested just if every directive among them finds its block. -/
theorem extendable_iff_openedAfter? {lines : List LogicalLine} :
    Extendable lines ↔ ∃ blocks, openedAfter? [] lines = some blocks := by
  constructor
  · rintro ⟨more, nested⟩
    have fit := nested.steady []
    rw [openedAfter?_append] at fit
    obtain ⟨blocks, here, _⟩ := Option.bind_eq_some_iff.mp fit
    exact ⟨blocks, here⟩
  · rintro ⟨blocks, fit⟩
    refine ⟨List.replicate blocks.length closingLine, ?_⟩
    rw [nested_iff_openedAfter?, openedAfter?_append, fit]
    exact openedAfter?_closing blocks

end InterfaceHeader
