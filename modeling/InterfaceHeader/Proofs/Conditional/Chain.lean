import InterfaceHeader.Proofs.Conditional.Replay

/-!
# Chains of branches

In well-nested lines every block is a chain: a branch under a condition, further ones, at most one
last branch without a condition, and a closing directive; the bodies are well nested again. One
pass over well-nested lines comes out with the open blocks it came in with, and shows nothing of
them in a region that is not active. So of a chain it shows the branches whose region is active,
and these are at most one: exactly one if the chain has a last branch in an active region.
-/

namespace InterfaceHeader

/-- The line opens a block. -/
def LogicalLine.Opens (line : LogicalLine) : Prop :=
  ∃ opener condition, line.directive? = some (.branch opener condition) ∧ opener ≠ .elseIf

/-- The line goes on with a further branch under a condition. -/
def LogicalLine.Continues (line : LogicalLine) : Prop :=
  ∃ condition, line.directive? = some (.branch .elseIf condition)

/-- The directive has a part in a block. -/
def Directive.isOfBlock : Directive → Bool
  | .branch _ _ => true
  | .otherwise => true
  | .endif => true
  | _ => false

/-- The line has no part in a block: a line of text, or a directive about something else. -/
def LogicalLine.Plain (line : LogicalLine) : Prop :=
  ∀ directive ∈ line.directive?, directive.isOfBlock = false

/-- A branch: the directive that starts it, and the lines up to the next one of its block. -/
structure Branch where
  line : LogicalLine
  body : List LogicalLine

def Branch.lines (b : Branch) : List LogicalLine :=
  b.line :: b.body

/-- A block with all its branches. -/
structure Chain where
  first : Branch
  further : List Branch
  /-- The branch that is left when no condition holds. -/
  last : Option Branch
  closing : LogicalLine

namespace Chain

/-- The branches behind the first one. -/
def others (c : Chain) : List Branch :=
  c.further ++ c.last.toList

def branches (c : Chain) : List Branch :=
  c.first :: c.others

def lines (c : Chain) : List LogicalLine :=
  c.branches.flatMap Branch.lines ++ [c.closing]

/-- The directives between the bodies are those of one block. -/
structure Formed (c : Chain) : Prop where
  opens : c.first.line.Opens
  continues : ∀ b ∈ c.further, b.line.Continues
  otherwise : ∀ b ∈ c.last, b.line.directive? = some .otherwise
  closes : c.closing.directive? = some .endif

end Chain

/-- Lines in which every block is a chain. -/
inductive Nested : List LogicalLine → Prop where
  | nil : Nested []
  | plain {line : LogicalLine} {rest : List LogicalLine} :
      line.Plain → Nested rest → Nested (line :: rest)
  | block {c : Chain} {rest : List LogicalLine} :
      c.Formed → (∀ b ∈ c.branches, Nested b.body) → Nested rest → Nested (c.lines ++ rest)

/-- The line goes on with another branch of the innermost block. -/
def LogicalLine.GoesOn (line : LogicalLine) : Prop :=
  ∀ p : Pass, ∃ holds, p.after line = p.further holds

/-- The lines close all blocks they open, and no others. -/
def Level (lines : List LogicalLine) : Prop :=
  ∀ p : Pass, (p.run lines).frames = p.frames

theorem LogicalLine.plain_of_none {line : LogicalLine} (silent : line.directive? = none) :
    line.Plain := by
  rw [LogicalLine.Plain, silent]
  exact nofun

namespace Pass

/-- The pass at the first line of each branch, with the branch. -/
def starts : Pass → List Branch → List (Pass × Branch)
  | _, [] => []
  | p, b :: rest => (p.after b.line, b) :: starts ((p.after b.line).run b.body) rest

/-- The branches of a chain whose region is active, each with the pass at its first line. -/
def selected (p : Pass) (branches : List Branch) : List (Pass × Branch) :=
  (p.starts branches).filter (·.1.active)

/-- A directive leaves nothing in the flat text. -/
theorem shown_of_directive? {line : LogicalLine} {directive : Directive} (p : Pass)
    (spelt : line.directive? = some directive) : p.shown false line = [] := by
  rw [shown, LogicalLine.isDirective_of_directive? spelt]
  rfl

/-- In a region that is not active nothing is shown. -/
theorem shown_inactive {line : LogicalLine} (p : Pass) (inactive : p.active = false) :
    p.shown false line = [] := by
  unfold shown
  rw [inactive]
  cases line.isDirective <;> rfl

theorem active_of_frames {p q : Pass} (same : p.frames = q.frames) : p.active = q.active := by
  unfold active
  rw [same]

/-- A line that has no part in a block leaves the open blocks as they are. -/
theorem frames_after_plain {line : LogicalLine} (plain : line.Plain) (p : Pass) :
    (p.after line).frames = p.frames := by
  cases spelt : line.directive? with
  | none => rw [after_of_none p spelt]
  | some directive =>
      have other := plain directive spelt
      rw [after_of_directive? p spelt]
      cases directive with
      | branch opener condition => cases other
      | otherwise => cases other
      | endif => cases other
      | define name value => rfl
      | undef name => rfl
      | other name => rfl

theorem after_opens {line : LogicalLine} (opens : line.Opens) (p : Pass) :
    ∃ holds, p.after line = p.enter holds := by
  obtain ⟨opener, condition, spelt, notFurther⟩ := opens
  refine ⟨condition.eval p.symbols, ?_⟩
  rw [after_of_directive? p spelt]
  cases opener <;> first | exact absurd rfl notFurther | rfl

theorem goesOn_of_continues {line : LogicalLine} (continues : line.Continues) : line.GoesOn := by
  intro p
  obtain ⟨condition, spelt⟩ := continues
  exact ⟨condition.eval p.symbols, after_of_directive? p spelt⟩

/-- Every branch of a chain behind the first one goes on with the block. -/
theorem goesOn_of_formed {c : Chain} (formed : c.Formed) {b : Branch} (mem : b ∈ c.others) :
    b.line.GoesOn := by
  rcases List.mem_append.mp mem with mem | mem
  · exact goesOn_of_continues (formed.continues b mem)
  · intro p
    exact ⟨true, after_of_directive? p (formed.otherwise b (Option.mem_toList.mp mem))⟩

theorem selected_cons (p : Pass) (b : Branch) (branches : List Branch) :
    p.selected (b :: branches) =
      (if (p.after b.line).active then [(p.after b.line, b)] else []) ++
        ((p.after b.line).run b.body).selected branches := by
  unfold selected
  rw [starts, List.filter_cons]
  split <;> rfl

theorem selected_append (p : Pass) (branches more : List Branch) :
    p.selected (branches ++ more) =
      p.selected branches ++ (p.run (branches.flatMap Branch.lines)).selected more := by
  induction branches generalizing p with
  | nil => rfl
  | cons b branches ih =>
      rw [List.cons_append, selected_cons, selected_cons, ih, List.flatMap_cons, run_append,
        List.append_assoc]
      rfl

theorem run_branches (p : Pass) (b : Branch) (branches : List Branch) :
    p.run ((b :: branches).flatMap Branch.lines) =
      ((p.after b.line).run b.body).run (branches.flatMap Branch.lines) := by
  rw [List.flatMap_cons, run_append]
  rfl

/-- Going on to a branch and through it, in terms of frames. -/
theorem frames_through {b : Branch} (on : b.line.GoesOn) (level : Level b.body) {p : Pass}
    {f : Frame} {outer : List Frame} (frames : p.frames = f :: outer) :
    ∃ holds, (p.after b.line).active = (f.further holds).active ∧
      ((p.after b.line).run b.body).frames = f.further holds :: outer := by
  obtain ⟨holds, after⟩ := on p
  have behind : (p.after b.line).frames = f.further holds :: outer := by
    rw [after, further, frames]
  refine ⟨holds, ?_, (level _).trans behind⟩
  unfold active
  rw [behind]

/-- Going on through branches of the innermost block, the block remembers exactly whether one of
    them has been selected. -/
theorem frames_run_branches {branches : List Branch} (on : ∀ b ∈ branches, b.line.GoesOn)
    (level : ∀ b ∈ branches, Level b.body) {p : Pass} {f : Frame} {outer : List Frame}
    (frames : p.frames = f :: outer) :
    ∃ f', (p.run (branches.flatMap Branch.lines)).frames = f' :: outer ∧
      f'.enclosing = f.enclosing ∧
      f'.taken.toNat = f.taken.toNat + (p.selected branches).length := by
  induction branches generalizing p f with
  | nil => exact ⟨f, frames, rfl, rfl⟩
  | cons b branches ih =>
      obtain ⟨holds, start, through⟩ :=
        frames_through (on b List.mem_cons_self) (level b List.mem_cons_self) frames
      obtain ⟨f', run, enclosing, taken⟩ := ih (fun b mem => on b (List.mem_cons_of_mem _ mem))
        (fun b mem => level b (List.mem_cons_of_mem _ mem)) through
      refine ⟨f', by rw [run_branches, run], enclosing, ?_⟩
      rw [selected_cons, start, List.length_append, taken]
      obtain ⟨around, before, now⟩ := f
      cases around <;> cases before <;> cases holds <;> simp [Frame.further]

/-- In a region that is not active no branch of a block is selected. -/
theorem selected_inactive {branches : List Branch} (on : ∀ b ∈ branches, b.line.GoesOn)
    (level : ∀ b ∈ branches, Level b.body) {p : Pass} {f : Frame} {outer : List Frame}
    (frames : p.frames = f :: outer) (inactive : f.enclosing = false) :
    p.selected branches = [] := by
  induction branches generalizing p f with
  | nil => rfl
  | cons b branches ih =>
      obtain ⟨holds, start, through⟩ :=
        frames_through (on b List.mem_cons_self) (level b List.mem_cons_self) frames
      rw [selected_cons, start, ih (fun b mem => on b (List.mem_cons_of_mem _ mem))
        (fun b mem => level b (List.mem_cons_of_mem _ mem)) through inactive]
      simp [Frame.further, inactive]

end Pass

/-- Into the first branch of a chain and through it, in terms of frames. -/
theorem Chain.frames_first {c : Chain} (formed : c.Formed) (level : Level c.first.body)
    (p : Pass) :
    ∃ holds, (p.after c.first.line).active = (p.active && holds) ∧
      ((p.after c.first.line).run c.first.body).frames =
        ⟨p.active, p.active && holds, p.active && holds⟩ :: p.frames := by
  obtain ⟨holds, entered⟩ := Pass.after_opens formed.opens p
  refine ⟨holds, ?_, ?_⟩
  · rw [entered]
    rfl
  · rw [level, entered]
    rfl

/-- A chain in front of its closing directive: the frame of its block remembers exactly whether a
    branch was selected. -/
theorem Chain.frames_run {c : Chain} (formed : c.Formed) (level : ∀ b ∈ c.branches, Level b.body)
    (p : Pass) :
    ∃ f, (p.run (c.branches.flatMap Branch.lines)).frames = f :: p.frames ∧
      f.enclosing = p.active ∧ f.taken.toNat = (p.selected c.branches).length := by
  obtain ⟨holds, start, behind⟩ := c.frames_first formed (level c.first List.mem_cons_self) p
  obtain ⟨f, run, enclosing, taken⟩ := Pass.frames_run_branches
    (fun b mem => Pass.goesOn_of_formed formed mem)
    (fun b mem => level b (List.mem_cons_of_mem _ mem)) behind
  refine ⟨f, by rw [branches, Pass.run_branches, run], enclosing, ?_⟩
  rw [branches, Pass.selected_cons, start, List.length_append, taken]
  cases p.active && holds <;> rfl

/-- One pass over well-nested lines comes out with the open blocks it came in with. -/
theorem Nested.level {lines : List LogicalLine} (nested : Nested lines) : Level lines := by
  induction nested with
  | nil => exact fun _ => rfl
  | plain plain _ ih => exact fun p => (ih _).trans (Pass.frames_after_plain plain p)
  | @block c rest formed _ _ bodies ih =>
      intro p
      obtain ⟨f, run, _, _⟩ := c.frames_run formed bodies p
      rw [Pass.run_append, ih, Chain.lines, Pass.run_append, Pass.run_cons, Pass.run_nil,
        Pass.after_of_directive? _ formed.closes, Pass.apply, Pass.leave, run, List.tail_cons]

/-- Nothing is shown of the lines where they are in a region that is not active. -/
def Silent (lines : List LogicalLine) : Prop :=
  ∀ p : Pass, p.active = false → p.output false lines = []

namespace Pass

theorem output_branches (p : Pass) (b : Branch) (branches : List Branch) :
    p.output false ((b :: branches).flatMap Branch.lines) =
      p.shown false b.line ++ (p.after b.line).output false b.body ++
        ((p.after b.line).run b.body).output false (branches.flatMap Branch.lines) := by
  rw [List.flatMap_cons, output_append, Branch.lines, output_cons]
  rfl

/-- What is shown of branches is what is shown of those that are selected. -/
theorem output_selected {branches : List Branch}
    (directives : ∀ b ∈ branches, b.line.directive?.isSome)
    (silent : ∀ b ∈ branches, Silent b.body) (p : Pass) :
    p.output false (branches.flatMap Branch.lines) =
      (p.selected branches).flatMap fun start => start.1.output false start.2.body := by
  induction branches generalizing p with
  | nil => rfl
  | cons b branches ih =>
      obtain ⟨directive, spelt⟩ := Option.isSome_iff_exists.mp (directives b List.mem_cons_self)
      rw [output_branches, shown_of_directive? p spelt, selected_cons, List.flatMap_append,
        ih (fun b mem => directives b (List.mem_cons_of_mem _ mem))
          (fun b mem => silent b (List.mem_cons_of_mem _ mem)), List.nil_append]
      cases start : (p.after b.line).active with
      | false => rw [silent b List.mem_cons_self _ start]; rfl
      | true => simp

end Pass

namespace Chain

variable {c : Chain}

/-- Every branch of a chain starts with a directive. -/
theorem directive?_isSome (formed : c.Formed) : ∀ b ∈ c.branches, b.line.directive?.isSome := by
  intro b mem
  rcases List.mem_cons.mp mem with rfl | mem
  · obtain ⟨opener, condition, spelt, _⟩ := formed.opens
    rw [spelt]
    rfl
  · rcases List.mem_append.mp mem with mem | mem
    · obtain ⟨condition, spelt⟩ := formed.continues b mem
      rw [spelt]
      rfl
    · rw [formed.otherwise b (Option.mem_toList.mp mem)]
      rfl

/-- What is shown of a chain is what is shown of its selected branches. -/
theorem output_eq (formed : c.Formed) (silent : ∀ b ∈ c.branches, Silent b.body) (p : Pass) :
    p.output false c.lines =
      (p.selected c.branches).flatMap fun start => start.1.output false start.2.body := by
  rw [lines, Pass.output_append, Pass.output_selected (directive?_isSome formed) silent,
    Pass.output_cons, Pass.shown_of_directive? _ formed.closes, Pass.output_nil, List.append_nil,
    List.append_nil]

/-- In a region that is not active no branch of a chain is selected. -/
theorem selected_inactive (formed : c.Formed) (level : ∀ b ∈ c.branches, Level b.body) {p : Pass}
    (inactive : p.active = false) : p.selected c.branches = [] := by
  obtain ⟨holds, start, behind⟩ := c.frames_first formed (level c.first List.mem_cons_self) p
  rw [inactive, Bool.false_and] at start
  rw [branches, Pass.selected_cons, start,
    Pass.selected_inactive (fun b mem => Pass.goesOn_of_formed formed mem)
      (fun b mem => level b (List.mem_cons_of_mem _ mem)) behind inactive]
  rfl

/-- At most one branch of a chain is selected. -/
theorem length_selected_le (formed : c.Formed) (level : ∀ b ∈ c.branches, Level b.body)
    (p : Pass) : (p.selected c.branches).length ≤ 1 := by
  obtain ⟨f, _, _, taken⟩ := c.frames_run formed level p
  rw [← taken]
  exact Bool.toNat_le f.taken

/-- In an active region a branch is selected of a chain that has a last branch. -/
theorem length_selected_eq (formed : c.Formed) (level : ∀ b ∈ c.branches, Level b.body)
    {p : Pass} (active : p.active = true) {last : Branch} (hasLast : c.last = some last) :
    (p.selected c.branches).length = 1 := by
  -- The chain up to its last branch is a chain of its own.
  have formed' : { c with last := none }.Formed :=
    ⟨formed.opens, formed.continues, nofun, formed.closes⟩
  have split : c.branches = { c with last := none }.branches ++ [last] := by
    simp [branches, others, hasLast]
  have level' (b : Branch) (mem : b ∈ { c with last := none }.branches) : Level b.body :=
    level b (split ▸ List.mem_append_left _ mem)
  obtain ⟨f, run, enclosing, taken⟩ := frames_run formed' level' p
  have start : ((p.run ({ c with last := none }.branches.flatMap Branch.lines)).after
      last.line).active = !f.taken := by
    rw [Pass.after_of_directive? _ (formed.otherwise last hasLast), Pass.apply, Pass.further, run]
    rw [active] at enclosing
    simp [Pass.active, Frame.further, enclosing]
  rw [split, Pass.selected_append, Pass.selected_cons, start, List.length_append, ← taken]
  cases f.taken <;> rfl

end Chain

/-- Nothing is shown of well-nested lines in a region that is not active. -/
theorem Nested.silent {lines : List LogicalLine} (nested : Nested lines) : Silent lines := by
  induction nested with
  | nil => exact fun _ _ => rfl
  | plain plain _ ih =>
      intro p inactive
      have behind := (Pass.active_of_frames (Pass.frames_after_plain plain p)).trans inactive
      rw [Pass.output_cons, Pass.shown_inactive p inactive, ih _ behind, List.append_nil]
  | @block c rest formed bodies nested silent ih =>
      intro p inactive
      have level (b : Branch) (mem : b ∈ c.branches) := (bodies b mem).level
      have whole : Level c.lines := by
        have chain := Nested.block formed bodies .nil
        rw [List.append_nil] at chain
        exact chain.level
      have behind := (Pass.active_of_frames (whole p)).trans inactive
      rw [Pass.output_append, Chain.output_eq formed silent, ih _ behind,
        Chain.selected_inactive formed level inactive]
      rfl

end InterfaceHeader
