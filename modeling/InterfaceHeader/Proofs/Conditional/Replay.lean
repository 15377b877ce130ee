import InterfaceHeader.Proofs.Conditional.Steps

/-!
# Drafts and the one pass

A draft of an outline is replayed as one pass would have gone through its lines: the finished
parts are walked through, and every open block enters its branches one after another and stays in
the last of them. Taking a line into the draft is then the same as taking it into the pass. The
only line that is not so by definition closes a block: there the branches of the chain turn from
branches that follow one another into parts that lie inside one another.
-/

namespace InterfaceHeader

/-- The lines shown so far, and what the pass knows behind them. -/
structure Progress where
  lines : List String
  pass : Pass

namespace Progress

/-- Leaves out so many lines. -/
def drop (preserveLines : Bool) (g : Progress) (count : Nat) : Progress :=
  { g with lines := g.lines ++ blankLines preserveLines count }

/-- Shows a line. -/
def take (preserveLines : Bool) (g : Progress) (line : LogicalLine) : Progress :=
  ⟨g.lines ++ g.pass.shown preserveLines line, g.pass.after line⟩

/-- Shows several lines. -/
def takeAll (preserveLines : Bool) (g : Progress) (lines : List LogicalLine) : Progress :=
  lines.foldl (take preserveLines) g

/-- Walks through parts of an outline in a region that is active or not. -/
def walkIn (preserveLines active : Bool) (g : Progress) (nodes : List Node) : Progress :=
  ⟨g.lines ++ (walkAll active g.pass.symbols nodes).1.flatMap (Event.lines preserveLines),
    { g.pass with symbols := (walkAll active g.pass.symbols nodes).2 }⟩

/-- Walks through parts of an outline in the region of this place. -/
def walk (preserveLines : Bool) (g : Progress) (nodes : List Node) : Progress :=
  g.walkIn preserveLines g.pass.active nodes

/-- In front of the first branch of a block. -/
def within (g : Progress) : Progress :=
  { g with pass := { g.pass with frames := ⟨g.pass.active, false, false⟩ :: g.pass.frames } }

/-- Goes on to a branch of the innermost block. -/
def further (g : Progress) (holds : Bool) : Progress :=
  { g with pass := g.pass.further holds }

/-- Closes the innermost block. -/
def leave (g : Progress) : Progress :=
  { g with pass := g.pass.leave }

/-- Starts a branch under a condition, behind the lines of its directive. -/
def branch (preserveLines : Bool) (g : Progress) (opening : Opening) : Progress :=
  (g.drop preserveLines opening.site.span).further (opening.condition.eval g.pass.symbols)

/-- Goes through a branch that another one follows. -/
def arm (preserveLines : Bool) (arm : Arm) (g : Progress) : Progress :=
  (g.branch preserveLines arm.opening).walk preserveLines arm.body

end Progress

/-- Goes through the branches of an open block up to the end of the current one, from in front of
    the first. -/
def OpenBlock.replay (preserveLines : Bool) (b : OpenBlock) (g : Progress) : Progress :=
  let here := ((b.earlier.foldr (Progress.arm preserveLines) g).branch preserveLines
    b.opening).walk preserveLines b.body
  match b.otherwise with
  | none => here
  | some (span, nodes) =>
    ((here.drop preserveLines span).further true).walk preserveLines nodes

/-- Goes through the lines of a draft from an empty text. -/
def Draft.replay (config : Configuration) (d : Draft) : Progress :=
  d.blocks.foldr (fun b g => b.replay config.preserveLines g.within)
    (Progress.walk config.preserveLines ⟨[], .start config.symbols⟩ d.nodes)

section Walk

theorem walkAll_append (active : Bool) (symbols : SymbolTable) (nodes more : List Node) :
    walkAll active symbols (nodes ++ more) =
      ((walkAll active symbols nodes).1
          ++ (walkAll active (walkAll active symbols nodes).2 more).1,
        (walkAll active (walkAll active symbols nodes).2 more).2) := by
  induction nodes generalizing symbols with
  | nil => rfl
  | cons node nodes ih =>
      rw [List.cons_append, walkAll, walkAll]
      simp only [ih, List.append_assoc]

theorem walkAll_singleton (active : Bool) (symbols : SymbolTable) (node : Node) :
    walkAll active symbols [node] = node.walk active symbols := by
  simp only [walkAll, List.append_nil]

@[simp] theorem Event.lines_dropped (preserveLines : Bool) (count : Nat) :
    (Event.dropped count).lines preserveLines = blankLines preserveLines count := rfl

/-- A decision leaves nothing in the flat text. -/
theorem flatMap_decided (preserveLines active : Bool) (decision : Decision) :
    (if active then [Event.decided decision] else []).flatMap (Event.lines preserveLines) =
      [] := by
  cases active <;> rfl

@[simp] theorem blankLines_zero (preserveLines : Bool) : blankLines preserveLines 0 = [] := by
  cases preserveLines <;> rfl

end Walk

namespace Progress

variable (preserveLines : Bool)

@[simp] theorem drop_zero (g : Progress) : g.drop preserveLines 0 = g := by
  simp [drop]

theorem walkIn_append (active : Bool) (g : Progress) (nodes more : List Node) :
    g.walkIn preserveLines active (nodes ++ more) =
      (g.walkIn preserveLines active nodes).walkIn preserveLines active more := by
  simp only [walkIn, walkAll_append, List.flatMap_append, List.append_assoc]

theorem walk_append (g : Progress) (nodes more : List Node) :
    g.walk preserveLines (nodes ++ more) = (g.walk preserveLines nodes).walk preserveLines more :=
  walkIn_append preserveLines g.pass.active g nodes more

@[simp] theorem walk_nil (g : Progress) : g.walk preserveLines [] = g := by
  simp [walk, walkIn, walkAll]

theorem takeAll_cons (g : Progress) (line : LogicalLine) (lines : List LogicalLine) :
    g.takeAll preserveLines (line :: lines) =
      (g.take preserveLines line).takeAll preserveLines lines := rfl

/-- Showing lines one after another is the one pass. -/
theorem takeAll_eq (g : Progress) (lines : List LogicalLine) :
    g.takeAll preserveLines lines =
      ⟨g.lines ++ g.pass.output preserveLines lines, g.pass.run lines⟩ := by
  induction lines generalizing g with
  | nil => simp [takeAll]
  | cons line lines ih =>
      rw [takeAll_cons, ih]
      simp only [take, Pass.output_cons, Pass.run_cons, List.append_assoc]

/-- Opening a block starts its first branch like a further one. -/
theorem enter_eq (g : Progress) (holds : Bool) :
    { g with pass := g.pass.enter holds } = g.within.further holds := by
  simp [within, further, Pass.further, Pass.enter, Frame.further]

theorem leave_drop (g : Progress) (count : Nat) :
    (g.drop preserveLines count).leave = g.leave.drop preserveLines count := rfl

/-- A branch that starts, in front of which a frame is innermost. -/
theorem branch_eq (lines : List String) (f : Frame) (outer : List Frame) (symbols : SymbolTable)
    (opening : Opening) :
    branch preserveLines ⟨lines, ⟨f :: outer, symbols⟩⟩ opening =
      ⟨lines ++ blankLines preserveLines opening.site.span,
        ⟨f.further (opening.condition.eval symbols) :: outer, symbols⟩⟩ := rfl

/-- Walking through parts in the branch of an innermost frame. -/
theorem walk_eq (lines : List String) (f : Frame) (outer : List Frame) (symbols : SymbolTable)
    (nodes : List Node) :
    walk preserveLines ⟨lines, ⟨f :: outer, symbols⟩⟩ nodes =
      ⟨lines ++ (walkAll f.active symbols nodes).1.flatMap (Event.lines preserveLines),
        ⟨f :: outer, (walkAll f.active symbols nodes).2⟩⟩ := rfl

/-- Going through the branches of a block from in front of one of them and closing the block is
    walking through a part of an outline, in a region that is active if the region around the
    block is and no branch before was. The part depends on the lines of the closing directive. -/
def Replays (branches : Progress → Progress) (block : Nat → Node) : Prop :=
  ∀ lines f outer symbols endSpan,
    ((branches ⟨lines, ⟨f :: outer, symbols⟩⟩).drop preserveLines endSpan).leave =
      walkIn preserveLines (f.enclosing && !f.taken) ⟨lines, ⟨outer, symbols⟩⟩ [block endSpan]

/-- One branch under a condition is a block of one branch. -/
theorem replays_ifThen (opening : Opening) (body : List Node) :
    Replays preserveLines
      (fun g => (g.branch preserveLines opening).walk preserveLines body)
      (.ifThen opening body) := by
  intro lines f outer symbols endSpan
  simp only [branch_eq, walk_eq, walkIn, walkAll_singleton, Node.walk, drop, leave, Pass.leave,
    Frame.further, List.tail_cons, List.flatMap_append, List.flatMap_cons, List.flatMap_nil,
    flatMap_decided, Event.lines_dropped, List.nil_append, List.append_nil, List.append_assoc]

/-- What follows a branch that did not hold the text is active if the region in front of the
    branch was and the branch is not. -/
theorem further_open (f : Frame) (holds : Bool) :
    ((f.further holds).enclosing && !(f.further holds).taken) =
      (f.enclosing && !f.taken && !(f.enclosing && !f.taken && holds)) := by
  obtain ⟨enclosing, taken, active⟩ := f
  cases enclosing <;> cases taken <;> cases holds <;> rfl

/-- A branch under a condition and the last branch are a block of two branches. -/
theorem replays_ifElse (opening : Opening) (body : List Node) (span : Nat) (nodes : List Node) :
    Replays preserveLines
      (fun g => ((((g.branch preserveLines opening).walk preserveLines body).drop preserveLines
        span).further true).walk preserveLines nodes)
      (.ifElse opening body span nodes) := by
  intro lines f outer symbols endSpan
  have last (f : Frame) : (f.further true).active = (f.enclosing && !f.taken) := by
    simp [Frame.further]
  simp only [branch_eq, walk_eq, drop, further, Pass.further, last, further_open]
  simp only [walkIn, walkAll_singleton, Node.walk, leave, Pass.leave,
    Frame.further, List.tail_cons, List.flatMap_append, List.flatMap_cons, List.flatMap_nil,
    flatMap_decided, Event.lines_dropped, List.nil_append, List.append_nil, List.append_assoc]

/-- A branch in front of others is a block whose last branch holds the block of the others. -/
theorem Replays.arm {branches : Progress → Progress} {block : Nat → Node}
    (replays : Replays preserveLines branches block) (a : Arm) :
    Replays preserveLines (fun g => branches (Progress.arm preserveLines a g))
      (.ifElse a.opening a.body 0 [block 0]) := by
  intro lines f outer symbols endSpan
  let g := walk preserveLines (branch preserveLines ⟨lines, ⟨f :: outer, symbols⟩⟩ a.opening) a.body
  have others := replays g.lines (f.further (a.opening.condition.eval symbols)) outer
    g.pass.symbols 0
  rw [drop_zero] at others
  rw [leave_drop]
  calc ((branches g).leave).drop preserveLines endSpan
      = (walkIn preserveLines
          (f.enclosing && !f.taken
            && !(f.enclosing && !f.taken && a.opening.condition.eval symbols))
          ⟨g.lines, ⟨outer, g.pass.symbols⟩⟩ [block 0]).drop preserveLines endSpan := by
        rw [← further_open, ← others]
        rfl
    _ = _ := by
        simp only [g, branch_eq, walk_eq, walkIn, walkAll_singleton, Node.walk, drop,
          Frame.further, List.flatMap_append, List.flatMap_cons, List.flatMap_nil,
          flatMap_decided, Event.lines_dropped, blankLines_zero, List.nil_append,
          List.append_nil, List.append_assoc]

/-- All branches of a block, the first ones given latest first, are the block that nests them. -/
theorem Replays.nest {branches : Progress → Progress} {block : Nat → Node}
    (replays : Replays preserveLines branches block) (earlier : List Arm) :
    Replays preserveLines (fun g => branches (earlier.foldr (Progress.arm preserveLines) g))
      (fun endSpan => OpenBlock.nest endSpan block earlier) := by
  induction earlier generalizing branches block with
  | nil => exact replays
  | cons a earlier ih => exact ih (replays.arm preserveLines a)

end Progress

namespace OpenBlock

/-- Going through an open block and closing it is walking through the closed block. -/
theorem leave_replay (preserveLines : Bool) (b : OpenBlock) (g : Progress) (endSpan : Nat) :
    ((b.replay preserveLines g.within).drop preserveLines endSpan).leave =
      g.walk preserveLines [b.close endSpan] := by
  have branches : Progress.Replays preserveLines (b.replay preserveLines)
      (fun endSpan => OpenBlock.nest endSpan b.current b.earlier) := by
    obtain ⟨earlier, opening, body, otherwise⟩ := b
    cases otherwise with
    | none => exact (Progress.replays_ifThen preserveLines opening body).nest preserveLines earlier
    | some last =>
        obtain ⟨span, nodes⟩ := last
        exact (Progress.replays_ifElse preserveLines opening body span nodes).nest preserveLines
          earlier
  have closed := branches g.lines ⟨g.pass.active, false, false⟩ g.pass.frames g.pass.symbols endSpan
  rw [Bool.not_false, Bool.and_true] at closed
  exact closed

/-- A part at the end of the current branch is walked through last. -/
theorem replay_add (preserveLines : Bool) (b : OpenBlock) (node : Node) (g : Progress) :
    (b.add node).replay preserveLines g = (b.replay preserveLines g).walk preserveLines [node] := by
  obtain ⟨earlier, opening, body, otherwise⟩ := b
  cases otherwise with
  | none => exact Progress.walk_append preserveLines _ body [node]
  | some last => exact Progress.walk_append preserveLines _ last.2 [node]

end OpenBlock

namespace Draft

variable (config : Configuration)

theorem replay_add (d : Draft) (node : Node) :
    (d.add node).replay config = (d.replay config).walk config.preserveLines [node] := by
  obtain ⟨nodes, blocks⟩ := d
  cases blocks with
  | nil => exact Progress.walk_append config.preserveLines _ nodes [node]
  | cons b blocks => exact b.replay_add config.preserveLines node _

/-- A directive does to a draft what it does to the pass. -/
theorem replay_applied {d d' : Draft} {site : Site} {directive : Directive}
    (applied : Applied site d directive d') :
    d'.replay config =
      ⟨(d.replay config).lines ++ blankLines config.preserveLines site.span,
        (d.replay config).pass.apply directive⟩ := by
  cases applied with
  | @opened _ opener condition notFurther =>
      have entered (p : Pass) :
          p.apply (.branch opener condition) = p.enter (condition.eval p.symbols) := by
        cases opener <;> first | exact absurd rfl notFurther | rfl
      rw [entered]
      exact (Progress.walk_nil config.preserveLines _).trans (Progress.enter_eq
        ((d.replay config).drop config.preserveLines site.span) _).symm
  | further => exact Progress.walk_nil config.preserveLines _
  | otherwise => exact Progress.walk_nil config.preserveLines _
  | @closed nodes b blocks =>
      rw [replay_add]
      exact (b.leave_replay config.preserveLines _ site.span).symm
  | define =>
      rw [replay_add]
      simp [Progress.walk, Progress.walkIn, walkAll_singleton, Node.walk, Pass.apply]
  | undef =>
      rw [replay_add]
      simp [Progress.walk, Progress.walkIn, walkAll_singleton, Node.walk, Pass.apply]
  | other =>
      rw [replay_add]
      simp [Progress.walk, Progress.walkIn, walkAll_singleton, Node.walk, Pass.apply]

/-- Taking a line into a draft is taking it into the pass. -/
theorem replay_step {d d' : Draft} {line : LogicalLine} (stepped : d.step line = .ok d') :
    d'.replay config = (d.replay config).take config.preserveLines line := by
  simp only [Progress.take, Pass.shown]
  rcases step_cases stepped with ⟨directive, spelt, applied⟩ | ⟨text, rfl⟩
  · have kind := LogicalLine.isDirective_of_directive? spelt
    rw [kind, if_pos rfl, Pass.after_of_directive? _ spelt]
    exact replay_applied config applied
  · rw [text, Pass.after_of_none _ (LogicalLine.directive?_of_text text), replay_add]
    cases here : (d.replay config).pass.active <;>
      simp [here, Progress.walk, Progress.walkIn, walkAll_singleton, Node.walk, Event.lines,
        blankLines]

/-- Drafting lines is going through them in one pass. -/
theorem replay_foldlM {lines : List LogicalLine} {d d' : Draft}
    (drafted : lines.foldlM step d = .ok d') :
    d'.replay config = (d.replay config).takeAll config.preserveLines lines := by
  induction lines generalizing d with
  | nil =>
      cases drafted
      rfl
  | cons line lines ih =>
      obtain ⟨next, stepped, drafted⟩ := foldlM_cons drafted
      rw [ih drafted, replay_step config stepped, Progress.takeAll_cons]

end Draft

/-- Walking through an outline shows the lines, and leaves the symbols, that one pass over the
    lines of the text does. -/
theorem walk_of_outlineOfLines? {lines : List LogicalLine} {nodes : List Node}
    (outlined : outlineOfLines? lines = .ok nodes) (config : Configuration) :
    Progress.walk config.preserveLines ⟨[], .start config.symbols⟩ nodes =
      Progress.takeAll config.preserveLines ⟨[], .start config.symbols⟩ lines := by
  have replayed := Draft.replay_foldlM config (drafted_of_outlineOfLines? outlined)
  have nothing : Draft.empty.replay config = ⟨[], .start config.symbols⟩ :=
    Progress.walk_nil config.preserveLines _
  rw [nothing] at replayed
  exact replayed

/-- The lines of the flat text are those that one pass shows. -/
theorem flatLines_eq_output {text : List Char} {nodes : List Node}
    (outlined : outlineOf? text = .ok nodes) (config : Configuration) :
    flatLines nodes config =
      (Pass.start config.symbols).output config.preserveLines (logicalLines (Text.lines text)) := by
  have walked := walk_of_outlineOfLines? outlined config
  rw [Progress.takeAll_eq] at walked
  exact congrArg Progress.lines walked

end InterfaceHeader
