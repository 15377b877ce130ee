import InterfaceHeader.Outline.Draft

/-!
# A stack with an entry for each branch

The open blocks of a draft can also be kept with an entry for each branch under a condition. An
entry is chained if it goes on with the block of the entry below it, which then is in its last
branch. A closing directive has to go down to an entry that is not chained, and so has the error of
a text that ends inside a block. Both searches could come to the bottom of the stack; they are
given outcomes of their own here, and a draft kept in this way never has them.
-/

namespace InterfaceHeader

/-- A branch under a condition that is still open, and the branch behind it. -/
structure Link where
  opening : Opening
  body : List Node
  otherwise : Option (Nat × List Node)
  /-- Goes on with the block of the entry below. -/
  chained : Bool

namespace Link

def start (opening : Opening) (chained : Bool) : Link :=
  ⟨opening, [], none, chained⟩

/-- Puts a part at the end. -/
def add (l : Link) (node : Node) : Link :=
  match l.otherwise with
  | none => { l with body := l.body ++ [node] }
  | some (span, nodes) => { l with otherwise := some (span, nodes ++ [node]) }

/-- The block that ends with a directive of so many lines. -/
def close (l : Link) (endSpan : Nat) : Node :=
  match l.otherwise with
  | none => .ifThen l.opening l.body endSpan
  | some (span, nodes) => .ifElse l.opening l.body span nodes endSpan

/-- Closes entries into those below them down to one that is not chained; none if the stack ends
    before. -/
def closeChain? (l : Link) : List Link → Option (Link × List Link)
  | [] => if l.chained then none else some (l, [])
  | below :: rest =>
    if l.chained then closeChain? (below.add (l.close 0)) rest else some (l, below :: rest)

end Link

/-- Why a text has no outline, with the two searches that fail told apart. -/
inductive LinkedError where
  | reported (error : DirectiveError)
  /-- A closing directive finds only chained entries. -/
  | chainCut (line : Nat)
  /-- The text ends, and there are only chained entries; the error is reported at the innermost. -/
  | onlyChained (error : DirectiveError)

/-- A draft with such a stack. -/
structure Linked where
  nodes : List Node
  links : List Link

namespace Linked

def empty : Linked := ⟨[], []⟩

/-- Puts a part at the end of the innermost open branch. -/
def add (s : Linked) (node : Node) : Linked :=
  match s.links with
  | [] => { s with nodes := s.nodes ++ [node] }
  | l :: rest => { s with links := l.add node :: rest }

/-- Starts the last branch of the innermost entry, with the lines of its directive. -/
def enterLast (s : Linked) (name : String) (span line : Nat) : Except LinkedError Linked :=
  match s.links with
  | [] => .error (.reported ⟨.unbalancedElse name, line⟩)
  | l :: rest =>
    if l.otherwise.isSome then .error (.reported ⟨.branchAfterElse name, line⟩)
    else .ok { s with links := { l with otherwise := some (span, []) } :: rest }

/-- Closes the innermost entry and all to which it is chained. -/
def close (s : Linked) (site : Site) : Except LinkedError Linked :=
  match s.links with
  | [] => .error (.reported ⟨.unbalancedEndif, site.line⟩)
  | l :: rest =>
    match l.closeChain? rest with
    | none => .error (.chainCut site.line)
    | some (first, rest) => .ok (Linked.add ⟨s.nodes, rest⟩ (first.close site.span))

/-- What a directive does. The lines of a further branch belong to the entry that it makes. -/
def apply (s : Linked) (site : Site) : Directive → Except LinkedError Linked
  | .branch .elseIf condition =>
    (s.enterLast "elif" 0 site.line).map fun s =>
      { s with links := .start ⟨.elseIf, condition, site⟩ true :: s.links }
  | .branch opener condition =>
    .ok { s with links := .start ⟨opener, condition, site⟩ false :: s.links }
  | .otherwise => s.enterLast "else" site.span site.line
  | .endif => s.close site
  | .define name value => .ok (s.add (.define name value site))
  | .undef name => .ok (s.add (.undef name site))
  | .other name => .ok (s.add (.other name site))

/-- Takes in one more line. -/
def step (s : Linked) (line : LogicalLine) : Except LinkedError Linked :=
  if line.isDirective then
    match Directive.ofText? line.text with
    | .error fault => .error (.reported ⟨fault, line.number⟩)
    | .ok directive => s.apply ⟨line.number, line.span⟩ directive
  else .ok (s.add (.text (String.ofList line.text)))

/-- The outline, if the stack is empty. Otherwise the innermost entry that is not chained is
    reported. -/
def finish (s : Linked) : Except LinkedError (List Node) :=
  let unclosed (l : Link) : DirectiveError :=
    ⟨.unclosedBlock l.opening.opener.text, l.opening.site.line⟩
  match s.links with
  | [] => .ok s.nodes
  | innermost :: rest =>
    match (innermost :: rest).find? fun l => !l.chained with
    | some l => .error (.reported (unclosed l))
    | none => .error (.onlyChained (unclosed innermost))

end Linked

/-- The outline of a text, drafted with an entry for each branch. -/
def linkedOutlineOf? (text : List Char) : Except LinkedError (List Node) :=
  ((logicalLines (Text.lines text)).foldlM Linked.step Linked.empty).bind Linked.finish

/-! ## The entries of a draft -/

/-- The entries of the branches before the current one, latest first. -/
def armLinks : List Arm → List Link
  | [] => []
  | arm :: earlier =>
    ⟨arm.opening, arm.body, some (0, []), !earlier.isEmpty⟩ :: armLinks earlier

/-- The entry of the current branch. -/
def OpenBlock.top (b : OpenBlock) : Link :=
  ⟨b.opening, b.body, b.otherwise, !b.earlier.isEmpty⟩

/-- The entries of an open block. -/
def OpenBlock.links (b : OpenBlock) : List Link :=
  b.top :: armLinks b.earlier

/-- A draft with an entry for each branch. -/
def Draft.linked (d : Draft) : Linked :=
  ⟨d.nodes, d.blocks.flatMap OpenBlock.links⟩

theorem OpenBlock.links_add (b : OpenBlock) (node : Node) :
    (b.add node).links = b.top.add node :: armLinks b.earlier := by
  obtain ⟨earlier, opening, body, otherwise⟩ := b
  cases otherwise <;> rfl

theorem Draft.linked_add (d : Draft) (node : Node) :
    (d.add node).linked = d.linked.add node := by
  obtain ⟨nodes, blocks⟩ := d
  cases blocks with
  | nil => rfl
  | cons b blocks =>
      simp only [add, linked, Linked.add, List.flatMap_cons, OpenBlock.links_add]
      rfl

/-- Going down the entries of a block comes to its first branch, which then holds the others. -/
theorem OpenBlock.closeChain?_top (b : OpenBlock) (rest : List Link) (endSpan : Nat) :
    ∃ first, b.top.closeChain? (armLinks b.earlier ++ rest) = some (first, rest) ∧
      first.close endSpan = b.close endSpan := by
  have nested (earlier : List Arm) (l : Link) (chained : l.chained = !earlier.isEmpty) :
      ∃ first, l.closeChain? (armLinks earlier ++ rest) = some (first, rest) ∧
        first.close endSpan = nest endSpan l.close earlier := by
    induction earlier generalizing l with
    | nil => cases rest <;> exact ⟨l, by simp_all [armLinks, Link.closeChain?], rfl⟩
    | cons arm earlier ih =>
        let below : Link :=
          ⟨arm.opening, arm.body, some (0, [l.close 0]), !earlier.isEmpty⟩
        obtain ⟨first, found, closed⟩ := ih below rfl
        refine ⟨first, ?_, closed⟩
        simpa [armLinks, Link.closeChain?, chained, Link.add, below] using found
  obtain ⟨first, found, closed⟩ := nested b.earlier b.top rfl
  refine ⟨first, found, ?_⟩
  rw [closed]
  rfl

/-- The innermost entry of an open block that is not chained is that of its first branch. -/
theorem OpenBlock.find?_links (b : OpenBlock) (rest : List Link) :
    ∃ first, (b.links ++ rest).find? (fun l => !l.chained) = some first ∧
      first.opening = b.first := by
  have nested (earlier : List Arm) (l : Link) (chained : l.chained = !earlier.isEmpty) :
      ∃ first, (l :: armLinks earlier ++ rest).find? (fun l => !l.chained) = some first ∧
        first.opening = (earlier.getLast?.map Arm.opening).getD l.opening := by
    induction earlier generalizing l with
    | nil => exact ⟨l, by simp [chained], rfl⟩
    | cons arm earlier ih =>
        obtain ⟨first, found, same⟩ :=
          ih ⟨arm.opening, arm.body, some (0, []), !earlier.isEmpty⟩ rfl
        refine ⟨first, ?_, ?_⟩
        · simpa [armLinks, chained] using found
        · rw [same, List.getLast?_cons]
          cases earlier.getLast? <;> rfl
  exact nested b.earlier b.top rfl

namespace Draft

/-- A directive does to a draft with an entry for each branch what it does to the draft. -/
theorem linked_apply (d : Draft) (site : Site) (directive : Directive) :
    d.linked.apply site directive =
      ((d.apply site directive).map linked).mapError fun fault =>
        .reported ⟨fault, site.line⟩ := by
  have added (d : Draft) (node : Node) : Except.ok (d.linked.add node) =
      ((Except.ok (d.add node)).map linked).mapError fun fault : DirectiveFault =>
        LinkedError.reported ⟨fault, site.line⟩ := by
    rw [← linked_add]
    rfl
  cases directive with
  | branch opener condition =>
      by_cases further : opener = .elseIf
      · subst further
        obtain ⟨nodes, blocks⟩ := d
        cases blocks with
        | nil => rfl
        | cons b blocks =>
            obtain ⟨earlier, opening, body, otherwise⟩ := b
            cases otherwise <;> rfl
      · cases opener <;> first | exact absurd rfl further | rfl
  | otherwise =>
      obtain ⟨nodes, blocks⟩ := d
      cases blocks with
      | nil => rfl
      | cons b blocks =>
          obtain ⟨earlier, opening, body, otherwise⟩ := b
          cases otherwise <;> rfl
  | endif =>
      obtain ⟨nodes, blocks⟩ := d
      cases blocks with
      | nil => rfl
      | cons b blocks =>
          obtain ⟨first, found, closed⟩ :=
            b.closeChain?_top (blocks.flatMap OpenBlock.links) site.span
          have applied : apply ⟨nodes, b :: blocks⟩ site .endif =
            .ok (add ⟨nodes, blocks⟩ (b.close site.span)) := rfl
          rw [applied, ← added, ← closed]
          simp [Linked.apply, Linked.close, linked, OpenBlock.links, found]
  | define name value => exact added d _
  | undef name => exact added d _
  | other name => exact added d _

theorem linked_step (d : Draft) (line : LogicalLine) :
    d.linked.step line = ((d.step line).map linked).mapError .reported := by
  unfold Linked.step step
  by_cases kind : line.isDirective = true
  · rw [if_pos kind, if_pos kind]
    cases read : Directive.ofText? line.text with
    | error fault => rfl
    | ok directive =>
        have applied := d.linked_apply ⟨line.number, line.span⟩ directive
        simp only [applied, Except.bind]
        cases d.apply ⟨line.number, line.span⟩ directive <;> rfl
  · rw [if_neg kind, if_neg kind, ← linked_add]
    rfl

theorem linked_foldlM (d : Draft) (lines : List LogicalLine) :
    lines.foldlM Linked.step d.linked =
      ((lines.foldlM step d).map linked).mapError .reported := by
  induction lines generalizing d with
  | nil => rfl
  | cons line lines ih =>
      rw [List.foldlM_cons, List.foldlM_cons, linked_step]
      cases d.step line with
      | error error => rfl
      | ok next => exact ih next

/-- The innermost entry that is not chained is that of the innermost block's first branch. -/
theorem linked_finish (d : Draft) : d.linked.finish = d.finish.mapError .reported := by
  obtain ⟨nodes, blocks⟩ := d
  cases blocks with
  | nil => rfl
  | cons b blocks =>
      obtain ⟨first, found, same⟩ := b.find?_links (blocks.flatMap OpenBlock.links)
      have links : linked ⟨nodes, b :: blocks⟩ =
          ⟨nodes, b.top :: (armLinks b.earlier ++ blocks.flatMap OpenBlock.links)⟩ := rfl
      have found' : (b.top :: (armLinks b.earlier ++ blocks.flatMap OpenBlock.links)).find?
          (fun l => !l.chained) = some first := found
      simp only [Linked.finish, links, found', same]
      rfl

end Draft

/-- Drafting with an entry for each branch comes to the same outline or error. So no closing
    directive finds only chained entries, and there is a first branch where a text ends inside a
    block. -/
theorem linkedOutlineOf?_eq (text : List Char) :
    linkedOutlineOf? text = (outlineOf? text).mapError .reported := by
  have drafted := Draft.linked_foldlM .empty (logicalLines (Text.lines text))
  have start : Draft.empty.linked = Linked.empty := rfl
  rw [start] at drafted
  unfold linkedOutlineOf? outlineOf? outlineOfLines?
  rw [drafted]
  cases (logicalLines (Text.lines text)).foldlM Draft.step Draft.empty with
  | error error => rfl
  | ok d => exact d.linked_finish

end InterfaceHeader
