import InterfaceHeader.Proofs.Choice.Production
import InterfaceHeader.Proofs.Reading.Extension

/-!
# Where a parser stands

A parser keeps one cursor over all that it is asked to read. Whatever it is asked, whether it
succeeds or fails, and at every step inside, the cursor stands at a place among the tokens, no
further back than where the request found it, and what it has counted and remembered are the
significant tokens in front of that place. Behind a success nothing but comments is left.
-/

namespace InterfaceHeader

/-! ## Places among tokens -/

theorem length_terminals (tokens : List Token) :
    (terminals tokens).length = tokens.countP Token.isSignificant := by
  rw [terminals, List.length_map, List.countP_eq_length_filter]

/-- Where there are no terminals, all tokens are comments. -/
theorem isComment_of_terminals_eq_nil {tokens : List Token} (silent : terminals tokens = []) :
    ∀ t ∈ tokens, t.isComment = true := by
  intro t mem
  have insignificant := List.filter_eq_nil_iff.mp (List.map_eq_nil_iff.mp silent) t mem
  simpa [Token.isSignificant] using insignificant

namespace Cursor

/-- The cursor stands behind the first so many tokens. It has counted the significant ones of them
    and remembers where the last of those starts. -/
structure Tracks (tokens : List Token) (position : Nat) (c : Cursor) : Prop where
  position_le : position ≤ tokens.length
  ahead : c.ahead = tokens.drop position
  consumed : c.consumed = (tokens.take position).countP Token.isSignificant
  previous : c.previous =
    ((tokens.take position).filter Token.isSignificant).getLast?.map Token.position

theorem tracks_ofTokens (tokens : List Token) :
    (ofTokens tokens).Tracks (tokens.filter (·.kind != .blank)) 0 :=
  ⟨Nat.zero_le _, rfl, rfl, rfl⟩

/-- Passing over tokens moves the place as far as there are tokens passed. -/
theorem Tracks.of_passes {tokens passed : List Token} {position : Nat} {c d : Cursor}
    (tracks : c.Tracks tokens position) (passes : c.Passes passed d) :
    d.Tracks tokens (position + passed.length) := by
  have dropped : tokens.drop position = passed ++ d.ahead := by
    rw [← tracks.ahead, passes.ahead]
  have taken : tokens.take (position + passed.length) = tokens.take position ++ passed := by
    rw [List.take_add, dropped, List.take_left']
    rfl
  have lengths := congrArg List.length dropped
  rw [List.length_drop, List.length_append] at lengths
  constructor
  · have within := tracks.position_le
    omega
  · rw [← List.drop_drop, dropped, List.drop_left']
    rfl
  · rw [passes.consumed, tracks.consumed, length_terminals, taken, List.countP_append]
  · rw [passes.previous, tracks.previous, taken, List.filter_append, List.getLast?_append,
      Option.map_or]

end Cursor

namespace Reader

/-! ## What is left -/

/-- A header of comments only is those comments. -/
theorem declarations_of_comments {n : Nat} {c : Cursor} (fits : c.ahead.length ≤ n)
    (comments : ∀ t ∈ c.ahead, t.isComment = true) :
    declarations n c =
      .ok (c.ahead.map fun t => .comment t.lexeme) { c with ahead := [] } := by
  induction n generalizing c with
  | zero =>
      obtain ⟨ahead, consumed, previous⟩ := c
      cases List.length_eq_zero_iff.mp (Nat.le_zero.mp fits)
      rfl
  | succ n ih =>
      obtain ⟨ahead, consumed, previous⟩ := c
      cases ahead with
      | nil => exact declarations_of_nil rfl _
      | cons t rest =>
          obtain ⟨isComment, restComments⟩ := List.forall_mem_cons.mp comments
          have others :=
            ih (c := ⟨rest, consumed, previous⟩) (Nat.le_of_succ_le_succ fits) restComments
          rw [declarations_of_comment rfl isComment, bind_apply, others]
          rfl

theorem header_of_comments {c : Cursor} (comments : ∀ t ∈ c.ahead, t.isComment = true) :
    header c = .ok ⟨c.ahead.map fun t => .comment t.lexeme⟩ { c with ahead := [] } := by
  have looked : (get : Reader Cursor) c = .ok c c := rfl
  rw [header, bind_apply, looked]
  dsimp only
  rw [bind_apply, declarations_of_comments (Nat.le_refl _) comments]
  rfl

/-- A header goes to the end of the tokens, over the comments there as well. -/
theorem header_ahead {c d : Cursor} {h : Header} (ran : header c = .ok h d) : d.ahead = [] := by
  obtain ⟨c₀, c₁, looked, ran⟩ := bind_eq_ok.mp ran
  cases looked
  obtain ⟨ds, c₂, declarationsRan, ran⟩ := bind_eq_ok.mp ran
  cases ran
  have rounds : c.ahead.length + ([] : List Token).length ≤ c.ahead.length := Nat.le_refl _
  exact (declarations_followedBy (Nat.le_refl _) rounds declarationsRan).1

end Reader

/-! ## A parser and its requests -/

/-- What a parser may be asked to read next. -/
inductive Request
  | header
  | type

namespace Request

/-- What is read on request. -/
def Answer : Request → Type
  | header => Header
  | type => CType

/-- The reader that a request runs. -/
def reader : (request : Request) → Reader request.Answer
  | header => Reader.header
  | type => Reader.wholeType

/-- The cursor that the parser has behind a request, answered or refused. -/
def behind (c : Cursor) (request : Request) : Cursor :=
  Reader.stop (request.reader c)

/-- The cursor of a parser of tokens that has been asked for one thing after the other. -/
def session (tokens : List Token) (requests : List Request) : Cursor :=
  requests.foldl behind (.ofTokens tokens)

theorem production (request : Request) : Reader.Production request.reader := by
  cases request with
  | header => exact .header
  | type => exact .wholeType

/-- Behind an answer only comments are left, and behind a header not even those. -/
theorem left_of_ok {request : Request} {c d : Cursor} {answer : request.Answer}
    (ran : request.reader c = .ok answer d) :
    (∀ t ∈ d.ahead, t.isComment = true) ∧ (request = header → d.ahead = []) := by
  cases request with
  | header =>
      have ended := Reader.header_ahead ran
      refine ⟨?_, fun _ => ended⟩
      rw [ended]
      exact List.forall_mem_nil _
  | type => exact ⟨isComment_of_terminals_eq_nil (Reader.wholeType_reads_all ran), nofun⟩

/-- One request moves the parser ahead. -/
theorem tracks_behind {tokens : List Token} {position : Nat} {c : Cursor}
    (tracks : c.Tracks tokens position) (request : Request) :
    ∃ position', position ≤ position' ∧ (behind c request).Tracks tokens position' := by
  obtain ⟨passed, passes⟩ := request.production.passes c
  exact ⟨_, Nat.le_add_right _ _, tracks.of_passes passes⟩

/-- So does every reader that comes to be run on a request. -/
theorem tracks_calls {tokens : List Token} {position : Nat} {c : Cursor}
    (tracks : c.Tracks tokens position) {request : Request} {α : Type} {r : Reader α} {d : Cursor}
    (calls : Reader.Calls r d request.reader c) :
    ∃ start stop, position ≤ start ∧ start ≤ stop ∧ d.Tracks tokens start ∧
      (Reader.stop (r d)).Tracks tokens stop := by
  obtain ⟨before, passedBefore⟩ := calls.passes
  obtain ⟨passed, passes⟩ := calls.production.passes d
  have tracksStart := tracks.of_passes passedBefore
  exact ⟨_, _, Nat.le_add_right _ _, Nat.le_add_right _ _, tracksStart,
    tracksStart.of_passes passes⟩

theorem tracks_foldl {tokens : List Token} {position : Nat} {c : Cursor}
    (tracks : c.Tracks tokens position) (requests : List Request) :
    ∃ position', position ≤ position' ∧ (requests.foldl behind c).Tracks tokens position' := by
  induction requests generalizing position c with
  | nil => exact ⟨position, Nat.le_refl _, tracks⟩
  | cons request requests ih =>
      obtain ⟨next, least, tracksNext⟩ := tracks_behind tracks request
      obtain ⟨last, later, tracksLast⟩ := ih tracksNext
      exact ⟨last, Nat.le_trans least later, tracksLast⟩

/-- Whatever a parser has been asked before, it stands at a place among its tokens. From there a
    request moves it ahead only, as does every reader that the request comes to run, each from one
    place among the tokens to another. Where the request is answered, asking for a header next
    gives the comments that are left, of which there are none if it was a header. And no
    alternative of a choice between productions ends at a smaller count than the choice starts
    from, so what a choice compares with its budget is the difference of the two. -/
theorem parser_tracks (tokens : List Token) (requests : List Request) :
    (∃ position,
      (session tokens requests).Tracks (tokens.filter (·.kind != .blank)) position ∧
      ∀ request : Request,
        (∃ position', position ≤ position' ∧
          (behind (session tokens requests) request).Tracks
            (tokens.filter (·.kind != .blank)) position') ∧
        (∀ {α : Type} (r : Reader α) (d : Cursor),
          Reader.Calls r d request.reader (session tokens requests) →
            ∃ start stop, position ≤ start ∧ start ≤ stop ∧
              d.Tracks (tokens.filter (·.kind != .blank)) start ∧
              (Reader.stop (r d)).Tracks (tokens.filter (·.kind != .blank)) stop) ∧
        ∀ (answer : request.Answer) (d : Cursor),
          request.reader (session tokens requests) = .ok answer d →
            (∀ t ∈ d.ahead, t.isComment = true) ∧ (request = header → d.ahead = []) ∧
              Reader.header d =
                .ok ⟨d.ahead.map fun t => .comment t.lexeme⟩ { d with ahead := [] }) ∧
    ∀ {α : Type} (alternatives : List (Reader α)),
      (∀ r ∈ alternatives, Reader.Production r) → ∀ (start : Cursor), ∀ r ∈ alternatives,
        start.consumed + ((Reader.stop (r start)).consumed - start.consumed) =
          (Reader.stop (r start)).consumed := by
  refine ⟨?_, fun alternatives productions start r mem => ?_⟩
  · obtain ⟨position, -, tracks⟩ := tracks_foldl (Cursor.tracks_ofTokens tokens) requests
    refine ⟨position, tracks, fun request => ⟨tracks_behind tracks request, ?_, ?_⟩⟩
    · intro α r d calls
      exact tracks_calls tracks calls
    · intro answer d ran
      obtain ⟨comments, headerEnds⟩ := left_of_ok ran
      exact ⟨comments, headerEnds, Reader.header_of_comments comments⟩
  · exact Nat.add_sub_cancel' ((productions r mem).consumed_le start)

end Request

end InterfaceHeader
