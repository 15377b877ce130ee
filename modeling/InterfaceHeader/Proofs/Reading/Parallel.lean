import InterfaceHeader.Proofs.Grammar.Reads
import Mathlib.Data.List.Forall2

/-!
# Two readings side by side

A reader that runs at two cursors does the same at both where the cursors correspond: where the
significant tokens ahead are alike one by one, and where the two agree about the comments that a
reader may take. What that means in detail is left open: `Correspondence` lists the laws that a
relation between cursors has to obey, and `Parallel` says that two readers, started at such
cursors, end alike. The rules below are those of a relational logic, one for each combinator.

Whether a comment trails the token before it is asked only directly behind a significant token.
That is why there are two relations, `Meets` and the stronger `Behind`.
-/

namespace InterfaceHeader

variable {α β : Type}

namespace Reader

/-- How a choice is settled: an alternative succeeds, or fails too far on to be given up, or all of
    them are given up. -/
inductive Settled where
  | chosen (index : Nat)
  | committed (index : Nat)
  | givenUp
deriving DecidableEq

/-- How a choice at `start` is settled by alternatives numbered from `index` on. -/
def settleFrom (start : Cursor) (index : Nat) : List (Reader α) → Settled
  | [] => .givenUp
  | alternative :: others =>
    match alternative start with
    | .ok _ _ => .chosen index
    | .error _ stop =>
      if lookahead < stop.consumed - start.consumed then .committed index
      else settleFrom start (index + 1) others

/-- How the choice between alternatives is settled. -/
def settle (alternatives : List (Reader α)) (start : Cursor) : Settled :=
  settleFrom start 0 alternatives

/-- Keeps a comment that has been taken already; otherwise takes one that trails. -/
def orTrailing (comment? : Option String) : Reader (Option String) :=
  if comment?.isSome then pure comment? else trailingComment

end Reader

/-- The tokens differ at most in where they stand, and the places are related. -/
structure Token.Alike (Place : Position → Position → Prop) (t t' : Token) : Prop where
  kind : t.kind = t'.kind
  lexeme : t.lexeme = t'.lexeme
  place : Place t.position t'.position

/-- The errors differ at most in where they stand, and the places are related. -/
structure SyntaxError.Alike (Place : Position → Position → Prop) (e e' : SyntaxError) : Prop where
  position : Option.Rel Place e.position e'.position
  found : e.found = e'.found
  expected : e.expected = e'.expected

namespace Token.Alike

variable {Place : Position → Position → Prop} {t t' : Token}

theorem describe_eq (alike : t.Alike Place t') : t.describe = t'.describe := by
  unfold Token.describe
  rw [alike.kind, alike.lexeme]

theorem isComment_eq (alike : t.Alike Place t') : t.isComment = t'.isComment := by
  unfold Token.isComment
  rw [alike.kind]

theorem isSome_eq {a a' : Option Token} (related : Option.Rel (Token.Alike Place) a a') :
    a.isSome = a'.isSome := by
  cases related <;> rfl

theorem lexeme_eq {a a' : Option Token} (related : Option.Rel (Token.Alike Place) a a') :
    a.map Token.lexeme = a'.map Token.lexeme := by
  cases related with
  | none => rfl
  | some alike => exact congrArg some alike.lexeme

end Token.Alike

/-- When two cursors count as being at the same point of the same reading. -/
structure Correspondence where
  Meets : Cursor → Cursor → Prop
  /-- The cursors meet, and directly behind both is a significant token. -/
  Behind : Cursor → Cursor → Prop
  /-- How the places of corresponding tokens are related. -/
  Place : Position → Position → Prop
  /-- What counts of a comment that has been taken. -/
  shown : Option String → Option String
  /-- How many significant tokens there are in all. -/
  total : Nat
  /-- How many significant tokens the first reading has counted before the second one started. -/
  lead : Nat
  meets_of_behind {c c' : Cursor} : Behind c c' → Meets c c'
  consumed_eq {c c' : Cursor} : Meets c c' → c.consumed = c'.consumed + lead
  count {c c' : Cursor} : Meets c c' →
    c.consumed + c.terminals.length = total ∧ c'.terminals.length = c.terminals.length
  significant {c c' : Cursor} : Meets c c' →
    (c.significant = [] ∧ c'.significant = []) ∨
      ∃ t rest t' rest', c.significant = t :: rest ∧ c'.significant = t' :: rest' ∧
        t.Alike Place t' ∧
        Behind ⟨rest, c.consumed + 1, some t.position⟩ ⟨rest', c'.consumed + 1, some t'.position⟩
  comment {c c' : Cursor} : Meets c c' →
    ∃ a d a' d', Reader.comment c = .ok a d ∧ Reader.comment c' = .ok a' d' ∧
      shown a = shown a' ∧ Meets d d' ∧ d.consumed = c.consumed
  orTrailing {c c' : Cursor} {a a' : Option String} : Behind c c' → shown a = shown a' →
    ∃ b d b' d', Reader.orTrailing a c = .ok b d ∧ Reader.orTrailing a' c' = .ok b' d' ∧
      shown b = shown b' ∧ Meets d d' ∧ d.consumed = c.consumed
  depth_lt {e e' f f' : SyntaxError} : e.Alike Place e' → f.Alike Place f' →
    (e.depth < f.depth ↔ e'.depth < f'.depth)
  place_eq {p p' q q' : Position} : Place p p' → Place q q' → (p = q ↔ p' = q')

namespace Correspondence

open Reader

variable (K : Correspondence)

/-- Corresponding cursors with at least so many significant tokens behind them; `fresh` if the
    last one is directly behind. -/
structure At (fresh : Bool) (n : Nat) (c c' : Cursor) : Prop where
  meets : K.Meets c c'
  behind : fresh = true → K.Behind c c'
  le_consumed : n ≤ c.consumed

/-- Both runs succeed with related values at related cursors, or both fail with errors that are
    alike. -/
inductive Outcomes (value : α → α → Prop) (post : Cursor → Cursor → Prop) :
    EStateM.Result SyntaxError Cursor α → EStateM.Result SyntaxError Cursor α → Prop
  | ok {a a' : α} {c c' : Cursor} :
      value a a' → post c c' → Outcomes value post (.ok a c) (.ok a' c')
  | error {e e' : SyntaxError} {c c' : Cursor} :
      e.Alike K.Place e' → K.Meets c c' → Outcomes value post (.error e c) (.error e' c')

/-- From related cursors the two readers have related outcomes. -/
def Parallel (pre : Cursor → Cursor → Prop) (r r' : Reader α) (value : α → α → Prop)
    (post : Cursor → Cursor → Prop) : Prop :=
  ∀ ⦃c c' : Cursor⦄, pre c c' → K.Outcomes value post (r c) (r' c')

variable {K} {fresh : Bool} {n : Nat} {c c' : Cursor}
variable {pre pre' mid post post' : Cursor → Cursor → Prop} {value : α → α → Prop}

theorem At.of_behind (behind : K.Behind c c') (least : n ≤ c.consumed) : K.At fresh n c c' :=
  ⟨K.meets_of_behind behind, fun _ => behind, least⟩

theorem At.stale (aligned : K.At fresh n c c') {m : Nat} (atMost : m ≤ n) : K.At false m c c' :=
  ⟨aligned.meets, fun never => (by cases never), Nat.le_trans atMost aligned.le_consumed⟩

theorem At.lower (aligned : K.At fresh n c c') {m : Nat} (atMost : m ≤ n) : K.At fresh m c c' :=
  ⟨aligned.meets, aligned.behind, Nat.le_trans atMost aligned.le_consumed⟩

/-! ## Errors -/

theorem failure_alike (meets : K.Meets c c') (expected : List String) :
    (c.failure expected).Alike K.Place (c'.failure expected) := by
  unfold Cursor.failure Cursor.next?
  rcases K.significant meets with ⟨front, front'⟩ | ⟨t, rest, t', rest', front, front', alike, -⟩
  · rw [front, front']
    exact ⟨.none, rfl, rfl⟩
  · rw [front, front']
    exact ⟨.some alike.place, alike.describe_eq, rfl⟩

variable {e e' f f' : SyntaxError}

theorem expecting_alike (alike : e.Alike K.Place e') (expected : List String) :
    (e.expecting expected).Alike K.Place (e'.expecting expected) := by
  refine ⟨alike.position, alike.found, ?_⟩
  unfold SyntaxError.expecting
  rw [alike.expected]

theorem depth_eq_iff (alike : e.Alike K.Place e') (alike' : f.Alike K.Place f') :
    e.depth = f.depth ↔ e'.depth = f'.depth := by
  have below := K.depth_lt alike alike'
  have above := K.depth_lt alike' alike
  omega

theorem deepest_alike (alike : e.Alike K.Place e') (alike' : f.Alike K.Place f') :
    (e.deepest f).Alike K.Place (e'.deepest f') := by
  unfold SyntaxError.deepest
  simp only [K.depth_lt alike alike', depth_eq_iff alike alike']
  split
  · exact alike'
  · split
    · unfold SyntaxError.merge
      rw [alike'.expected]
      exact expecting_alike alike f'.expected
    · exact alike

theorem position_eq_iff (alike : e.Alike K.Place e') {p p' : Position} (placed : K.Place p p') :
    e.position = some p ↔ e'.position = some p' := by
  have places := alike.position
  generalize e.position = q, e'.position = q' at places ⊢
  cases places with
  | none => simp
  | some placed' =>
      rw [Option.some_inj, Option.some_inj]
      exact K.place_eq placed' placed

/-! ## Combinators -/

namespace Outcomes

variable {x x' : EStateM.Result SyntaxError Cursor α}

theorem weaken (outcomes : K.Outcomes value post x x') (weaker : ∀ c c', post c c' → post' c c') :
    K.Outcomes value post' x x' := by
  cases outcomes with
  | ok related stops => exact .ok related (weaker _ _ stops)
  | error alike stops => exact .error alike stops

/-- What is known about the cursors that the runs stop at may be added. -/
theorem strengthen {stops stops' : Cursor → Prop} (outcomes : K.Outcomes value post x x')
    (left : ∀ a d, x = .ok a d → stops d) (right : ∀ a d, x' = .ok a d → stops' d) :
    K.Outcomes value (fun d d' => post d d' ∧ stops d ∧ stops' d') x x' := by
  cases outcomes with
  | ok related holds => exact .ok related ⟨holds, left _ _ rfl, right _ _ rfl⟩
  | error alike holds => exact .error alike holds

theorem bind {r r' : Reader β} {f f' : β → Reader α} {middle : β → β → Prop}
    (outcomes : K.Outcomes middle mid (r c) (r' c'))
    (next : ∀ b b' d d', middle b b' → mid d d' → K.Outcomes value post (f b d) (f' b' d')) :
    K.Outcomes value post ((r >>= f) c) ((r' >>= f') c') := by
  rw [bind_apply, bind_apply]
  generalize r c = result, r' c' = result' at outcomes ⊢
  cases outcomes with
  | ok related stops => exact next _ _ _ _ related stops
  | error alike meets => exact .error alike meets

end Outcomes

namespace Parallel

theorem weaken {r r' : Reader α} (parallel : K.Parallel pre r r' value post)
    (weaker : ∀ c c', post c c' → post' c c') : K.Parallel pre r r' value post' :=
  fun _ _ starts => (parallel starts).weaken weaker

theorem restrict {r r' : Reader α} (parallel : K.Parallel pre r r' value post)
    (stronger : ∀ c c', pre' c c' → pre c c') : K.Parallel pre' r r' value post :=
  fun _ _ starts => parallel (stronger _ _ starts)

theorem pure {a a' : α} (related : value a a') (weaker : ∀ c c', pre c c' → post c c') :
    K.Parallel pre (Pure.pure a) (Pure.pure a') value post :=
  fun _ _ starts => .ok related (weaker _ _ starts)

theorem bind {x x' : Reader β} {f f' : β → Reader α} {middle : β → β → Prop}
    (first : K.Parallel pre x x' middle mid)
    (next : ∀ b b', middle b b' → K.Parallel mid (f b) (f' b') value post) :
    K.Parallel pre (x >>= f) (x' >>= f') value post :=
  fun _ _ starts => (first starts).bind fun b b' _ _ related stops => next b b' related stops

/-- What a reader finds is turned into something else on both sides. -/
theorem map {x x' : Reader β} {f f' : β → α} {middle : β → β → Prop}
    (parallel : K.Parallel pre x x' middle post)
    (mapped : ∀ b b', middle b b' → value (f b) (f' b')) :
    K.Parallel pre (do return f (← x)) (do return f' (← x')) value post :=
  parallel.bind fun b b' related => .pure (mapped b b' related) fun _ _ stops => stops

/-- The readers look at the cursors they are at. From then on all tokens behind these count. -/
theorem get_bind {f f' : Cursor → Reader α}
    (parallel : ∀ c c', K.At fresh n c c' →
      K.Parallel (K.At fresh c.consumed) (f c) (f' c') value post) :
    K.Parallel (K.At fresh n) (get >>= f) (get >>= f') value post :=
  fun c c' aligned => parallel c c' aligned ⟨aligned.meets, aligned.behind, Nat.le_refl _⟩

theorem fail (expected : List String) :
    K.Parallel (K.At fresh n) (Reader.fail expected) (Reader.fail expected) value post :=
  fun _ _ aligned => .error (failure_alike aligned.meets expected) aligned.meets

end Parallel

/-! ## Single tokens -/

theorem take?_parallel (aligned : K.At fresh n c c') (kind : TokenKind) :
    (c.take? kind = none ∧ c'.take? kind = none) ∨
      ∃ t d t' d', c.take? kind = some (t, d) ∧ c'.take? kind = some (t', d') ∧
        t.Alike K.Place t' ∧ K.At true (n + 1) d d' := by
  unfold Cursor.take?
  rcases K.significant aligned.meets with
    ⟨front, front'⟩ | ⟨t, rest, t', rest', front, front', alike, behind⟩
  · rw [front, front']
    exact Or.inl ⟨rfl, rfl⟩
  · rw [front, front']
    simp only [← alike.kind]
    split
    · exact Or.inr ⟨t, _, t', _, rfl, rfl, alike, .of_behind behind
        (Nat.succ_le_succ aligned.le_consumed)⟩
    · exact Or.inl ⟨rfl, rfl⟩

theorem isAt_eq (meets : K.Meets c c') (kind : TokenKind) : c.isAt kind = c'.isAt kind := by
  unfold Cursor.isAt Cursor.next?
  rcases K.significant meets with ⟨front, front'⟩ | ⟨t, rest, t', rest', front, front', alike, -⟩
  · rw [front, front']
  · rw [front, front', List.head?_cons, List.head?_cons, Option.any_some, Option.any_some,
      alike.kind]

theorem next?_isSome_eq (meets : K.Meets c c') : c.next?.isSome = c'.next?.isSome := by
  unfold Cursor.next?
  rcases K.significant meets with ⟨front, front'⟩ | ⟨t, rest, t', rest', front, front', -, -⟩
  · rw [front, front']
  · rw [front, front']
    rfl

theorem expect_parallel (kind : TokenKind) :
    K.Parallel (K.At fresh n) (expect kind) (expect kind) (Token.Alike K.Place)
      (K.At true (n + 1)) := by
  intro c c' aligned
  unfold expect
  rcases take?_parallel aligned kind with
    ⟨missed, missed'⟩ | ⟨t, d, t', d', taken, taken', alike, aligned'⟩
  · rw [missed, missed']
    exact .error (failure_alike aligned.meets _) aligned.meets
  · rw [taken, taken']
    exact .ok alike aligned'

/-- After an optional token the readers go on from behind it, or from where they were. -/
theorem accept_bind_parallel {kind : TokenKind} {f f' : Option Token → Reader α}
    (found : ∀ t t', t.Alike K.Place t' →
      K.Parallel (K.At true (n + 1)) (f (some t)) (f' (some t')) value post)
    (missing : K.Parallel (K.At fresh n) (f none) (f' none) value post) :
    K.Parallel (K.At fresh n) (accept kind >>= f) (accept kind >>= f') value post := by
  intro c c' aligned
  rw [bind_apply, bind_apply]
  unfold accept
  rcases take?_parallel aligned kind with
    ⟨missed, missed'⟩ | ⟨t, d, t', d', taken, taken', alike, aligned'⟩
  · rw [missed, missed']
    exact missing aligned
  · rw [taken, taken']
    exact found t t' alike aligned'

theorem accept_parallel (kind : TokenKind) :
    K.Parallel (K.At fresh n) (accept kind) (accept kind) (Option.Rel (Token.Alike K.Place))
      (K.At fresh n) := by
  intro c c' aligned
  unfold accept
  rcases take?_parallel aligned kind with
    ⟨missed, missed'⟩ | ⟨t, d, t', d', taken, taken', alike, aligned'⟩
  · rw [missed, missed']
    exact .ok .none aligned
  · rw [taken, taken']
    exact .ok (.some alike)
      (.of_behind (aligned'.behind rfl) (Nat.le_of_succ_le aligned'.le_consumed))

theorem isAt_parallel (kind : TokenKind) :
    K.Parallel (K.At fresh n) (isAt kind) (isAt kind) (· = ·) (K.At fresh n) :=
  .get_bind fun _ _ aligned =>
    .pure (isAt_eq aligned.meets kind) fun _ _ aligned' => aligned'.lower aligned.le_consumed

theorem identifier_parallel :
    K.Parallel (K.At fresh n) identifier identifier (· = ·) (K.At true (n + 1)) :=
  (expect_parallel .identifier).map fun _ _ alike => alike.lexeme

theorem punct_parallel (mark : Punct) :
    K.Parallel (K.At fresh n) (punct mark) (punct mark) (· = ·) (K.At true (n + 1)) :=
  (expect_parallel (.punct mark)).map fun _ _ _ => rfl

theorem keyword_parallel (word : Keyword) :
    K.Parallel (K.At fresh n) (keyword word) (keyword word) (· = ·) (K.At true (n + 1)) :=
  (expect_parallel (.keyword word)).map fun _ _ _ => rfl

theorem integer_parallel :
    K.Parallel (K.At fresh n) integer integer (· = ·) (K.At true (n + 1)) := by
  refine (expect_parallel .integer).bind fun t t' alike => ?_
  rw [← alike.lexeme]
  cases Decimal.readWord? t.lexeme.toList with
  | some word => exact .pure rfl fun _ _ aligned => aligned
  | none =>
      intro c c' aligned
      exact .error ⟨.some alike.place, alike.describe_eq, rfl⟩ aligned.meets

/-! ## Comments -/

theorem comment_parallel :
    K.Parallel (K.At fresh n) Reader.comment Reader.comment (fun a a' => K.shown a = K.shown a')
      (K.At false n) := by
  intro c c' aligned
  obtain ⟨a, d, a', d', ran, ran', shown, meets, count⟩ := K.comment aligned.meets
  rw [ran, ran']
  exact .ok shown ⟨meets, fun never => (by cases never), count ▸ aligned.le_consumed⟩

theorem orTrailing_parallel {a a' : Option String} (shown : K.shown a = K.shown a') :
    K.Parallel (K.At true n) (Reader.orTrailing a) (Reader.orTrailing a')
      (fun b b' => K.shown b = K.shown b') (K.At false n) := by
  intro c c' aligned
  obtain ⟨b, d, b', d', ran, ran', shown', meets, count⟩ := K.orTrailing (aligned.behind rfl) shown
  rw [ran, ran']
  exact .ok shown' ⟨meets, fun never => (by cases never), count ▸ aligned.le_consumed⟩

theorem trailingComment_parallel :
    K.Parallel (K.At true n) trailingComment trailingComment
      (fun a a' => K.shown a = K.shown a') (K.At false n) :=
  orTrailing_parallel (rfl : K.shown none = K.shown none)

/-! ## Choices -/

/-- A reading that has come as far as the other is over the budget of a choice just if that is. -/
theorem budget_iff {d d' : Cursor} (meets : K.Meets c c') (meets' : K.Meets d d') :
    lookahead < d.consumed - c.consumed ↔ lookahead < d'.consumed - c'.consumed := by
  have counted := K.consumed_eq meets
  have counted' := K.consumed_eq meets'
  omega

/-- Alternatives that run in parallel make a choice that does. -/
theorem choose_parallel {alternatives alternatives' : List (Reader α)}
    (parallel : List.Forall₂ (fun r r' => K.Parallel (K.At false n) r r' value post)
      alternatives alternatives') :
    K.Parallel (K.At fresh n) (choose alternatives) (choose alternatives') value post := by
  intro c c' aligned
  have started := aligned.stale (Nat.le_refl n)
  -- the deepest error so far is no part of the induction on the alternatives but its parameter
  have tried : ∀ best best' : Option SyntaxError,
      Option.Rel (SyntaxError.Alike K.Place) best best' →
      K.Outcomes value post (chooseFrom c best alternatives)
        (chooseFrom c' best' alternatives') := by
    induction parallel with
    | nil =>
        intro best best' bestAlike
        rw [chooseFrom, chooseFrom]
        cases bestAlike with
        | none => exact .error (failure_alike aligned.meets []) aligned.meets
        | some alike => exact .error alike aligned.meets
    | @cons r r' _ _ first _ ih =>
        intro best best' bestAlike
        have outcomes := first started
        rw [chooseFrom, chooseFrom]
        generalize r c = result, r' c' = result' at outcomes ⊢
        cases outcomes with
        | ok related stops => exact .ok related stops
        | error alike stops =>
            simp only [budget_iff aligned.meets stops]
            split
            · exact .error alike stops
            · refine ih _ _ ?_
              cases bestAlike with
              | none => exact .some alike
              | some bestAlike => exact .some (deepest_alike bestAlike alike)
  exact tried none none .none

/-- Alternatives that run in parallel settle their choice in the same way. -/
theorem settle_eq {alternatives alternatives' : List (Reader α)}
    (parallel : List.Forall₂ (fun r r' => K.Parallel (K.At false n) r r' value post)
      alternatives alternatives') (aligned : K.At false n c c') :
    settle alternatives c = settle alternatives' c' := by
  have settled : ∀ index, settleFrom c index alternatives = settleFrom c' index alternatives' := by
    induction parallel with
    | nil =>
        intro index
        rw [settleFrom, settleFrom]
    | @cons r r' _ _ first _ ih =>
        intro index
        have outcomes := first aligned
        rw [settleFrom, settleFrom]
        generalize r c = result, r' c' = result' at outcomes ⊢
        cases outcomes with
        | ok _ _ => rfl
        | error _ stops =>
            simp only [budget_iff aligned.meets stops]
            split
            · rfl
            · exact ih (index + 1)
  exact settled 0

end Correspondence

end InterfaceHeader
