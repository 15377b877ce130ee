import InterfaceHeader.Proofs.Grammar.TypeSoundness

/-!
# Finding what is ahead

`Finds r c post w` says that the reader `r` succeeds at the cursor `c` and stops in front of the
terminals `w`; `FailsBefore r c w` says that it fails in front of them. Both are found step by
step, from what is known about the terminals ahead. An alternative of a choice that fails is given
up if the place where it fails is near enough to the place where it started
(`choose_finds_later`).
-/

namespace InterfaceHeader

@[simp] theorem nextKind?_nil : nextKind? [] = none := rfl

@[simp] theorem nextKind?_cons (t : Terminal) (u : List Terminal) :
    nextKind? (t :: u) = some t.kind := rfl

namespace Cursor

theorem length_terminals_le (c : Cursor) : c.terminals.length ≤ c.ahead.length := by
  rw [terminals, InterfaceHeader.terminals, List.length_map]
  exact List.length_filter_le _ _

/-- The next significant token is the next terminal. -/
theorem terminals_eq_cons {c : Cursor} {x : Terminal} {w : List Terminal}
    (ahead : c.terminals = x :: w) :
    ∃ t rest, c.significant = t :: rest ∧ t.terminal = x ∧ InterfaceHeader.terminals rest = w := by
  rw [terminals_eq_significant] at ahead
  cases front : c.significant with
  | nil =>
      rw [front] at ahead
      cases ahead
  | cons t rest =>
      rw [front, terminals_cons_significant (isComment_of_significant front)] at ahead
      cases ahead
      exact ⟨t, rest, rfl, rfl, rfl⟩

theorem next?_kind (c : Cursor) : c.next?.map Token.kind = nextKind? c.terminals := by
  rw [terminals_eq_significant, next?]
  cases front : c.significant with
  | nil => rfl
  | cons t rest =>
      rw [terminals_cons_significant (isComment_of_significant front)]
      rfl

theorem isAt_eq (c : Cursor) (kind : TokenKind) :
    c.isAt kind = decide (nextKind? c.terminals = some kind) := by
  rw [← next?_kind, isAt]
  cases c.next? with
  | none => rfl
  | some t =>
      rw [Option.any_some, Option.map_some, Bool.beq_eq_decide_eq]
      simp

theorem take?_eq_none {c : Cursor} {kind : TokenKind} (absent : nextKind? c.terminals ≠ some kind) :
    c.take? kind = none := by
  rw [← next?_kind, next?] at absent
  unfold take?
  cases front : c.significant with
  | nil => rfl
  | cons t rest =>
      rw [front] at absent
      have different : t.kind ≠ kind := by
        intro same
        exact absent (by simp [same])
      simp [different]

end Cursor

namespace Reader

variable {α β : Type}

/-- The reader succeeds with such a value in front of the terminals `w`, and the tokens it has
    counted are those that are no longer ahead. -/
def Finds (r : Reader α) (c : Cursor) (post : α → Prop) (w : List Terminal) : Prop :=
  ∃ a c', r c = .ok a c' ∧ post a ∧ c'.terminals = w ∧
    c'.consumed + w.length = c.consumed + c.terminals.length

/-- The reader fails in front of the terminals `w`. -/
def FailsBefore (r : Reader α) (c : Cursor) (w : List Terminal) : Prop :=
  ∃ e c', r c = .error e c' ∧ c'.consumed + w.length = c.consumed + c.terminals.length

theorem Finds.mono {r : Reader α} {c : Cursor} {post post' : α → Prop} {w : List Terminal}
    (finds : Finds r c post w) (weaker : ∀ a, post a → post' a) : Finds r c post' w := by
  obtain ⟨a, c', ran, holds, stops, count⟩ := finds
  exact ⟨a, c', ran, weaker a holds, stops, count⟩

theorem Finds.pure {c : Cursor} {a : α} {post : α → Prop} {w : List Terminal} (holds : post a)
    (ahead : c.terminals = w) : Finds (Pure.pure a) c post w :=
  ⟨a, c, rfl, holds, ahead, by rw [ahead]⟩

theorem Finds.bind {x : Reader α} {f : α → Reader β} {c : Cursor} {post : α → Prop}
    {goal : β → Prop} {w w' : List Terminal} (first : Finds x c post w)
    (next : ∀ a c', post a → c'.terminals = w → Finds (f a) c' goal w') :
    Finds (x >>= f) c goal w' := by
  obtain ⟨a, c₁, ran, holds, stops, count⟩ := first
  obtain ⟨b, c₂, ran', holds', stops', count'⟩ := next a c₁ holds stops
  refine ⟨b, c₂, ?_, holds', stops', ?_⟩
  · rw [bind_apply, ran]
    exact ran'
  · rw [count', stops, count]

theorem FailsBefore.bind {x : Reader α} {c : Cursor} {w : List Terminal} (fails : FailsBefore x c w)
    (f : α → Reader β) : FailsBefore (x >>= f) c w := by
  obtain ⟨e, c', ran, count⟩ := fails
  refine ⟨e, c', ?_, count⟩
  rw [bind_apply, ran]

theorem Finds.bind_fails {x : Reader α} {f : α → Reader β} {c : Cursor} {post : α → Prop}
    {w w' : List Terminal} (first : Finds x c post w)
    (next : ∀ a c', post a → c'.terminals = w → FailsBefore (f a) c' w') :
    FailsBefore (x >>= f) c w' := by
  obtain ⟨a, c₁, ran, holds, stops, count⟩ := first
  obtain ⟨e, c₂, ran', count'⟩ := next a c₁ holds stops
  refine ⟨e, c₂, ?_, ?_⟩
  · rw [bind_apply, ran]
    exact ran'
  · rw [count', stops, count]

/-! ## Single tokens -/

theorem get_finds (c : Cursor) : Finds (get : Reader Cursor) c (· = c) c.terminals :=
  ⟨c, c, rfl, rfl, rfl, rfl⟩

theorem isAt_finds (c : Cursor) (kind : TokenKind) :
    Finds (isAt kind) c (· = decide (nextKind? c.terminals = some kind)) c.terminals := by
  refine (get_finds c).bind fun a c' same ahead' => .pure ?_ ahead'
  rw [same, Cursor.isAt_eq]

theorem take?_finds {c : Cursor} {kind : TokenKind} {lexeme : String} {w : List Terminal}
    (ahead : c.terminals = ⟨kind, lexeme⟩ :: w) :
    ∃ t c', c.take? kind = some (t, c') ∧ t.lexeme = lexeme ∧ c'.terminals = w ∧
      c'.consumed + w.length = c.consumed + c.terminals.length := by
  obtain ⟨t, rest, front, same, left⟩ := Cursor.terminals_eq_cons ahead
  cases same
  refine ⟨t, ⟨rest, c.consumed + 1, some t.position⟩, ?_, rfl, left, ?_⟩
  · unfold Cursor.take?
    rw [front]
    exact if_pos rfl
  · rw [ahead, List.length_cons]
    simp only
    omega

theorem expect_finds {c : Cursor} {kind : TokenKind} {lexeme : String} {w : List Terminal}
    (ahead : c.terminals = ⟨kind, lexeme⟩ :: w) :
    Finds (expect kind) c (·.lexeme = lexeme) w := by
  obtain ⟨t, c', taken, spelt, stops, count⟩ := take?_finds ahead
  refine ⟨t, c', ?_, spelt, stops, count⟩
  unfold expect
  rw [taken]

theorem expect_fails {c : Cursor} {kind : TokenKind} (absent : nextKind? c.terminals ≠ some kind) :
    FailsBefore (expect kind) c c.terminals := by
  refine ⟨c.failure [kind.describe], c, ?_, rfl⟩
  unfold expect
  rw [Cursor.take?_eq_none absent]

theorem accept_finds {c : Cursor} {kind : TokenKind} {lexeme : String} {w : List Terminal}
    (ahead : c.terminals = ⟨kind, lexeme⟩ :: w) :
    Finds (accept kind) c (fun a => a.map Token.lexeme = some lexeme) w := by
  obtain ⟨t, c', taken, spelt, stops, count⟩ := take?_finds ahead
  refine ⟨some t, c', ?_, congrArg some spelt, stops, count⟩
  unfold accept
  rw [taken]

theorem accept_finds_none {c : Cursor} {kind : TokenKind}
    (absent : nextKind? c.terminals ≠ some kind) :
    Finds (accept kind) c (· = none) c.terminals := by
  refine ⟨none, c, ?_, rfl, rfl, rfl⟩
  unfold accept
  rw [Cursor.take?_eq_none absent]

/-- An optional token is found where it stands, and missed where another kind of token stands. -/
theorem accept_finds_optional {c : Cursor} {kind : TokenKind} {present : Bool}
    {u w : List Terminal} (optional : OptionalToken kind present u) (ahead : c.terminals = u ++ w)
    (different : nextKind? w ≠ some kind) : Finds (accept kind) c (·.isSome = present) w := by
  cases optional with
  | absent =>
      cases ahead
      exact (accept_finds_none different).mono fun a same => by rw [same]; rfl
  | present lexeme =>
      refine (accept_finds ahead).mono fun a same => ?_
      cases a with
      | none => cases same
      | some t => rfl

theorem accept_finds_name {c : Cursor} {name : Option String} {u w : List Terminal}
    (optional : OptionalName name u) (ahead : c.terminals = u ++ w)
    (different : nextKind? w ≠ some .identifier) :
    Finds (accept .identifier) c (fun a => a.map Token.lexeme = name) w := by
  cases optional with
  | absent =>
      cases ahead
      exact (accept_finds_none different).mono fun a same => by rw [same]; rfl
  | present name => exact accept_finds ahead

theorem identifier_finds {c : Cursor} {name : String} {w : List Terminal}
    (ahead : c.terminals = ⟨.identifier, name⟩ :: w) : Finds identifier c (· = name) w :=
  (expect_finds ahead).bind fun _ _ spelt ahead' => .pure spelt ahead'

theorem punct_finds {c : Cursor} {mark : Punct} {lexeme : String} {w : List Terminal}
    (ahead : c.terminals = ⟨.punct mark, lexeme⟩ :: w) : Finds (punct mark) c (fun _ => True) w :=
  (expect_finds ahead).bind fun _ _ _ ahead' => .pure trivial ahead'

theorem keyword_finds {c : Cursor} {word : Keyword} {lexeme : String} {w : List Terminal}
    (ahead : c.terminals = ⟨.keyword word, lexeme⟩ :: w) :
    Finds (keyword word) c (fun _ => True) w :=
  (expect_finds ahead).bind fun _ _ _ ahead' => .pure trivial ahead'

theorem identifier_fails {c : Cursor} (absent : nextKind? c.terminals ≠ some .identifier) :
    FailsBefore identifier c c.terminals := (expect_fails absent).bind _

theorem punct_fails {c : Cursor} {mark : Punct}
    (absent : nextKind? c.terminals ≠ some (.punct mark)) :
    FailsBefore (punct mark) c c.terminals := (expect_fails absent).bind _

theorem keyword_fails {c : Cursor} {word : Keyword}
    (absent : nextKind? c.terminals ≠ some (.keyword word)) :
    FailsBefore (keyword word) c c.terminals := (expect_fails absent).bind _

theorem integer_finds {c : Cursor} {text : String} {value : Int64} {w : List Terminal}
    (ahead : c.terminals = ⟨.integer, text⟩ :: w)
    (spelt : Decimal.readWord? text.toList = some value) : Finds integer c (· = value) w := by
  refine (expect_finds ahead).bind fun t c' same ahead' => ?_
  rw [same, spelt]
  exact .pure rfl ahead'

theorem comment_finds (c : Cursor) : Finds comment c (fun _ => True) c.terminals := by
  cases found : c.takeComment? with
  | none =>
      refine ⟨none, c, ?_, trivial, rfl, rfl⟩
      unfold comment
      rw [found]
  | some taken =>
      obtain ⟨text, c'⟩ := taken
      have ran : comment c = .ok (some text) c' := by
        unfold comment
        rw [found]
      obtain ⟨p, passes, formed⟩ := comment_reads.ok ran
      have unchanged : c.terminals = c'.terminals := by
        rw [passes.terminals, terminals_of_maybeComment formed, List.nil_append]
      refine ⟨some text, c', ran, trivial, unchanged.symm, ?_⟩
      rw [passes.consumed, terminals_of_maybeComment formed]
      rfl

theorem trailingComment_finds (c : Cursor) :
    Finds trailingComment c (fun _ => True) c.terminals := by
  by_cases trailing : c.hasTrailingComment = true
  · obtain ⟨a, c', ran, found⟩ := comment_finds c
    refine ⟨a, c', ?_, found⟩
    unfold trailingComment
    rw [if_pos trailing]
    exact ran
  · refine ⟨none, c, ?_, trivial, rfl, rfl⟩
    unfold trailingComment
    rw [if_neg trailing]

/-! ## Choices -/

theorem choose_finds_first {r : Reader α} {others : List (Reader α)} {c : Cursor}
    {post : α → Prop} {w : List Terminal} (finds : Finds r c post w) :
    Finds (choose (r :: others)) c post w := by
  obtain ⟨a, c', ran, found⟩ := finds
  refine ⟨a, c', ?_, found⟩
  rw [choose, chooseFrom, ran]

/-- Earlier failures make no difference to a success. -/
theorem chooseFrom_eq_ok {alternatives : List (Reader α)} {start c' : Cursor} {a : α}
    {deepest? : Option SyntaxError} (chosen : chooseFrom start deepest? alternatives = .ok a c')
    (other? : Option SyntaxError) : chooseFrom start other? alternatives = .ok a c' := by
  induction alternatives generalizing deepest? other? with
  | nil => cases chosen
  | cons alternative others ih =>
      rw [chooseFrom] at chosen ⊢
      cases ran : alternative start with
      | ok b stop =>
          rw [ran] at chosen
          exact chosen
      | error e stop =>
          simp only [ran] at chosen ⊢
          split at chosen
          · cases chosen
          · rename_i near
            rw [if_neg near]
            exact ih chosen _

/-- An alternative that fails within the budget is given up for the others. -/
theorem choose_finds_later {r : Reader α} {others : List (Reader α)} {c : Cursor}
    {post : α → Prop} {v w : List Terminal} (fails : FailsBefore r c v)
    (near : c.terminals.length ≤ v.length + lookahead) (finds : Finds (choose others) c post w) :
    Finds (choose (r :: others)) c post w := by
  obtain ⟨e, stop, ran, count⟩ := fails
  obtain ⟨a, c', chosen, found⟩ := finds
  refine ⟨a, c', ?_, found⟩
  have within : ¬ lookahead < stop.consumed - c.consumed := by omega
  rw [choose, chooseFrom, ran]
  simp only [if_neg within]
  exact chooseFrom_eq_ok chosen _

end Reader

end InterfaceHeader
