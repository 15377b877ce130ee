import InterfaceHeader.Declaration.Reader
import InterfaceHeader.Proofs.Grammar.Reads

/-!
# Truthful errors

A syntax error is truthful for a language if it stands at a significant token and describes it, or
at the end of the input, if the terminals in front of that place begin a sentence, and if they
still do with any terminal behind them that the error expects. `Truthful r L` says that `r` fails
with truthful errors only, where the sentences of `L` are those that may still be ahead.

The combinators keep `Truthful`. In a sequence of readers the language of the second one is what
may follow the tokens that the first one has passed. In a choice the errors of several alternatives
are merged, which are at the same depth. No two tokens start at the same offset, so they are at the
same place, and what one of them expects there the other one may as well.
-/

namespace InterfaceHeader

/-! ## Sentences and what they begin with -/

/-- Some sentence of the language begins with the terminals. -/
def Begins (L : List Terminal → Prop) (u : List Terminal) : Prop :=
  ∃ w, L (u ++ w)

/-- What may follow the terminals `u` in the language. -/
def Behind (L : List Terminal → Prop) (u : List Terminal) : List Terminal → Prop :=
  fun v => L (u ++ v)

/-- What an error expects behind the terminals `u`: with any terminal of that description there, if
    it is not an integer out of range, some sentence of the language begins with them. -/
inductive Expects (L : List Terminal → Prop) (u : List Terminal) : String → Prop where
  | token {kind : TokenKind} :
      (∀ lexeme : String, (kind = .integer → (Decimal.readWord? lexeme.toList).isSome) →
        Begins L (u ++ [⟨kind, lexeme⟩])) →
      Expects L u kind.describe
  | word :
      (∀ lexeme : String, (Decimal.readWord? lexeme.toList).isSome →
        Begins L (u ++ [⟨.integer, lexeme⟩])) →
      Expects L u "64-bit integer"
  /-- A comment is no terminal. -/
  | comment : Begins L u → Expects L u TokenKind.comment.describe
  | ending : L u → Expects L u "end of input"

section

variable {L : List Terminal → Prop} {u v : List Terminal} {x : String}

theorem Begins.of_sentence (sentence : L u) : Begins L u :=
  ⟨[], by rwa [List.append_nil]⟩

theorem Begins.of_append (begins : Begins L (u ++ v)) : Begins L u := by
  obtain ⟨w, sentence⟩ := begins
  exact ⟨v ++ w, by rwa [← List.append_assoc]⟩

theorem Begins.of_isPrefix (begins : Begins L v) (front : u <+: v) : Begins L u := by
  obtain ⟨w, rfl⟩ := front
  exact begins.of_append

theorem begins_behind : Begins (Behind L u) v ↔ Begins L (u ++ v) := by
  simp only [Begins, Behind, List.append_assoc]

theorem behind_behind : Behind (Behind L u) v = Behind L (u ++ v) := by
  funext w
  rw [Behind, Behind, Behind, List.append_assoc]

theorem Expects.of_behind (expects : Expects (Behind L u) v x) : Expects L (u ++ v) x := by
  cases expects with
  | token any =>
      refine .token fun lexeme spelt => ?_
      rw [List.append_assoc]
      exact begins_behind.mp (any lexeme spelt)
  | word any =>
      refine .word fun lexeme spelt => ?_
      rw [List.append_assoc]
      exact begins_behind.mp (any lexeme spelt)
  | comment begins => exact .comment (begins_behind.mp begins)
  | ending sentence => exact .ending sentence

/-- Where something is expected, some sentence begins with what stands in front. -/
theorem Expects.begins (expects : Expects L u x) : Begins L u := by
  have zero : (Decimal.readWord? "0".toList).isSome := by decide +kernel
  cases expects with
  | token any => exact (any "0" fun _ => zero).of_append
  | word any => exact (any "0" zero).of_append
  | comment begins => exact begins
  | ending sentence => exact .of_sentence sentence

end

/-! ## Places -/

/-- The tokens start one behind the other, and none as deep as the end of the input. -/
structure Spaced (tokens : List Token) : Prop where
  increasing : tokens.Pairwise fun t s => t.position.offset < s.position.offset
  bounded : ∀ t ∈ tokens, t.position.offset < SyntaxError.endDepth

theorem Spaced.of_append {p q : List Token} (spaced : Spaced (p ++ q)) : Spaced q :=
  ⟨(List.pairwise_append.mp spaced.increasing).2.1,
    fun t mem => spaced.bounded t (List.mem_append_right p mem)⟩

/-- A token is found by the offset where it starts. -/
theorem Spaced.split_unique {p q x y : List Token} {t s : Token} (spaced : Spaced (p ++ t :: x))
    (same : p ++ t :: x = q ++ s :: y) (sameOffset : t.position.offset = s.position.offset) :
    p = q := by
  -- a token behind another one starts at a larger offset
  have later {front back : List Token} {t s : Token} (mem : s ∈ front ++ s :: back)
      (spaced : Spaced (t :: (front ++ s :: back))) : t.position.offset < s.position.offset :=
    List.rel_of_pairwise_cons spaced.increasing mem
  induction p generalizing q with
  | nil =>
      cases q with
      | nil => rfl
      | cons _ q =>
          cases same
          exact absurd sameOffset (Nat.ne_of_lt (later (by simp) spaced))
  | cons r p ih =>
      cases q with
      | nil =>
          cases same
          exact absurd sameOffset.symm (Nat.ne_of_lt (later (by simp) spaced))
      | cons r' q =>
          obtain ⟨rfl, sameRest⟩ := List.cons.inj same
          rw [ih (Spaced.of_append (p := [r]) spaced) sameRest]

namespace SyntaxError

/-- The error stands at the significant token directly behind the tokens `before` and describes it,
    or at the end of the input, where `before` are all tokens. -/
inductive StandsBehind (e : SyntaxError) (before : List Token) : List Token → Prop where
  | token {t : Token} {after : List Token} :
      t.isSignificant = true → e.position = some t.position → e.found = t.describe →
        StandsBehind e before (before ++ t :: after)
  | ending :
      e.position = none → e.found = "end of input" → StandsBehind e before before

/-- The error is truthful for a language. Of the tokens, `before` stand in front of its place. -/
structure Truthful (e : SyntaxError) (L : List Terminal → Prop) (tokens before : List Token) :
    Prop where
  stands : e.StandsBehind before tokens
  viable : Begins L (terminals before)
  nonempty : e.expected ≠ []
  nodup : e.expected.Nodup
  expects : ∀ x ∈ e.expected, Expects L (terminals before) x

section

variable {e e' : SyntaxError} {L : List Terminal → Prop} {tokens p q : List Token}

theorem StandsBehind.depth_lt_or (stands : e.StandsBehind p tokens) (spaced : Spaced tokens) :
    (∃ t after, tokens = p ++ t :: after ∧ e.depth = t.position.offset ∧
      t.position.offset < endDepth) ∨ (p = tokens ∧ e.depth = endDepth) := by
  cases stands with
  | @token t after _ place _ =>
      have bounded := spaced.bounded t (by simp)
      refine Or.inl ⟨t, after, rfl, ?_, bounded⟩
      rw [depth, place]
      exact Nat.min_eq_left (Nat.le_of_lt bounded)
  | ending place _ =>
      refine Or.inr ⟨rfl, ?_⟩
      rw [depth, place]

/-- Errors at the same depth stand at the same place. -/
theorem StandsBehind.unique (stands : e.StandsBehind p tokens) (stands' : e'.StandsBehind q tokens)
    (spaced : Spaced tokens) (sameDepth : e.depth = e'.depth) : p = q := by
  rcases stands.depth_lt_or spaced with ⟨t, after, cut, depth, bounded⟩ | ⟨whole, depth⟩
  · rcases stands'.depth_lt_or spaced with ⟨s, rest, cut', depth', -⟩ | ⟨-, depth'⟩
    · subst cut
      exact spaced.split_unique cut' (depth.symm.trans (sameDepth.trans depth'))
    · omega
  · rcases stands'.depth_lt_or spaced with ⟨s, rest, -, depth', bounded'⟩ | ⟨whole', -⟩
    · omega
    · rw [whole, whole']

theorem StandsBehind.append (stands : e.StandsBehind q tokens) (p : List Token) :
    e.StandsBehind (p ++ q) (p ++ tokens) := by
  cases stands with
  | token significant place described =>
      rw [← List.append_assoc]
      exact .token significant place described
  | ending place described => exact .ending place described

theorem nodup_addNew {entries : List String} (nodup : entries.Nodup) (entry : String) :
    (addNew entries entry).Nodup := by
  unfold addNew
  split
  · exact nodup
  · rename_i fresh
    rw [List.nodup_append]
    refine ⟨nodup, List.pairwise_singleton _ entry, ?_⟩
    intro a mem b isEntry
    rw [List.mem_singleton.mp isEntry]
    rintro rfl
    exact fresh mem

/-- Merging keeps the entries of a list different. -/
theorem nodup_expecting (nodup : e.expected.Nodup) (expected : List String) :
    (e.expecting expected).expected.Nodup := by
  obtain ⟨position, found, entries⟩ := e
  simp only [expecting] at nodup ⊢
  induction expected generalizing entries with
  | nil => exact nodup
  | cons entry rest ih => exact ih (addNew entries entry) (nodup_addNew nodup entry)

theorem Truthful.expecting (truthful : e.Truthful L tokens p) {expected : List String}
    (expects : ∀ x ∈ expected, Expects L (terminals p) x) :
    (e.expecting expected).Truthful L tokens p := by
  refine ⟨?_, truthful.viable, ?_, nodup_expecting truthful.nodup expected, ?_⟩
  · cases truthful.stands with
    | token significant place described => exact .token significant place described
    | ending place described => exact .ending place described
  · obtain ⟨first, firstMem⟩ := List.exists_mem_of_ne_nil _ truthful.nonempty
    exact List.ne_nil_of_mem (mem_expecting.mpr (Or.inl firstMem))
  · intro x mem
    rcases mem_expecting.mp mem with mem | mem
    · exact truthful.expects x mem
    · exact expects x mem

/-- The deeper one of two truthful errors is truthful, and so are both merged. -/
theorem Truthful.deepest (truthful : e.Truthful L tokens p) (truthful' : e'.Truthful L tokens q)
    (spaced : Spaced tokens) : ∃ before, (e.deepest e').Truthful L tokens before := by
  unfold SyntaxError.deepest
  split
  · exact ⟨q, truthful'⟩
  · split
    · rename_i sameDepth
      obtain rfl := truthful.stands.unique truthful'.stands spaced sameDepth
      exact ⟨p, truthful.expecting truthful'.expects⟩
    · exact ⟨p, truthful⟩

/-- Tokens in front become a part of what stands in front of the error. -/
theorem Truthful.append (truthful : e.Truthful (Behind L (terminals p)) tokens q) :
    e.Truthful L (p ++ tokens) (p ++ q) := by
  refine ⟨truthful.stands.append p, ?_, truthful.nonempty, truthful.nodup, ?_⟩
  · rw [terminals_append]
    exact begins_behind.mp truthful.viable
  · intro x mem
    rw [terminals_append]
    exact (truthful.expects x mem).of_behind

end

end SyntaxError

/-! ## Readers -/

namespace Reader

variable {α β : Type} {L : List Terminal → Prop}

/-- The reader fails with truthful errors only. -/
def Truthful (r : Reader α) (L : List Terminal → Prop) : Prop :=
  ∀ ⦃c : Cursor⦄ ⦃e : SyntaxError⦄ ⦃c' : Cursor⦄, Spaced c.ahead → r c = .error e c' →
    ∃ before, e.Truthful L c.ahead before

theorem Truthful.pure (a : α) : Truthful (Pure.pure a) L := fun _ _ _ _ ran => nomatch ran

theorem get_truthful : Truthful (get : Reader Cursor) L := fun _ _ _ _ ran => nomatch ran

theorem isAt_truthful (kind : TokenKind) : Truthful (isAt kind) L := fun _ _ _ _ ran => nomatch ran

/-- Behind the tokens that the first reader has passed, the second one is truthful for what may
    follow them. -/
theorem Truthful.bind {x : Reader α} {f : α → Reader β} {form : α → List Token → Prop}
    (first : Truthful x L) (reads : Reads x form)
    (next : ∀ a p, form a p → Truthful (f a) (Behind L (terminals p))) : Truthful (x >>= f) L := by
  intro c e c₂ spaced ran
  rw [bind_apply] at ran
  cases stepped : x c with
  | error e' c₁ =>
      rw [stepped] at ran
      cases ran
      exact first spaced stepped
  | ok a c₁ =>
      rw [stepped] at ran
      obtain ⟨p, passes, formed⟩ := reads.ok stepped
      rw [passes.ahead] at spaced ⊢
      obtain ⟨before, told⟩ := next a p formed spaced.of_append ran
      exact ⟨p ++ before, told.append⟩

/-- What is made of the value that has been read makes no difference. -/
theorem Truthful.map {x : Reader α} (truthful : Truthful x L) (f : α → β) :
    Truthful (do return f (← x)) L := by
  intro c e c₂ spaced ran
  have ran : (x >>= fun a => Pure.pure (f a)) c = .error e c₂ := ran
  rw [bind_apply] at ran
  cases stepped : x c with
  | error e' c₁ =>
      rw [stepped] at ran
      cases ran
      exact truthful spaced stepped
  | ok a c₁ =>
      rw [stepped] at ran
      cases ran

/-! ### Single tokens -/

section

variable {c : Cursor} {expected : List String}

/-- An error about the next significant token. Nothing but comments stand in front of it. -/
theorem next_truthful {t : Token} {rest : List Token} (front : c.significant = t :: rest)
    (nonempty : expected ≠ []) (nodup : expected.Nodup) (expects : ∀ x ∈ expected, Expects L [] x) :
    ∃ before,
      SyntaxError.Truthful ⟨some t.position, t.describe, expected⟩ L c.ahead before := by
  obtain ⟨comments, ahead, silent⟩ := c.ahead_eq_comments_append
  obtain ⟨first, mem⟩ := List.exists_mem_of_ne_nil _ nonempty
  refine ⟨comments, ?_, ?_, nonempty, nodup, ?_⟩
  · rw [ahead, front]
    refine .token ?_ rfl rfl
    rw [Token.isSignificant, Cursor.isComment_of_significant front]
    rfl
  · rw [silent]
    exact (expects first mem).begins
  · rwa [silent]

/-- An error about the end of the input. -/
theorem ending_truthful (front : c.significant = []) (nonempty : expected ≠ [])
    (nodup : expected.Nodup) (expects : ∀ x ∈ expected, Expects L [] x) :
    ∃ before, SyntaxError.Truthful ⟨none, "end of input", expected⟩ L c.ahead before := by
  obtain ⟨comments, ahead, silent⟩ := c.ahead_eq_comments_append
  obtain ⟨first, mem⟩ := List.exists_mem_of_ne_nil _ nonempty
  rw [front, List.append_nil] at ahead
  refine ⟨comments, ?_, ?_, nonempty, nodup, ?_⟩
  · rw [ahead]
    exact .ending rfl rfl
  · rw [silent]
    exact (expects first mem).begins
  · rwa [silent]

theorem failure_truthful (nonempty : expected ≠ []) (nodup : expected.Nodup)
    (expects : ∀ x ∈ expected, Expects L [] x) :
    ∃ before, (c.failure expected).Truthful L c.ahead before := by
  unfold Cursor.failure Cursor.next?
  cases front : c.significant with
  | nil => exact ending_truthful front nonempty nodup expects
  | cons t rest => exact next_truthful front nonempty nodup expects

end

theorem fail_truthful {expected : List String} (nonempty : expected ≠ [])
    (nodup : expected.Nodup) (expects : ∀ x ∈ expected, Expects L [] x) :
    Truthful (fail expected : Reader α) L := by
  intro c e c' _ ran
  cases ran
  exact failure_truthful nonempty nodup expects

theorem accept_truthful (kind : TokenKind) : Truthful (accept kind) L := by
  intro c e c' _ ran
  unfold accept at ran
  split at ran <;> cases ran

theorem expect_truthful {kind : TokenKind} (expects : Expects L [] kind.describe) :
    Truthful (expect kind) L := by
  intro c e c' _ ran
  unfold expect at ran
  split at ran
  · cases ran
  · cases ran
    refine failure_truthful (List.cons_ne_nil _ _) (List.pairwise_singleton _ _) ?_
    intro x mem
    rwa [List.mem_singleton.mp mem]

theorem identifier_truthful (begins : ∀ name, Begins L [⟨.identifier, name⟩]) :
    Truthful identifier L :=
  (expect_truthful (.token fun name _ => begins name)).map _

theorem punct_truthful {mark : Punct} (begins : ∀ lexeme, Begins L [⟨.punct mark, lexeme⟩]) :
    Truthful (punct mark) L :=
  (expect_truthful (.token fun lexeme _ => begins lexeme)).map _

theorem keyword_truthful {word : Keyword} (begins : ∀ lexeme, Begins L [⟨.keyword word, lexeme⟩]) :
    Truthful (keyword word) L :=
  (expect_truthful (.token fun lexeme _ => begins lexeme)).map _

/-- The token that is expected and found is the next significant one. -/
theorem significant_of_expect {kind : TokenKind} {c d : Cursor} {t : Token}
    (ran : expect kind c = .ok t d) : ∃ rest, c.significant = t :: rest := by
  unfold expect Cursor.take? at ran
  cases front : c.significant with
  | nil =>
      rw [front] at ran
      cases ran
  | cons s rest =>
      simp only [front] at ran
      by_cases isKind : s.kind = kind
      · rw [if_pos isKind] at ran
        cases ran
        exact ⟨rest, rfl⟩
      · rw [if_neg isKind] at ran
        cases ran

/-- An integer out of range has been passed where it is refused, but the error stands at it, so
    what is expected is expected in its place. -/
theorem integer_truthful
    (begins : ∀ lexeme : String, (Decimal.readWord? lexeme.toList).isSome →
      Begins L [⟨.integer, lexeme⟩]) : Truthful integer L := by
  intro c e c' spaced ran
  rw [integer, bind_apply] at ran
  cases taken : expect .integer c with
  | error e' c₁ =>
      rw [taken] at ran
      cases ran
      exact expect_truthful (.token fun lexeme spelt => begins lexeme (spelt rfl)) spaced taken
  | ok t c₁ =>
      simp only [taken] at ran
      cases read : Decimal.readWord? t.lexeme.toList with
      | some word =>
          rw [read] at ran
          cases ran
      | none =>
          rw [read] at ran
          cases ran
          obtain ⟨rest, front⟩ := significant_of_expect taken
          refine next_truthful front (List.cons_ne_nil _ _) (List.pairwise_singleton _ _) ?_
          intro x mem
          rw [List.mem_singleton.mp mem]
          exact .word begins

theorem comment_truthful : Truthful comment L := by
  intro c e c' _ ran
  unfold comment at ran
  split at ran <;> cases ran

theorem trailingComment_truthful : Truthful trailingComment L := by
  intro c e c' spaced ran
  unfold trailingComment at ran
  split at ran
  · exact comment_truthful spaced ran
  · cases ran

/-- That a comment may stand where an error stands is true of every place. -/
theorem orComment_truthful {r : Reader α} (truthful : Truthful r L) (start : Position) :
    Truthful (orComment start r) L := by
  intro c e c' spaced ran
  unfold orComment at ran
  split at ran
  · cases ran
  · rename_i e' c₁ outcome
    cases ran
    obtain ⟨before, told⟩ := truthful spaced outcome
    refine ⟨before, ?_⟩
    split
    · refine told.expecting fun x mem => ?_
      rw [List.mem_singleton.mp mem]
      exact .comment told.viable
    · exact told

/-! ### Choices -/

/-- The error of a choice is that of the alternative it is committed to, or merged from those of
    all alternatives. There is at least one. -/
theorem choose_truthful {first : Reader α} {others : List (Reader α)}
    (truthful : ∀ r ∈ first :: others, Truthful r L) : Truthful (choose (first :: others)) L := by
  have tried (alternatives : List (Reader α)) (each : ∀ r ∈ alternatives, Truthful r L)
      {start : Cursor} (spaced : Spaced start.ahead) (deepest : SyntaxError)
      (told : ∃ before, deepest.Truthful L start.ahead before) {e : SyntaxError} {c' : Cursor}
      (ran : chooseFrom start (some deepest) alternatives = .error e c') :
      ∃ before, e.Truthful L start.ahead before := by
    induction alternatives generalizing deepest with
    | nil =>
        cases ran
        exact told
    | cons alternative others ih =>
        rw [chooseFrom] at ran
        cases outcome : alternative start with
        | ok a stop =>
            rw [outcome] at ran
            cases ran
        | error e' stop =>
            have told' := each alternative List.mem_cons_self spaced outcome
            simp only [outcome] at ran
            split at ran
            · cases ran
              exact told'
            · obtain ⟨p, toldFirst⟩ := told
              obtain ⟨q, toldSecond⟩ := told'
              exact ih (fun r mem => each r (List.mem_cons_of_mem _ mem)) _
                (toldFirst.deepest toldSecond spaced) ran
  intro c e c' spaced ran
  rw [choose, chooseFrom] at ran
  cases outcome : first c with
  | ok a stop =>
      rw [outcome] at ran
      cases ran
  | error e' stop =>
      have told' := truthful first List.mem_cons_self spaced outcome
      simp only [outcome] at ran
      split at ran
      · cases ran
        exact told'
      · exact tried others (fun r mem => truthful r (List.mem_cons_of_mem _ mem)) spaced e' told'
          ran

end Reader

end InterfaceHeader
