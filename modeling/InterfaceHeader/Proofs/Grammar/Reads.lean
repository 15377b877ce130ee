import InterfaceHeader.Declaration.Choice
import InterfaceHeader.Proofs.Grammar.Form

/-!
# What a reader does to a cursor

A reader passes over tokens: what is ahead after it is what was ahead before it without the tokens
passed, and the cursor counts the significant ones among them. `Reads r form` says that `r` never
does anything else, that what it finds has the given form over the tokens passed, and that an error
of it names a significant token ahead of the place where it started, or the end of the input.

The combinators keep `Reads`. In a sequence the tokens passed so far are a parameter of what is
still to be shown, so a proof about a reader follows the reader from its first step to its last.
-/

namespace InterfaceHeader

@[simp] theorem terminals_nil : terminals [] = [] := rfl

@[simp] theorem terminals_append (p q : List Token) :
    terminals (p ++ q) = terminals p ++ terminals q := by
  simp [terminals]

theorem terminals_cons_comment {t : Token} (isComment : t.isComment = true) (p : List Token) :
    terminals (t :: p) = terminals p := by
  simp [terminals, Token.isSignificant, isComment]

theorem terminals_cons_significant {t : Token} (noComment : t.isComment = false) (p : List Token) :
    terminals (t :: p) = t.terminal :: terminals p := by
  simp [terminals, Token.isSignificant, noComment]

/-- The error stands at one of the significant tokens and describes it, or at the end. -/
def SyntaxError.StandsIn (e : SyntaxError) (tokens : List Token) : Prop :=
  (e.position = none ∧ e.found = "end of input") ∨
    ∃ t ∈ tokens, t.isSignificant = true ∧ e.position = some t.position ∧ e.found = t.describe

namespace Cursor

/-- The cursor moves over some tokens to another place. -/
structure Passes (c : Cursor) (passed : List Token) (c' : Cursor) : Prop where
  ahead : c.ahead = passed ++ c'.ahead
  consumed : c'.consumed = c.consumed + (terminals passed).length
  previous : c'.previous =
    ((passed.filter Token.isSignificant).getLast?.map Token.position).or c.previous

/-- The terminals still to be read. -/
def terminals (c : Cursor) : List Terminal :=
  InterfaceHeader.terminals c.ahead

theorem Passes.refl (c : Cursor) : c.Passes [] c := by
  constructor <;> simp

theorem Passes.trans {c c₁ c₂ : Cursor} {p q : List Token} (first : c.Passes p c₁)
    (second : c₁.Passes q c₂) : c.Passes (p ++ q) c₂ := by
  constructor
  · rw [first.ahead, second.ahead, List.append_assoc]
  · rw [second.consumed, first.consumed, terminals_append, List.length_append, Nat.add_assoc]
  · rw [second.previous, first.previous, List.filter_append, List.getLast?_append,
      ← Option.or_assoc]
    cases (q.filter Token.isSignificant).getLast? <;> rfl

theorem Passes.terminals {c c' : Cursor} {p : List Token} (passes : c.Passes p c') :
    c.terminals = InterfaceHeader.terminals p ++ c'.terminals := by
  rw [Cursor.terminals, passes.ahead, terminals_append]
  rfl

/-- Passing a significant token leaves fewer tokens ahead. -/
theorem Passes.length_ahead_lt {c c' : Cursor} {p : List Token} (passes : c.Passes p c')
    (significant : InterfaceHeader.terminals p ≠ []) : c'.ahead.length < c.ahead.length := by
  have nonempty : p ≠ [] := by
    rintro rfl
    exact significant rfl
  have positive := List.length_pos_iff.mpr nonempty
  rw [passes.ahead, List.length_append]
  omega

end Cursor

namespace SyntaxError

theorem StandsIn.append {e : SyntaxError} {q : List Token} (stands : e.StandsIn q)
    (p : List Token) : e.StandsIn (p ++ q) := by
  rcases stands with stands | ⟨t, mem, significant, place, description⟩
  · exact Or.inl stands
  · exact Or.inr ⟨t, List.mem_append_right p mem, significant, place, description⟩

theorem StandsIn.of_passes {e : SyntaxError} {c c' : Cursor} {p : List Token}
    (stands : e.StandsIn c'.ahead) (passes : c.Passes p c') : e.StandsIn c.ahead := by
  rw [passes.ahead]
  exact stands.append p

theorem StandsIn.expecting {e : SyntaxError} {tokens : List Token} (stands : e.StandsIn tokens)
    (expected : List String) : (e.expecting expected).StandsIn tokens := stands

theorem StandsIn.deepest {e other : SyntaxError} {tokens : List Token} (stands : e.StandsIn tokens)
    (otherStands : other.StandsIn tokens) : (e.deepest other).StandsIn tokens := by
  unfold SyntaxError.deepest
  split
  · exact otherStands
  · split
    · exact stands.expecting other.expected
    · exact stands

end SyntaxError

/-! ## Significant tokens -/

namespace Cursor

/-- The comments that are stepped over on the way to the next significant token. -/
theorem ahead_eq_comments_append (c : Cursor) :
    ∃ comments, c.ahead = comments ++ c.significant ∧ InterfaceHeader.terminals comments = [] := by
  refine ⟨c.ahead.takeWhile Token.isComment, ?_, ?_⟩
  · exact (List.takeWhile_append_dropWhile).symm
  · unfold InterfaceHeader.terminals
    rw [List.map_eq_nil_iff, List.filter_eq_nil_iff]
    intro t mem
    have isComment : t.isComment = true := List.all_eq_true.mp List.all_takeWhile t mem
    simp [Token.isSignificant, isComment]

theorem isComment_of_significant {c : Cursor} {t : Token} {rest : List Token}
    (found : c.significant = t :: rest) : t.isComment = false := by
  have nonempty : c.ahead.dropWhile Token.isComment ≠ [] := by
    intro empty
    rw [significant, empty] at found
    cases found
  have noComment := List.head_dropWhile_not Token.isComment nonempty
  have first : (c.ahead.dropWhile Token.isComment).head nonempty = t := by
    simp only [significant] at found
    simp [found]
  rw [first] at noComment
  exact noComment

theorem terminals_eq_significant (c : Cursor) :
    c.terminals = InterfaceHeader.terminals c.significant := by
  obtain ⟨comments, ahead, silent⟩ := c.ahead_eq_comments_append
  rw [terminals, ahead, terminals_append, silent, List.nil_append]

/-- Consuming the next significant token passes over it and the comments before it. -/
theorem passes_of_significant {c : Cursor} {t : Token} {rest : List Token}
    (found : c.significant = t :: rest) :
    ∃ passed, c.Passes passed ⟨rest, c.consumed + 1, some t.position⟩ ∧ t ∈ passed ∧
      InterfaceHeader.terminals passed = [t.terminal] := by
  obtain ⟨comments, ahead, silent⟩ := c.ahead_eq_comments_append
  have noComment := isComment_of_significant found
  have unfiltered : comments.filter Token.isSignificant = [] := by
    rw [InterfaceHeader.terminals, List.map_eq_nil_iff] at silent
    exact silent
  have shown : InterfaceHeader.terminals (comments ++ [t]) = [t.terminal] := by
    rw [terminals_append, silent, terminals_cons_significant noComment]
    rfl
  refine ⟨comments ++ [t], ⟨?_, ?_, ?_⟩, by simp, shown⟩
  · rw [ahead, found]
    simp
  · rw [shown]
    rfl
  · simp [List.filter_append, unfiltered, Token.isSignificant, noComment]

theorem mem_ahead_of_next? {c : Cursor} {t : Token} (found : c.next? = some t) :
    t ∈ c.ahead ∧ t.isSignificant = true := by
  obtain ⟨rest, front⟩ : ∃ rest, c.significant = t :: rest := by
    simp only [next?, List.head?_eq_some_iff] at found
    exact found
  constructor
  · obtain ⟨comments, ahead, -⟩ := c.ahead_eq_comments_append
    rw [ahead, front]
    simp
  · simp [Token.isSignificant, isComment_of_significant front]

theorem failure_standsIn (c : Cursor) (expected : List String) :
    (c.failure expected).StandsIn c.ahead := by
  unfold failure
  cases found : c.next? with
  | none => exact Or.inl ⟨rfl, rfl⟩
  | some t =>
      obtain ⟨mem, significant⟩ := mem_ahead_of_next? found
      exact Or.inr ⟨t, mem, significant, rfl, rfl⟩

end Cursor

/-! ## Readers -/

namespace Reader

variable {α β : Type}

/-- A sequence of readers hands the cursor on, unless the first one fails. -/
theorem bind_apply (x : Reader α) (f : α → Reader β) (c : Cursor) :
    (x >>= f) c =
      match x c with
      | .ok a c₁ => f a c₁
      | .error e c₁ => .error e c₁ := by
  simp only [bind, EStateM.bind]
  cases x c <;> rfl

theorem bind_eq_ok {x : Reader α} {f : α → Reader β} {c c₂ : Cursor} {b : β} :
    (x >>= f) c = .ok b c₂ ↔ ∃ a c₁, x c = .ok a c₁ ∧ f a c₁ = .ok b c₂ := by
  rw [bind_apply]
  cases x c with
  | error e c₁ => simp
  | ok a c₁ =>
      constructor
      · intro ran
        exact ⟨a, c₁, rfl, ran⟩
      · rintro ⟨a', c', first, ran⟩
        cases first
        exact ran

/-- The reader passes over tokens, finds what has a form over them, and fails at a token ahead. -/
structure Reads (r : Reader α) (form : α → List Token → Prop) : Prop where
  ok {c : Cursor} {a : α} {c' : Cursor} :
    r c = .ok a c' → ∃ passed, c.Passes passed c' ∧ form a passed
  error {c : Cursor} {e : SyntaxError} {c' : Cursor} :
    r c = .error e c' → (∃ passed, c.Passes passed c') ∧ e.StandsIn c.ahead

theorem Reads.mono {r : Reader α} {form form' : α → List Token → Prop} (reads : Reads r form)
    (weaker : ∀ a p, form a p → form' a p) : Reads r form' := by
  refine ⟨?_, reads.error⟩
  intro c a c' ran
  obtain ⟨passed, passes, formed⟩ := reads.ok ran
  exact ⟨passed, passes, weaker a passed formed⟩

theorem Reads.pure {form : α → List Token → Prop} {a : α} (formed : form a []) :
    Reads (Pure.pure a) form := by
  constructor
  · intro c b c' ran
    cases ran
    exact ⟨[], .refl c, formed⟩
  · intro c e c' ran
    cases ran

theorem Reads.bind {x : Reader α} {f : α → Reader β} {form : α → List Token → Prop}
    {goal : β → List Token → Prop} (first : Reads x form)
    (next : ∀ a p, form a p → Reads (f a) fun b q => goal b (p ++ q)) :
    Reads (x >>= f) goal := by
  constructor
  · intro c b c₂ ran
    obtain ⟨a, c₁, stepped, ran⟩ := bind_eq_ok.mp ran
    obtain ⟨p, passes, formed⟩ := first.ok stepped
    obtain ⟨q, passes', reached⟩ := (next a p formed).ok ran
    exact ⟨p ++ q, passes.trans passes', reached⟩
  · intro c e c₂ ran
    rw [bind_apply] at ran
    cases stepped : x c with
    | error e' c₁ =>
        rw [stepped] at ran
        cases ran
        exact first.error stepped
    | ok a c₁ =>
        rw [stepped] at ran
        obtain ⟨p, passes, formed⟩ := first.ok stepped
        obtain ⟨⟨q, passes'⟩, stands⟩ := (next a p formed).error ran
        exact ⟨⟨p ++ q, passes.trans passes'⟩, stands.of_passes passes⟩

/-- Looking at the cursor passes over nothing. -/
theorem get_reads : Reads (get : Reader Cursor) fun _ p => p = [] := by
  constructor
  · intro c a c' ran
    cases ran
    exact ⟨[], .refl c, rfl⟩
  · intro c e c' ran
    cases ran

theorem isAt_reads (kind : TokenKind) : Reads (isAt kind) fun _ p => p = [] := by
  refine get_reads.bind fun c p empty => ?_
  exact .pure (by simpa using empty)

theorem fail_reads (expected : List String) {form : α → List Token → Prop} :
    Reads (fail expected) form := by
  constructor
  · intro c a c' ran
    cases ran
  · intro c e c' ran
    cases ran
    exact ⟨⟨[], .refl c⟩, c.failure_standsIn expected⟩

/-- The tokens passed are one significant token of a kind and comments before it. -/
structure OneToken (kind : TokenKind) (t : Token) (passed : List Token) : Prop where
  mem : t ∈ passed
  kind_eq : t.kind = kind
  terminals_eq : terminals passed = [⟨kind, t.lexeme⟩]

/-- The tokens passed are one significant token of a kind and comments before it, or none. -/
def MaybeToken (kind : TokenKind) : Option Token → List Token → Prop
  | none, passed => passed = []
  | some t, passed => OneToken kind t passed

/-- The token passed is a comment of a given text, or none is. -/
def MaybeComment : Option String → List Token → Prop
  | none, passed => passed = []
  | some text, passed => ∃ t : Token, passed = [t] ∧ t.isComment = true ∧ t.lexeme = text

theorem take?_passes {c c' : Cursor} {kind : TokenKind} {t : Token}
    (taken : c.take? kind = some (t, c')) :
    ∃ passed, c.Passes passed c' ∧ OneToken kind t passed := by
  unfold Cursor.take? at taken
  split at taken
  · cases taken
  · rename_i s rest found
    split at taken
    · rename_i isKind
      cases taken
      obtain ⟨passed, passes, mem, shown⟩ := Cursor.passes_of_significant found
      refine ⟨passed, passes, mem, isKind, ?_⟩
      rw [shown, Token.terminal, isKind]
    · cases taken

theorem accept_reads (kind : TokenKind) : Reads (accept kind) (MaybeToken kind) := by
  constructor
  · intro c a c' ran
    unfold accept at ran
    split at ran
    · rename_i taken
      cases ran
      exact take?_passes taken
    · cases ran
      exact ⟨[], .refl c, rfl⟩
  · intro c e c' ran
    unfold accept at ran
    split at ran <;> cases ran

theorem expect_reads (kind : TokenKind) : Reads (expect kind) (OneToken kind) := by
  constructor
  · intro c a c' ran
    unfold expect at ran
    split at ran
    · rename_i t c₁ taken
      cases ran
      exact take?_passes taken
    · cases ran
  · intro c e c' ran
    unfold expect at ran
    split at ran
    · cases ran
    · cases ran
      exact ⟨⟨[], .refl c⟩, c.failure_standsIn [kind.describe]⟩

theorem identifier_reads :
    Reads identifier fun name p => terminals p = [⟨.identifier, name⟩] := by
  refine (expect_reads .identifier).bind fun t p one => .pure ?_
  rw [List.append_nil]
  exact one.terminals_eq

theorem punct_reads (mark : Punct) :
    Reads (punct mark) fun _ p => ∃ lexeme, terminals p = [⟨.punct mark, lexeme⟩] := by
  refine (expect_reads (.punct mark)).bind fun t p one => .pure ?_
  rw [List.append_nil]
  exact ⟨t.lexeme, one.terminals_eq⟩

theorem keyword_reads (word : Keyword) :
    Reads (keyword word) fun _ p => ∃ lexeme, terminals p = [⟨.keyword word, lexeme⟩] := by
  refine (expect_reads (.keyword word)).bind fun t p one => .pure ?_
  rw [List.append_nil]
  exact ⟨t.lexeme, one.terminals_eq⟩

/-- The error about an integer out of range stands at the integer, which has been passed. -/
theorem integer_reads :
    Reads integer fun value p => ∃ text : String,
      Decimal.readWord? text.toList = some value ∧ terminals p = [⟨.integer, text⟩] := by
  constructor
  · intro c value c' ran
    obtain ⟨t, c₁, taken, ran⟩ := bind_eq_ok.mp ran
    obtain ⟨passed, passes, one⟩ := (expect_reads .integer).ok taken
    cases spelt : Decimal.readWord? t.lexeme.toList with
    | none => rw [spelt] at ran; cases ran
    | some word =>
        rw [spelt] at ran
        cases ran
        exact ⟨passed, passes, t.lexeme, spelt, one.terminals_eq⟩
  · intro c e c' ran
    rw [integer, bind_apply] at ran
    cases taken : expect .integer c with
    | error e c₁ =>
        rw [taken] at ran
        cases ran
        exact (expect_reads .integer).error taken
    | ok t c₁ =>
        simp only [taken] at ran
        obtain ⟨passed, passes, one⟩ := (expect_reads .integer).ok taken
        cases spelt : Decimal.readWord? t.lexeme.toList with
        | some word => rw [spelt] at ran; cases ran
        | none =>
            rw [spelt] at ran
            cases ran
            refine ⟨⟨passed, passes⟩, Or.inr ⟨t, ?_, ?_, rfl, rfl⟩⟩
            · rw [passes.ahead]
              exact List.mem_append_left _ one.mem
            · simp [Token.isSignificant, Token.isComment, one.kind_eq]

theorem comment_reads : Reads comment MaybeComment := by
  have taken {c c' : Cursor} {text : String} (found : c.takeComment? = some (text, c')) :
      ∃ passed, c.Passes passed c' ∧ MaybeComment (some text) passed := by
    unfold Cursor.takeComment? at found
    split at found
    · cases found
    · rename_i t rest ahead
      split at found
      · rename_i isComment
        cases found
        refine ⟨[t], ⟨ahead, ?_, ?_⟩, t, rfl, isComment, rfl⟩
        · rw [terminals_cons_comment isComment]
          rfl
        · simp [Token.isSignificant, isComment]
      · cases found
  constructor
  · intro c a c' ran
    unfold comment at ran
    split at ran
    · rename_i found
      cases ran
      exact taken found
    · cases ran
      exact ⟨[], .refl c, rfl⟩
  · intro c e c' ran
    unfold comment at ran
    split at ran <;> cases ran

theorem trailingComment_reads : Reads trailingComment MaybeComment := by
  constructor
  · intro c a c' ran
    unfold trailingComment at ran
    split at ran
    · exact comment_reads.ok ran
    · cases ran
      exact ⟨[], .refl c, rfl⟩
  · intro c e c' ran
    unfold trailingComment at ran
    split at ran
    · exact comment_reads.error ran
    · cases ran

/-- A choice reads what every alternative reads. The error it reports is that of alternatives
    that have failed before, or that of the one it is committed to. -/
theorem choose_reads {alternatives : List (Reader α)} {form : α → List Token → Prop}
    (reads : ∀ r ∈ alternatives, Reads r form) : Reads (choose alternatives) form := by
  have tried : ∀ (start : Cursor) (deepest? : Option SyntaxError),
      (∀ e, deepest? = some e → e.StandsIn start.ahead) →
      (∀ {a c'}, chooseFrom start deepest? alternatives = .ok a c' →
        ∃ passed, start.Passes passed c' ∧ form a passed) ∧
      (∀ {e c'}, chooseFrom start deepest? alternatives = .error e c' →
        (∃ passed, start.Passes passed c') ∧ e.StandsIn start.ahead) := by
    intro start
    induction alternatives with
    | nil =>
        intro deepest? stands
        refine ⟨fun ran => (by cases ran), fun ran => ?_⟩
        cases ran
        refine ⟨⟨[], .refl start⟩, ?_⟩
        cases deepest? with
        | none => exact start.failure_standsIn []
        | some e => exact stands e rfl
    | cons alternative others ih =>
        intro deepest? stands
        have first := reads alternative List.mem_cons_self
        have later := ih fun r ran => reads r (List.mem_cons_of_mem alternative ran)
        rw [chooseFrom]
        cases outcome : alternative start with
        | ok a stop =>
            refine ⟨fun ran => ?_, fun ran => (by cases ran)⟩
            cases ran
            exact first.ok outcome
        | error e stop =>
            simp only
            split
            · refine ⟨fun ran => (by cases ran), fun ran => ?_⟩
              cases ran
              exact first.error outcome
            · refine later _ fun e' same => ?_
              cases same
              cases deepest? with
              | none => exact (first.error outcome).2
              | some best => exact (stands best rfl).deepest (first.error outcome).2
  constructor
  · intro c a c' ran
    exact (tried c none fun e stands' => by cases stands').1 ran
  · intro c e c' ran
    exact (tried c none fun e stands' => by cases stands').2 ran

end Reader

end InterfaceHeader
