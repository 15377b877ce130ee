import InterfaceHeader.Proofs.Choice.Outcome
import InterfaceHeader.Proofs.Diagnosis.Truthful
import InterfaceHeader.Proofs.Grammar.DeclarationSoundness
import InterfaceHeader.Proofs.Reading.Declarations

/-!
# Productions

Every reader of the grammar is put together from a few steps by sequences and choices.
`Production r` says that `r` is such a reader, so a fact that each step and each combination keeps
holds of all of them: they only pass over tokens, and no error of theirs expects the same thing
twice. `Calls s d r c` says that running `r` at `c` comes to run `s` at `d`, however deep inside.
-/

namespace InterfaceHeader.Reader

variable {α β : Type}

/-- The cursor that a reader leaves behind, with or without success. -/
def stop : EStateM.Result SyntaxError Cursor α → Cursor
  | .ok _ c => c
  | .error _ c => c

/-- The reader is put together from the steps of the grammar. -/
inductive Production : {α : Type} → Reader α → Prop where
  | pure {α : Type} (a : α) : Production (Pure.pure a : Reader α)
  | bind {α β : Type} {x : Reader α} {f : α → Reader β} :
      Production x → (∀ a, Production (f a)) → Production (x >>= f)
  | get : Production (MonadState.get : Reader Cursor)
  | accept (kind : TokenKind) : Production (accept kind)
  | expect (kind : TokenKind) : Production (expect kind)
  | integer : Production integer
  | comment : Production comment
  | trailingComment : Production trailingComment
  | fail {α : Type} {expected : List String} :
      expected.Nodup → Production (fail expected : Reader α)
  | choose {α : Type} {alternatives : List (Reader α)} :
      (∀ r ∈ alternatives, Production r) → Production (choose alternatives)
  | orComment {α : Type} {r : Reader α} (start : Position) :
      Production r → Production (orComment start r)

/-! ## The readers of the grammar -/

namespace Production

/-- What is made of the value that has been read makes no difference. -/
theorem map {x : Reader α} (production : Production x) (f : α → β) :
    Production (do return f (← x)) :=
  production.bind fun a => .pure (f a)

theorem isAt (kind : TokenKind) : Production (isAt kind) := get.map _

theorem identifier : Production identifier := (expect _).map _

theorem punct (mark : Punct) : Production (punct mark) := (expect _).map _

theorem keyword (word : Keyword) : Production (keyword word) := (expect _).map _

theorem primitive : Production primitive := by
  refine (accept _).bind fun const? => (accept _).bind fun name? => ?_
  cases name? with
  | some t => exact (accept _).map _
  | none =>
      dsimp only
      split
      · exact fail (List.pairwise_singleton _ _)
      · exact fail (by decide)

theorem pointerName : Production pointerName :=
  (punct _).bind fun _ => (punct _).bind fun _ => identifier.bind fun _ => (punct _).map _

section

variable {argument : Reader Argument} (production : Production argument)

include production

theorem moreArguments (n : Nat) : Production (moreArguments argument n) := by
  induction n with
  | zero => exact .pure []
  | succ n ih =>
      refine (accept _).bind fun comma? => ?_
      cases comma? with
      | none => exact .pure []
      | some t => exact production.bind fun _ => ih.map _

theorem argumentList : Production (argumentList argument) :=
  production.bind fun _ => get.bind fun _ => (production.moreArguments _).map _

theorem arguments : Production (arguments argument) := by
  refine (isAt _).bind fun close => ?_
  split
  · exact .pure []
  · exact production.argumentList

end

theorem signature {arguments : Reader (List Argument)} (production : Production arguments) :
    Production (signature arguments) :=
  primitive.bind fun _ => pointerName.bind fun _ => (punct _).bind fun _ =>
    production.bind fun _ => (punct _).map _

theorem argumentOf {type : Reader CType} (production : Production type) :
    Production (argumentOf type) :=
  production.bind fun _ => (accept _).map _

theorem typeAt (levels : Nat) : Production (typeAt levels) := by
  induction levels with
  | zero => exact primitive.map _
  | succ levels ih =>
      refine choose fun r mem => ?_
      simp only [List.mem_cons, List.not_mem_nil, or_false] at mem
      rcases mem with rfl | rfl
      · exact (signature ih.argumentOf.arguments).map _
      · exact primitive.map _

theorem type : Production type := get.bind fun _ => typeAt _

theorem argument : Production argument := type.argumentOf

theorem functionType : Production functionType := signature argument.arguments

theorem wholeType : Production wholeType := by
  refine type.bind fun t => get.bind fun c => ?_
  split
  · exact fail (List.pairwise_singleton _ _)
  · exact .pure t

theorem initializer : Production initializer := by
  refine (isAt _).bind fun isInt => ?_
  split
  · exact integer.map _
  · refine (isAt _).bind fun isName => ?_
    split
    · exact identifier.map _
    · exact fail (by decide)

theorem enumValue : Production enumValue := by
  refine identifier.bind fun name => (accept _).bind fun equals? => ?_
  cases equals? with
  | none => exact .pure _
  | some t => exact initializer.map _

theorem enumValues (n : Nat) : Production (enumValues n) := by
  induction n with
  | zero => exact .pure []
  | succ n ih =>
      refine (isAt _).bind fun close => ?_
      split
      · exact .pure []
      · refine enumValue.bind fun value => trailingComment.bind fun direct =>
          (accept _).bind fun comma? => ?_
        cases comma? with
        | none => exact .pure _
        | some t =>
            dsimp only
            split
            · exact (Production.pure _).bind fun _ => ih.map _
            · exact trailingComment.bind fun _ => ih.map _

theorem enumDecl : Production enumDecl :=
  (keyword _).bind fun _ => (keyword _).bind fun _ => (punct _).bind fun _ =>
    get.bind fun _ => (enumValues _).bind fun _ => (punct _).bind fun _ => (accept _).map _

theorem aliasDecl : Production aliasDecl :=
  (keyword _).bind fun _ => primitive.bind fun _ => identifier.map _

theorem functionDecl : Production functionDecl :=
  (keyword _).bind fun _ => functionType

theorem variableField : Production variableField :=
  primitive.bind fun _ => identifier.map _

theorem methodField : Production methodField :=
  (signature argument.argumentList).bind fun _ => comment.map _

theorem memberAlternatives : ∀ r ∈ memberAlternatives, Production r := by
  intro r mem
  simp only [Reader.memberAlternatives, List.mem_cons, List.not_mem_nil, or_false] at mem
  rcases mem with rfl | rfl
  · exact variableField.map _
  · exact methodField.map _

theorem structField : Production structField := by
  refine (choose memberAlternatives).bind fun field => (punct _).bind fun _ => ?_
  match field with
  | .data field => exact .pure _
  | .method ⟨function, none⟩ => exact trailingComment.map _
  | .method ⟨function, some text⟩ => exact .pure _

theorem structFields (n : Nat) : Production (structFields n) := by
  induction n with
  | zero => exact .pure []
  | succ n ih =>
      refine get.bind fun c => (isAt _).bind fun close => ?_
      split
      · exact .pure []
      · exact structField.bind fun _ => ih.map _

theorem structDecl : Production structDecl :=
  (keyword _).bind fun _ => (keyword _).bind fun _ => (punct _).bind fun _ =>
    get.bind fun _ => (structFields _).bind fun _ => (punct _).bind fun _ => identifier.map _

theorem ended {decl : Reader α} (production : Production decl) : Production (ended decl) :=
  production.bind fun _ => (punct _).map _

theorem declarationAlternatives : ∀ r ∈ declarationAlternatives, Production r := by
  intro r mem
  simp only [Reader.declarationAlternatives, List.mem_cons, List.not_mem_nil, or_false] at mem
  rcases mem with rfl | rfl | rfl | rfl
  · exact enumDecl.ended.map _
  · exact aliasDecl.ended.map _
  · exact functionDecl.ended.map _
  · exact structDecl.ended.map _

theorem declaration : Production declaration := choose declarationAlternatives

theorem declarations (n : Nat) : Production (declarations n) := by
  induction n with
  | zero => exact .pure []
  | succ n ih =>
      refine comment.bind fun text? => ?_
      cases text? with
      | some text => exact ih.map _
      | none =>
          refine get.bind fun c => ?_
          cases c.next? with
          | none => exact .pure []
          | some next => exact (declaration.orComment _).bind fun _ => ih.map _

theorem header : Production header :=
  get.bind fun _ => (declarations _).map _

/-! ## What every production does -/

/-- A production does nothing but pass over tokens, and fails at one of those ahead. -/
theorem reads {r : Reader α} (production : Production r) : Reads r fun _ _ => True := by
  induction production with
  | pure a => exact .pure trivial
  | bind _ _ firstReads nextReads => exact firstReads.bind fun a _ _ => nextReads a
  | get => exact get_reads.mono fun _ _ _ => trivial
  | accept kind => exact (accept_reads kind).mono fun _ _ _ => trivial
  | expect kind => exact (expect_reads kind).mono fun _ _ _ => trivial
  | integer => exact integer_reads.mono fun _ _ _ => trivial
  | comment => exact comment_reads.mono fun _ _ _ => trivial
  | trailingComment => exact trailingComment_reads.mono fun _ _ _ => trivial
  | fail => exact fail_reads _
  | choose _ reads => exact choose_reads reads
  | orComment start _ reads => exact orComment_reads reads start

theorem passes {r : Reader α} (production : Production r) (c : Cursor) :
    ∃ passed, c.Passes passed (stop (r c)) := by
  cases ran : r c with
  | ok a c' =>
      obtain ⟨passed, passes, -⟩ := production.reads.ok ran
      exact ⟨passed, passes⟩
  | error e c' => exact (production.reads.error ran).1

/-- The count of tokens that a production stops at is no smaller than the one it started from. -/
theorem consumed_le {r : Reader α} (production : Production r) (c : Cursor) :
    c.consumed ≤ (stop (r c)).consumed := by
  obtain ⟨passed, passes⟩ := production.passes c
  rw [passes.consumed]
  exact Nat.le_add_right _ _

end Production

/-! ## Expectations -/

/-- The reader fails with errors only that expect nothing twice. -/
def ExpectsOnce (r : Reader α) : Prop :=
  ∀ ⦃c : Cursor⦄ ⦃e : SyntaxError⦄ ⦃d : Cursor⦄, r c = .error e d → e.expected.Nodup

theorem failure_expected (c : Cursor) (expected : List String) :
    (c.failure expected).expected = expected := by
  unfold Cursor.failure
  split <;> rfl

/-- The deeper one of two errors that expect nothing twice does not, and neither do both merged. -/
theorem nodup_deepest {e other : SyntaxError} (distinct : e.expected.Nodup)
    (distinct' : other.expected.Nodup) : (e.deepest other).expected.Nodup := by
  unfold SyntaxError.deepest
  split
  · exact distinct'
  · split
    · exact SyntaxError.nodup_expecting distinct _
    · exact distinct

theorem nodup_foldl_deepest {errors : List SyntaxError} (distinct : ∀ f ∈ errors, f.expected.Nodup)
    {e : SyntaxError} (distinct' : e.expected.Nodup) :
    (errors.foldl SyntaxError.deepest e).expected.Nodup := by
  induction errors generalizing e with
  | nil => exact distinct'
  | cons f errors ih =>
      obtain ⟨first, others⟩ := List.forall_mem_cons.mp distinct
      exact ih others (nodup_deepest distinct' first)

namespace ExpectsOnce

theorem bind {x : Reader α} {f : α → Reader β} (first : ExpectsOnce x)
    (next : ∀ a, ExpectsOnce (f a)) : ExpectsOnce (x >>= f) := by
  intro c e d ran
  rw [bind_apply] at ran
  cases stepped : x c with
  | error e' c₁ =>
      rw [stepped] at ran
      cases ran
      exact first stepped
  | ok a c₁ =>
      rw [stepped] at ran
      exact next a ran

theorem expect (kind : TokenKind) : ExpectsOnce (expect kind) := by
  intro c e d ran
  unfold Reader.expect at ran
  split at ran
  · cases ran
  · cases ran
    rw [failure_expected]
    exact List.pairwise_singleton _ _

theorem integer : ExpectsOnce integer := by
  refine (expect _).bind fun t => ?_
  intro c e d ran
  cases parsed : Decimal.readWord? t.lexeme.toList with
  | some word =>
      rw [parsed] at ran
      cases ran
  | none =>
      rw [parsed] at ran
      cases ran
      exact List.pairwise_singleton _ _

theorem comment : ExpectsOnce comment := by
  intro c e d ran
  unfold Reader.comment at ran
  split at ran <;> cases ran

/-- Merging the errors of alternatives keeps their expectations apart. -/
theorem choose {alternatives : List (Reader α)} (once : ∀ r ∈ alternatives, ExpectsOnce r) :
    ExpectsOnce (choose alternatives) := by
  intro c e d ran
  rcases exists_decides_or_givesUp alternatives c with
    ⟨earlier, r, later, rfl, givesUp, decides⟩ | allGiveUp
  · rw [choose_decides givesUp decides] at ran
    exact once r (by simp) ran
  · cases alternatives with
    | nil =>
        cases ran
        rw [Option.getD_none, failure_expected]
        exact List.nodup_nil
    | cons first others =>
        obtain ⟨e', d', firstRan, chosen⟩ := choose_givesUp allGiveUp
        cases chosen.symm.trans ran
        refine nodup_foldl_deepest ?_ (once first List.mem_cons_self firstRan)
        intro f failed
        obtain ⟨r, mem, d'', memberRan⟩ := mem_failures.mp failed
        exact once r (List.mem_cons_of_mem _ mem) memberRan

theorem orComment {r : Reader α} (once : ExpectsOnce r) (start : Position) :
    ExpectsOnce (orComment start r) := by
  intro c e d ran
  unfold Reader.orComment at ran
  split at ran
  · cases ran
  · rename_i e' d' innerRan
    cases ran
    split
    · exact SyntaxError.nodup_expecting (once innerRan) _
    · exact once innerRan

end ExpectsOnce

theorem Production.expectsOnce {r : Reader α} (production : Production r) : ExpectsOnce r := by
  induction production with
  | pure a => exact fun _ _ _ ran => nomatch ran
  | bind _ _ first next => exact first.bind next
  | get => exact fun _ _ _ ran => nomatch ran
  | accept kind =>
      intro c e d ran
      unfold Reader.accept at ran
      split at ran <;> cases ran
  | expect kind => exact .expect kind
  | integer => exact .integer
  | comment => exact .comment
  | trailingComment =>
      intro c e d ran
      unfold Reader.trailingComment at ran
      split at ran
      · exact ExpectsOnce.comment ran
      · cases ran
  | fail distinct =>
      intro c e d ran
      cases ran
      rwa [failure_expected]
  | choose _ once => exact .choose once
  | orComment start _ once => exact once.orComment start

/-! ## Inside a run -/

/-- Running a reader at a cursor comes to running `s` at `d`: as a part of a sequence whose parts
    before it succeed, or of an alternative that is tried because those before it are given up. -/
inductive Calls {β : Type} (s : Reader β) (d : Cursor) : {α : Type} → Reader α → Cursor → Prop where
  | here : Production s → Calls s d s d
  | first {α γ : Type} {x : Reader γ} {f : γ → Reader α} {c : Cursor} :
      Calls s d x c → Calls s d (x >>= f) c
  | second {α γ : Type} {x : Reader γ} {f : γ → Reader α} {a : γ} {c c₁ : Cursor} :
      Production x → x c = .ok a c₁ → Calls s d (f a) c₁ → Calls s d (x >>= f) c
  | alternative {α : Type} {earlier later : List (Reader α)} {r : Reader α} {c : Cursor} :
      (∀ q ∈ earlier, GivesUp q c) → Calls s d r c → Calls s d (choose (earlier ++ r :: later)) c
  | orComment {α : Type} {r : Reader α} {c : Cursor} (start : Position) :
      Calls s d r c → Calls s d (orComment start r) c

namespace Calls

variable {s : Reader β} {r : Reader α} {c d : Cursor}

theorem production (calls : Calls s d r c) : Production s := by
  induction calls with
  | here production => exact production
  | first _ ih => exact ih
  | second _ _ _ ih => exact ih
  | alternative _ _ ih => exact ih
  | orComment _ _ ih => exact ih

/-- A run comes only to places that are ahead of the one where it started. -/
theorem passes (calls : Calls s d r c) : ∃ passed, c.Passes passed d := by
  induction calls with
  | here => exact ⟨[], .refl d⟩
  | first _ ih => exact ih
  | second production ran _ ih =>
      obtain ⟨p, first, -⟩ := production.reads.ok ran
      obtain ⟨q, later⟩ := ih
      exact ⟨p ++ q, first.trans later⟩
  | alternative _ _ ih => exact ih
  | orComment _ _ ih => exact ih

end Calls

end InterfaceHeader.Reader
