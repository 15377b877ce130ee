import InterfaceHeader.Declaration.TypeReader
import InterfaceHeader.Proofs.Grammar.Search
import InterfaceHeader.Proofs.Reading.Parallel

/-!
# Reading types side by side

Every reader of types runs in parallel with itself at corresponding cursors. The loops and the
nesting of types may be bounded differently on the two sides, as long as both bounds reach to the
last significant token: a bound that is used up leaves nothing to be read (`typeAt_at_end`).
-/

namespace InterfaceHeader

namespace Reader

/-- The two forms of a type, with function types in it nested at most so deep. -/
def typeAlternatives (levels : Nat) : List (Reader CType) :=
  [do return .function (← signature (arguments (argumentOf (typeAt levels)))),
    do return .primitive (← primitive)]

theorem typeAt_succ (levels : Nat) : typeAt (levels + 1) = choose (typeAlternatives levels) := rfl

/-! ## Nothing is left -/

variable {c : Cursor}

theorem accept_at_end (ended : c.significant = []) (kind : TokenKind) :
    accept kind c = .ok none c := by
  unfold accept Cursor.take?
  rw [ended]

theorem moreArguments_at_end (ended : c.significant = []) (argument : Reader Argument) (n : Nat) :
    moreArguments argument n c = .ok [] c := by
  cases n with
  | zero => rfl
  | succ n =>
      rw [moreArguments, bind_apply, accept_at_end ended]
      rfl

theorem primitive_at_end (ended : c.significant = []) :
    primitive c = .error
      (c.failure [(TokenKind.keyword .const).describe, TokenKind.identifier.describe]) c := by
  rw [primitive, bind_apply, accept_at_end ended]
  show (accept .identifier >>= _) c = _
  rw [bind_apply, accept_at_end ended]
  rfl

/-- Both alternatives fail in the same way, so the choice says no more than one of them. -/
theorem typeAt_at_end (ended : c.significant = []) (levels : Nat) :
    typeAt levels c = .error
      (c.failure [(TokenKind.keyword .const).describe, TokenKind.identifier.describe]) c := by
  cases levels with
  | zero =>
      rw [typeAt, bind_apply, primitive_at_end ended]
  | succ levels =>
      have failed (expected : List String) :
          c.failure expected = ⟨none, "end of input", expected⟩ := by
        unfold Cursor.failure Cursor.next?
        rw [ended]
        rfl
      have signatureFails (arguments : Reader (List Argument)) : signature arguments c = .error
          (c.failure [(TokenKind.keyword .const).describe, TokenKind.identifier.describe]) c := by
        rw [signature, bind_apply, primitive_at_end ended]
      rw [typeAt, choose, chooseFrom, bind_apply, signatureFails]
      simp only [Nat.sub_self, lookahead, Nat.not_lt_zero, if_false]
      rw [chooseFrom, bind_apply, primitive_at_end ended]
      simp only [Nat.sub_self, lookahead, Nat.not_lt_zero, if_false]
      rw [chooseFrom, failed]
      rfl

end Reader

namespace Correspondence

open Reader

variable {K : Correspondence} {fresh : Bool} {n : Nat}

/-- Where all significant tokens have been counted, none is ahead. -/
theorem At.at_end {c c' : Cursor} (aligned : K.At fresh n c c') (all : K.total ≤ n) :
    c.significant = [] ∧ c'.significant = [] := by
  obtain ⟨count, -⟩ := K.count aligned.meets
  rcases K.significant aligned.meets with ended | ⟨t, rest, -, -, front, -, -, -⟩
  · exact ended
  · have shown := c.terminals_eq_significant
    rw [front, terminals_cons_significant (Cursor.isComment_of_significant front)] at shown
    rw [shown, List.length_cons] at count
    have least := aligned.le_consumed
    omega

/-- From where the cursors are, the tokens ahead reach to the last significant one. -/
theorem At.total_le_ahead {c c' : Cursor} (aligned : K.At fresh n c c') :
    K.total ≤ c.ahead.length + c.consumed ∧ K.total ≤ c'.ahead.length + c.consumed := by
  obtain ⟨count, count'⟩ := K.count aligned.meets
  have bound := c.length_terminals_le
  have bound' := c'.length_terminals_le
  omega

theorem primitive_parallel :
    K.Parallel (K.At fresh n) primitive primitive (· = ·) (K.At true (n + 1)) := by
  refine (accept_parallel _).bind fun const? const?' constAlike => ?_
  refine accept_bind_parallel (fun name name' nameAlike => ?_) ?_
  · refine (accept_parallel _).map fun star? star?' starAlike => ?_
    rw [Token.Alike.isSome_eq constAlike, nameAlike.lexeme, Token.Alike.isSome_eq starAlike]
  · dsimp only
    rw [Token.Alike.isSome_eq constAlike]
    split <;> exact .fail _

theorem pointerName_parallel :
    K.Parallel (K.At fresh n) pointerName pointerName (· = ·) (K.At true (n + 1)) := by
  refine (punct_parallel _).bind fun _ _ _ => ?_
  refine (punct_parallel _).bind fun _ _ _ => ?_
  refine identifier_parallel.bind fun name name' sameName => ?_
  refine (punct_parallel _).bind fun _ _ _ => ?_
  exact .pure sameName fun _ _ aligned => aligned.lower (by omega)

/-! ## Arguments -/

section Arguments

variable {argument argument' : Reader Argument}

theorem moreArguments_parallel {m m' : Nat}
    (parallel : ∀ k, n ≤ k →
      K.Parallel (K.At true k) argument argument' (· = ·) (K.At true (k + 1)))
    (reaches : K.total ≤ m + n) (reaches' : K.total ≤ m' + n) :
    K.Parallel (K.At true n) (moreArguments argument m) (moreArguments argument' m') (· = ·)
      (K.At true n) := by
  induction m generalizing m' n with
  | zero =>
      intro c c' aligned
      obtain ⟨ended, ended'⟩ := aligned.at_end (by omega)
      rw [moreArguments_at_end ended, moreArguments_at_end ended']
      exact .ok rfl aligned
  | succ m ih =>
      cases m' with
      | zero =>
          intro c c' aligned
          obtain ⟨ended, ended'⟩ := aligned.at_end (by omega)
          rw [moreArguments_at_end ended, moreArguments_at_end ended']
          exact .ok rfl aligned
      | succ m' =>
          refine accept_bind_parallel (fun _ _ _ => ?_) (.pure rfl fun _ _ aligned => aligned)
          refine (parallel (n + 1) (by omega)).bind fun first first' sameFirst => ?_
          have restParallel : K.Parallel (K.At true (n + 2)) (moreArguments argument m)
              (moreArguments argument' m') (· = ·) (K.At true (n + 2)) :=
            ih (fun k atLeast => parallel k (by omega)) (by omega) (by omega)
          refine (restParallel.weaken fun _ _ aligned => aligned.lower (by omega)).map
            fun rest rest' sameRest => ?_
          rw [sameFirst, sameRest]

theorem argumentList_parallel
    (parallel : ∀ fresh k, n ≤ k →
      K.Parallel (K.At fresh k) argument argument' (· = ·) (K.At true (k + 1))) :
    K.Parallel (K.At fresh n) (argumentList argument) (argumentList argument') (· = ·)
      (K.At true (n + 1)) := by
  refine (parallel fresh n (Nat.le_refl n)).bind fun first first' sameFirst => ?_
  refine .get_bind fun c c' aligned => ?_
  have least := aligned.le_consumed
  have more := moreArguments_parallel (fun k atLeast => parallel true k (by omega))
    aligned.total_le_ahead.1 aligned.total_le_ahead.2
  refine (more.weaken fun _ _ aligned' => aligned'.lower least).map fun rest rest' sameRest => ?_
  rw [sameFirst, sameRest]

theorem arguments_parallel
    (parallel : ∀ fresh k, n ≤ k →
      K.Parallel (K.At fresh k) argument argument' (· = ·) (K.At true (k + 1))) :
    K.Parallel (K.At fresh n) (arguments argument) (arguments argument') (· = ·)
      (K.At fresh n) := by
  refine (isAt_parallel _).bind fun close close' same => ?_
  subst same
  cases close with
  | true => exact .pure rfl fun _ _ aligned => aligned
  | false =>
      refine (argumentList_parallel parallel).weaken fun _ _ aligned => ?_
      exact .of_behind (aligned.behind rfl) (Nat.le_of_succ_le aligned.le_consumed)

end Arguments

theorem signature_parallel {arguments arguments' : Reader (List Argument)}
    (parallel : K.Parallel (K.At true (n + 1)) arguments arguments' (· = ·)
      (K.At true (n + 1))) :
    K.Parallel (K.At fresh n) (signature arguments) (signature arguments') (· = ·)
      (K.At true (n + 1)) := by
  refine primitive_parallel.bind fun type type' sameType => ?_
  refine pointerName_parallel.bind fun name name' sameName => ?_
  refine (punct_parallel _).bind fun _ _ _ => ?_
  refine (parallel.restrict fun _ _ aligned => aligned.lower (by omega)).bind
    fun as as' sameArguments => ?_
  refine (punct_parallel _).bind fun _ _ _ => ?_
  refine .pure ?_ fun _ _ aligned => aligned.lower (by omega)
  rw [sameType, sameName, sameArguments]

theorem argumentOf_parallel {type type' : Reader CType}
    (parallel : K.Parallel (K.At fresh n) type type' (· = ·) (K.At true (n + 1))) :
    K.Parallel (K.At fresh n) (argumentOf type) (argumentOf type') (· = ·)
      (K.At true (n + 1)) := by
  refine parallel.bind fun type type' sameType => ?_
  refine (accept_parallel _).map fun name? name?' nameAlike => ?_
  rw [sameType, Token.Alike.lexeme_eq nameAlike]

/-! ## Types -/

theorem typeAlternatives_parallel {levels levels' : Nat}
    (parallel : ∀ fresh k, n + 1 ≤ k →
      K.Parallel (K.At fresh k) (typeAt levels) (typeAt levels') (· = ·) (K.At true (k + 1))) :
    List.Forall₂
      (fun r r' => K.Parallel (K.At fresh n) r r' (· = ·) (K.At true (n + 1)))
      (typeAlternatives levels) (typeAlternatives levels') := by
  have argumentsParallel : K.Parallel (K.At true (n + 1)) (arguments (argumentOf (typeAt levels)))
      (arguments (argumentOf (typeAt levels'))) (· = ·) (K.At true (n + 1)) :=
    arguments_parallel fun fresh k atLeast => argumentOf_parallel (parallel fresh k atLeast)
  refine .cons ?_ (.cons ?_ .nil)
  · exact (signature_parallel argumentsParallel).map fun f f' same => congrArg CType.function same
  · exact primitive_parallel.map fun p p' same => congrArg CType.primitive same

theorem typeAt_parallel {levels levels' : Nat} (reaches : K.total ≤ levels + n)
    (reaches' : K.total ≤ levels' + n) :
    K.Parallel (K.At fresh n) (typeAt levels) (typeAt levels') (· = ·) (K.At true (n + 1)) := by
  induction levels generalizing levels' n fresh with
  | zero =>
      -- every level takes a token, so there is none left to be read
      intro c c' aligned
      obtain ⟨ended, ended'⟩ := aligned.at_end (by omega)
      rw [typeAt_at_end ended, typeAt_at_end ended']
      exact .error (failure_alike aligned.meets _) aligned.meets
  | succ levels ih =>
      cases levels' with
      | zero =>
          intro c c' aligned
          obtain ⟨ended, ended'⟩ := aligned.at_end (by omega)
          rw [typeAt_at_end ended, typeAt_at_end ended']
          exact .error (failure_alike aligned.meets _) aligned.meets
      | succ levels' =>
          rw [typeAt_succ, typeAt_succ]
          refine choose_parallel (typeAlternatives_parallel fun fresh k atLeast => ?_)
          exact ih (by omega) (by omega)

theorem type_parallel :
    K.Parallel (K.At fresh n) type type (· = ·) (K.At true (n + 1)) := by
  refine .get_bind fun c c' aligned => ?_
  refine (typeAt_parallel aligned.total_le_ahead.1 aligned.total_le_ahead.2).weaken
    fun _ _ aligned' => ?_
  exact aligned'.lower (Nat.succ_le_succ aligned.le_consumed)

theorem argument_parallel :
    K.Parallel (K.At fresh n) argument argument (· = ·) (K.At true (n + 1)) :=
  argumentOf_parallel type_parallel

theorem functionType_parallel :
    K.Parallel (K.At fresh n) functionType functionType (· = ·) (K.At true (n + 1)) :=
  signature_parallel (arguments_parallel fun _ _ _ => argument_parallel)

theorem wholeType_parallel :
    K.Parallel (K.At fresh n) wholeType wholeType (· = ·) (K.At true (n + 1)) := by
  refine type_parallel.bind fun type type' sameType => ?_
  refine .get_bind fun c c' aligned => ?_
  rw [next?_isSome_eq aligned.meets, sameType]
  split
  · exact .fail _
  · exact .pure rfl fun _ _ aligned' => aligned'.lower aligned.le_consumed

end Correspondence

end InterfaceHeader
