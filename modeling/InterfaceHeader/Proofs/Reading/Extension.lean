import InterfaceHeader.Proofs.Grammar.DeclarationCompleteness
import InterfaceHeader.Proofs.Reading.Declarations
import Mathlib.Data.List.TakeWhile

/-!
# Reading with more tokens behind

A declaration ends at its semicolon, and what stands behind that plays no part in reading it. This
is not so for the readers it is made of: a reader looks one token further than it goes, and the
choice between the two forms of a type depends on what follows. `Extends` therefore speaks of
readers that leave a significant token ahead; then further tokens behind it change nothing. Readers
of types are not taken apart: as function types they end at a parenthesis, so the grammar tells
where they end and what they find.
-/

namespace InterfaceHeader

variable {α β : Type} {more : List Token}

namespace Cursor

/-- The cursor with further tokens behind those that are ahead. -/
def followedBy (c : Cursor) (more : List Token) : Cursor :=
  { c with ahead := c.ahead ++ more }

variable {c d e : Cursor} {p : List Token}

@[simp] theorem followedBy_consumed (c : Cursor) (more : List Token) :
    (c.followedBy more).consumed = c.consumed := rfl

@[simp] theorem followedBy_previous (c : Cursor) (more : List Token) :
    (c.followedBy more).previous = c.previous := rfl

@[simp] theorem followedBy_terminals (c : Cursor) (more : List Token) :
    (c.followedBy more).terminals = c.terminals ++ InterfaceHeader.terminals more :=
  terminals_append c.ahead more

theorem significant_followedBy (remains : c.significant ≠ []) :
    (c.followedBy more).significant = c.significant ++ more := by
  unfold significant followedBy at *
  rw [List.dropWhile_append, if_neg (by simpa using remains)]

theorem next?_followedBy (remains : c.significant ≠ []) : (c.followedBy more).next? = c.next? := by
  rw [next?, next?, significant_followedBy remains, List.head?_append_of_ne_nil _ remains]

/-- Where a significant token is ahead, what is directly ahead stays there. -/
theorem ahead_followedBy (remains : c.significant ≠ []) (more : List Token) :
    ∃ t rest, c.ahead = t :: rest ∧ (c.followedBy more).ahead = t :: (rest ++ more) := by
  cases ahead : c.ahead with
  | nil =>
      apply absurd _ remains
      rw [significant, ahead]
      rfl
  | cons t rest => exact ⟨t, rest, rfl, by rw [followedBy, ahead, List.cons_append]⟩

/-- What is still to be read is no less before some tokens are passed. -/
theorem significant_ne_nil_of_suffix (suffix : d.ahead <:+ c.ahead) (remains : d.significant ≠ []) :
    c.significant ≠ [] := by
  obtain ⟨p, front⟩ := suffix
  intro ended
  apply remains
  unfold significant at ended ⊢
  rw [← front] at ended
  rw [List.dropWhile_eq_nil_iff] at ended ⊢
  intro t mem
  exact ended t (List.mem_append_right p mem)

theorem Passes.suffix (passes : c.Passes p d) : d.ahead <:+ c.ahead :=
  ⟨p, passes.ahead.symm⟩

theorem Passes.followedBy_terminals (passes : c.Passes p d) :
    (c.followedBy more).terminals =
      InterfaceHeader.terminals p ++ (d.terminals ++ InterfaceHeader.terminals more) := by
  rw [Cursor.followedBy_terminals, passes.terminals, List.append_assoc]

theorem Passes.followedBy (passes : c.Passes p d) : (c.followedBy more).Passes p
    (d.followedBy more) :=
  ⟨by rw [Cursor.followedBy, Cursor.followedBy, passes.ahead, List.append_assoc],
    passes.consumed, passes.previous⟩

/-- Where a cursor comes to is told by the tokens passed. -/
theorem Passes.unique (passes : c.Passes p d) (passes' : c.Passes p e) : d = e := by
  have sameAhead : d.ahead = e.ahead :=
    List.append_cancel_left (passes.ahead.symm.trans passes'.ahead)
  have sameConsumed : d.consumed = e.consumed := passes.consumed.trans passes'.consumed.symm
  have samePrevious : d.previous = e.previous := passes.previous.trans passes'.previous.symm
  cases d
  cases e
  cases sameAhead
  cases sameConsumed
  cases samePrevious
  rfl

/-- A significant token is told by the number of those before it. -/
theorem last_of_terminals {p q x y : List Token} {t s : Token} (noComment : t.isComment = false)
    (noComment' : s.isComment = false) (same : p ++ t :: x = q ++ s :: y)
    (count : (InterfaceHeader.terminals p).length = (InterfaceHeader.terminals q).length) :
    p = q ∧ t = s := by
  induction p generalizing q with
  | nil =>
      cases q with
      | nil =>
          cases same
          exact ⟨rfl, rfl⟩
      | cons u q =>
          cases same
          simp [terminals_cons_significant noComment] at count
  | cons u p ih =>
      cases q with
      | nil =>
          cases same
          simp [terminals_cons_significant noComment'] at count
      | cons v q =>
          rw [List.cons_append, List.cons_append, List.cons.injEq] at same
          obtain ⟨rfl, same⟩ := same
          have count' : (InterfaceHeader.terminals p).length =
              (InterfaceHeader.terminals q).length := by
            cases commented : u.isComment with
            | true =>
                rwa [terminals_cons_comment commented, terminals_cons_comment commented] at count
            | false =>
                rw [terminals_cons_significant commented,
                  terminals_cons_significant commented] at count
                exact Nat.succ.inj count
          obtain ⟨rfl, rfl⟩ := ih same count'
          exact ⟨rfl, rfl⟩

/-- The cursor comes to a place directly behind a significant token. -/
def LandsAt (c d : Cursor) : Prop :=
  ∃ p t, c.Passes (p ++ [t]) d ∧ t.isComment = false

theorem landsAt_of_significant {t : Token} {rest : List Token} (front : c.significant = t :: rest) :
    c.LandsAt ⟨rest, c.consumed + 1, some t.position⟩ := by
  obtain ⟨passed, passes, -, -⟩ := passes_of_significant front
  obtain ⟨comments, ahead, -⟩ := c.ahead_eq_comments_append
  have whole : passed = comments ++ [t] := by
    rw [front, List.append_cons, passes.ahead] at ahead
    exact List.append_cancel_right ahead
  subst whole
  exact ⟨comments, t, passes, isComment_of_significant front⟩

theorem LandsAt.of_passes (passes : c.Passes p d) (lands : d.LandsAt e) : c.LandsAt e := by
  obtain ⟨q, t, passes', noComment⟩ := lands
  exact ⟨p ++ q, t, by rw [List.append_assoc]; exact passes.trans passes', noComment⟩

theorem LandsAt.followedBy (lands : c.LandsAt d) : (c.followedBy more).LandsAt
    (d.followedBy more) := by
  obtain ⟨p, t, passes, noComment⟩ := lands
  exact ⟨p, t, passes.followedBy, noComment⟩

/-- There is one place directly behind the last of so many significant tokens. -/
theorem LandsAt.unique (lands : c.LandsAt d) (lands' : c.LandsAt e)
    (sameConsumed : d.consumed = e.consumed) : d = e := by
  obtain ⟨p, t, passes, noComment⟩ := lands
  obtain ⟨q, s, passes', noComment'⟩ := lands'
  have ahead : p ++ t :: d.ahead = q ++ s :: e.ahead := by
    rw [List.append_cons p, List.append_cons q, ← passes.ahead, passes'.ahead]
  have count : (InterfaceHeader.terminals (p ++ [t])).length =
      (InterfaceHeader.terminals (q ++ [s])).length := by
    have consumed := passes.consumed
    have consumed' := passes'.consumed
    omega
  rw [terminals_append, terminals_append, terminals_cons_significant noComment,
    terminals_cons_significant noComment', List.length_append, List.length_append] at count
  obtain ⟨rfl, rfl⟩ := last_of_terminals noComment noComment' ahead (Nat.add_right_cancel count)
  exact passes.unique passes'

end Cursor

namespace Reader

variable {c d e : Cursor}

/-- Where the first reader leaves a significant token ahead, the second one finds the same at the
    same place when further tokens are behind. -/
def Extends (more : List Token) (c : Cursor) (r r' : Reader α) : Prop :=
  ∀ ⦃a d⦄, r c = .ok a d → d.ahead <:+ c.ahead ∧
    (d.significant ≠ [] → r' (c.followedBy more) = .ok a (d.followedBy more))

namespace Extends

theorem pure (a : α) : Extends more c (Pure.pure a) (Pure.pure a) := by
  intro b d ran
  cases ran
  exact ⟨List.suffix_rfl, fun _ => rfl⟩

theorem bind {x x' : Reader β} {f f' : β → Reader α} (first : Extends more c x x')
    (next : ∀ a d, x c = .ok a d → d.ahead <:+ c.ahead → Extends more d (f a) (f' a)) :
    Extends more c (x >>= f) (x' >>= f') := by
  intro b e ran
  obtain ⟨a, d, stepped, ran⟩ := bind_eq_ok.mp ran
  obtain ⟨suffix, same⟩ := first stepped
  obtain ⟨suffix', same'⟩ := next a d stepped suffix ran
  refine ⟨suffix'.trans suffix, fun remains => ?_⟩
  rw [bind_apply, same (Cursor.significant_ne_nil_of_suffix suffix' remains)]
  exact same' remains

/-- A reader that stays where nothing is left to be read has nothing to extend. -/
theorem at_end {r r' : Reader α} {a : α} (stays : r c = .ok a c) (ended : c.significant = []) :
    Extends more c r r' := by
  intro b d ran
  rw [stays] at ran
  cases ran
  exact ⟨List.suffix_rfl, fun remains => absurd ended remains⟩

theorem map {x x' : Reader β} (extended : Extends more c x x') (f : β → α) :
    Extends more c (do return f (← x)) (do return f (← x')) :=
  extended.bind fun _ _ _ _ => .pure _

theorem get_bind {f f' : Cursor → Reader α}
    (extended : Extends more c (f c) (f' (c.followedBy more))) :
    Extends more c (get >>= f) (get >>= f') := extended

/-- A reader that reads and lands, and that the grammar leaves no choice, extends. -/
theorem of_finds {r r' : Reader α} (lands : ∀ a d, r c = .ok a d → c.LandsAt d)
    (lands' : ∀ a d, r' (c.followedBy more) = .ok a d → (c.followedBy more).LandsAt d)
    (finds : ∀ a d, r c = .ok a d →
      Finds r' (c.followedBy more) (· = a) (d.terminals ++ terminals more)) :
    Extends more c r r' := by
  intro a d ran
  have landed := lands a d ran
  obtain ⟨p, t, passes, noComment⟩ := landed
  refine ⟨passes.suffix, fun _ => ?_⟩
  obtain ⟨a', e, ran', rfl, -, count⟩ := finds a d ran
  have sameConsumed : (d.followedBy more).consumed = e.consumed := by
    have lengths := congrArg List.length passes.terminals
    have moved := passes.consumed
    rw [Cursor.followedBy_terminals, Cursor.followedBy_consumed, List.length_append,
      List.length_append] at count
    rw [List.length_append] at lengths
    rw [Cursor.followedBy_consumed]
    omega
  rw [ran', (lands _ _ ran).followedBy.unique (lands' _ _ ran') sameConsumed]

end Extends

/-! ## Single tokens -/

theorem take?_followedBy {kind : TokenKind} (remains : c.significant ≠ []) :
    (c.followedBy more).take? kind =
      (c.take? kind).map fun taken => (taken.1, taken.2.followedBy more) := by
  unfold Cursor.take?
  rw [Cursor.significant_followedBy remains]
  cases front : c.significant with
  | nil => exact absurd front remains
  | cons t rest =>
      rw [List.cons_append]
      dsimp only
      split <;> rfl

theorem significant_ne_nil_of_take? {kind : TokenKind} {t : Token}
    (taken : c.take? kind = some (t, d)) : c.significant ≠ [] := by
  intro ended
  rw [Cursor.take?, ended] at taken
  cases taken

theorem accept_extends (kind : TokenKind) : Extends more c (accept kind) (accept kind) := by
  intro a d ran
  obtain ⟨p, passes, -⟩ := (accept_reads kind).ok ran
  refine ⟨passes.suffix, fun remains => ?_⟩
  unfold accept at ran ⊢
  rw [take?_followedBy (Cursor.significant_ne_nil_of_suffix passes.suffix remains)]
  cases found : c.take? kind with
  | none =>
      rw [found] at ran
      cases ran
      rfl
  | some taken =>
      rw [found] at ran
      cases ran
      rfl

/-- A token that has to come next is there with more tokens behind it, or without. -/
theorem expect_followedBy {kind : TokenKind} {t : Token} (ran : expect kind c = .ok t d) :
    expect kind (c.followedBy more) = .ok t (d.followedBy more) := by
  unfold expect at ran ⊢
  cases found : c.take? kind with
  | none =>
      rw [found] at ran
      cases ran
  | some taken =>
      rw [found] at ran
      cases ran
      rw [take?_followedBy (significant_ne_nil_of_take? found), found]
      rfl

theorem expect_extends (kind : TokenKind) : Extends more c (expect kind) (expect kind) := by
  intro t d ran
  obtain ⟨p, passes, -⟩ := (expect_reads kind).ok ran
  exact ⟨passes.suffix, fun _ => expect_followedBy ran⟩

theorem isAt_extends (kind : TokenKind) : Extends more c (isAt kind) (isAt kind) := by
  intro a d ran
  cases ran
  refine ⟨List.suffix_rfl, fun remains => ?_⟩
  show EStateM.Result.ok ((c.followedBy more).isAt kind) _ = _
  rw [Cursor.isAt, Cursor.next?_followedBy remains]
  rfl

theorem fail_extends (expected : List String) :
    Extends more c (fail expected : Reader α) (fail expected) := by
  intro a d ran
  cases ran

theorem identifier_extends : Extends more c identifier identifier :=
  (expect_extends .identifier).map _

theorem punct_extends (mark : Punct) : Extends more c (punct mark) (punct mark) :=
  (expect_extends (.punct mark)).map _

theorem keyword_extends (word : Keyword) : Extends more c (keyword word) (keyword word) :=
  (expect_extends (.keyword word)).map _

theorem integer_extends : Extends more c integer integer := by
  refine (expect_extends .integer).bind fun t d _ _ => ?_
  cases Decimal.readWord? t.lexeme.toList with
  | some value => exact .pure value
  | none =>
      intro a e ran
      cases ran

theorem comment_extends : Extends more c comment comment := by
  intro a d ran
  obtain ⟨p, passes, -⟩ := comment_reads.ok ran
  refine ⟨passes.suffix, fun remains => ?_⟩
  obtain ⟨t, rest, ahead, ahead'⟩ :=
    Cursor.ahead_followedBy (Cursor.significant_ne_nil_of_suffix passes.suffix remains) more
  cases commented : t.isComment with
  | true =>
      rw [comment_of_isComment ahead commented] at ran
      cases ran
      rw [comment_of_isComment ahead' commented]
      rfl
  | false =>
      rw [comment_of_significant ahead commented] at ran
      cases ran
      rw [comment_of_significant ahead' commented]

theorem hasTrailingComment_followedBy (remains : c.significant ≠ []) :
    (c.followedBy more).hasTrailingComment = c.hasTrailingComment := by
  obtain ⟨t, rest, ahead, ahead'⟩ := Cursor.ahead_followedBy remains more
  unfold Cursor.hasTrailingComment
  rw [ahead, ahead', Cursor.followedBy_previous]
  cases c.previous <;> rfl

theorem trailingComment_extends : Extends more c trailingComment trailingComment := by
  intro a d ran
  obtain ⟨p, passes, -⟩ := trailingComment_reads.ok ran
  refine ⟨passes.suffix, fun remains => ?_⟩
  have remains' := Cursor.significant_ne_nil_of_suffix passes.suffix remains
  unfold trailingComment at ran ⊢
  rw [hasTrailingComment_followedBy remains']
  cases trailing : c.hasTrailingComment with
  | true =>
      rw [trailing] at ran
      exact (comment_extends ran).2 remains
  | false =>
      rw [trailing] at ran
      cases ran
      rfl

theorem orTrailing_extends (comment? : Option String) :
    Extends more c (orTrailing comment?) (orTrailing comment?) := by
  cases comment? with
  | some text => exact .pure _
  | none => exact trailingComment_extends

/-! ## Types -/

theorem primitive_extends : Extends more c primitive primitive := by
  refine (accept_extends _).bind fun const? d _ _ => ?_
  refine (accept_extends _).bind fun name? e _ _ => ?_
  cases name? with
  | some t => exact (accept_extends _).map _
  | none =>
      dsimp only
      split <;> exact fail_extends _

theorem expect_lands {kind : TokenKind} {t : Token} (ran : expect kind c = .ok t d) :
    c.LandsAt d := by
  unfold expect Cursor.take? at ran
  cases front : c.significant with
  | nil =>
      rw [front] at ran
      cases ran
  | cons s rest =>
      rw [front] at ran
      by_cases isKind : s.kind = kind
      · simp only [isKind, if_true] at ran
        cases ran
        exact Cursor.landsAt_of_significant front
      · simp only [isKind, if_false] at ran
        cases ran

/-- A function type ends directly behind its last parenthesis. -/
theorem signature_lands {arguments : Reader (List Argument)}
    {form : List Argument → List Token → Prop} (reads : Reads arguments form)
    {f : FunctionType} (ran : signature arguments c = .ok f d) : c.LandsAt d := by
  obtain ⟨type, c₁, typeRan, ran⟩ := bind_eq_ok.mp ran
  obtain ⟨name, c₂, nameRan, ran⟩ := bind_eq_ok.mp ran
  obtain ⟨_, c₃, leftRan, ran⟩ := bind_eq_ok.mp ran
  obtain ⟨as, c₄, argumentsRan, ran⟩ := bind_eq_ok.mp ran
  obtain ⟨_, c₅, rightRan, ran⟩ := bind_eq_ok.mp ran
  obtain ⟨right, c₆, taken, rightRan⟩ := bind_eq_ok.mp rightRan
  cases ran
  cases rightRan
  obtain ⟨p₁, passes₁, -⟩ := primitive_reads.ok typeRan
  obtain ⟨p₂, passes₂, -⟩ := pointerName_reads.ok nameRan
  obtain ⟨p₃, passes₃, -⟩ := (punct_reads _).ok leftRan
  obtain ⟨p₄, passes₄, -⟩ := reads.ok argumentsRan
  exact (expect_lands taken).of_passes (((passes₁.trans passes₂).trans passes₃).trans passes₄)

/-- The grammar tells where a function type ends and what it is, so what is behind does not. -/
theorem signature_extends {arguments : Reader (List Argument)}
    {form : List Argument → List Terminal → Prop}
    (reads : Reads arguments fun as p => form as (terminals p))
    (finds : ∀ {f c u w}, SignatureForm form f u → c.terminals = u ++ w →
      Finds (signature arguments) c (· = f) w) :
    Extends more c (signature arguments) (signature arguments) := by
  refine .of_finds (fun _ _ ran => signature_lands reads ran)
    (fun _ _ ran => signature_lands reads ran) fun f d ran => ?_
  obtain ⟨p, passes, formed⟩ := (signature_reads reads).ok ran
  exact finds formed passes.followedBy_terminals

theorem functionType_extends : Extends more c functionType functionType :=
  signature_extends (arguments_reads argument_reads) functionType_finds

theorem methodType_extends :
    Extends more c (signature (argumentList argument)) (signature (argumentList argument)) :=
  signature_extends (argumentList_reads argument_reads) fun formed ahead =>
    signature_finds formed ahead fun _ _ v _ argumentsForm _ ahead' =>
      argumentList_finds (argument_finds v.length) argumentsForm (Nat.le_refl _) ahead' rfl

/-! ## Enumerations -/

theorem initializer_extends : Extends more c initializer initializer := by
  refine (isAt_extends _).bind fun isInt d _ _ => ?_
  cases isInt with
  | true => exact integer_extends.map _
  | false =>
      refine (isAt_extends _).bind fun isName e _ _ => ?_
      cases isName with
      | true => exact identifier_extends.map _
      | false => exact fail_extends _

theorem enumValue_extends : Extends more c enumValue enumValue := by
  refine identifier_extends.bind fun name d _ _ => ?_
  refine (accept_extends _).bind fun equals? e _ _ => ?_
  cases equals? with
  | none => exact .pure _
  | some _ => exact initializer_extends.map _

theorem length_ahead_of_enumValue {v : EnumValue} (ran : enumValue c = .ok v d) :
    d.ahead.length < c.ahead.length := by
  obtain ⟨p, passes, formed⟩ := enumValue_reads.ok ran
  refine passes.length_ahead_lt fun nothing => ?_
  rw [nothing] at formed
  cases formed

/-- The rounds that are left over are not used, and those that are needed are there. -/
theorem enumValues_extends {n n' : Nat} (fits : c.ahead.length ≤ n) (fits' : n ≤ n') :
    Extends more c (enumValues n) (enumValues n') := by
  induction n generalizing n' c with
  | zero =>
      refine .at_end rfl ?_
      rw [Cursor.significant, List.length_eq_zero_iff.mp (Nat.le_zero.mp fits)]
      rfl
  | succ n ih =>
      obtain ⟨n', rfl⟩ : ∃ k, n' = k + 1 := ⟨n' - 1, by omega⟩
      refine (isAt_extends _).bind fun close d _ suffix => ?_
      cases close with
      | true => exact .pure _
      | false =>
          refine enumValue_extends.bind fun v c₁ valueRan _ => ?_
          refine trailingComment_extends.bind fun direct c₂ _ suffix₂ => ?_
          refine (accept_extends _).bind fun comma? c₃ _ suffix₃ => ?_
          cases comma? with
          | none => exact .pure _
          | some _ =>
              dsimp only
              rw [← orTrailing_bind, ← orTrailing_bind]
              refine (orTrailing_extends direct).bind fun comment c₄ _ suffix₄ => ?_
              have shorter := length_ahead_of_enumValue valueRan
              have fits₄ : c₄.ahead.length ≤ n := by
                have := suffix.length_le
                have := suffix₂.length_le
                have := suffix₃.length_le
                have := suffix₄.length_le
                omega
              exact (ih fits₄ (Nat.le_of_succ_le_succ fits')).map _

theorem enumDecl_extends : Extends more c enumDecl enumDecl := by
  refine (keyword_extends _).bind fun _ c₁ _ _ => ?_
  refine (keyword_extends _).bind fun _ c₂ _ _ => ?_
  refine (punct_extends _).bind fun _ c₃ _ _ => ?_
  refine .get_bind ?_
  have rounds : c₃.ahead.length + 1 ≤ (c₃.followedBy more).ahead.length + 1 := by
    rw [Cursor.followedBy, List.length_append]
    omega
  refine (enumValues_extends (Nat.le_succ _) rounds).bind fun vs c₄ _ _ => ?_
  refine (punct_extends _).bind fun _ c₅ _ _ => ?_
  exact (accept_extends _).map _

/-! ## Aliases and function pointers -/

theorem aliasDecl_extends : Extends more c aliasDecl aliasDecl := by
  refine (keyword_extends _).bind fun _ c₁ _ _ => ?_
  refine primitive_extends.bind fun type c₂ _ _ => ?_
  exact identifier_extends.map _

theorem functionDecl_extends : Extends more c functionDecl functionDecl :=
  (keyword_extends _).bind fun _ _ _ _ => functionType_extends

/-! ## Choices -/

/-- What a choice finds is found by one of its alternatives. -/
theorem chooseFrom_mem {alternatives : List (Reader α)} {deepest? : Option SyntaxError} {a : α}
    (chosen : chooseFrom c deepest? alternatives = .ok a d) :
    ∃ r ∈ alternatives, r c = .ok a d := by
  induction alternatives generalizing deepest? with
  | nil => cases chosen
  | cons alternative others ih =>
      rw [chooseFrom] at chosen
      cases outcome : alternative c with
      | ok b stop =>
          rw [outcome] at chosen
          cases chosen
          exact ⟨alternative, List.mem_cons_self, outcome⟩
      | error e stop =>
          simp only [outcome] at chosen
          split at chosen
          · cases chosen
          · obtain ⟨r, mem, ran⟩ := ih chosen
            exact ⟨r, List.mem_cons_of_mem alternative mem, ran⟩

/-- A choice that succeeds with more tokens behind, and with a tree that tells the alternative,
    finds what it has found without them. -/
theorem choose_followedBy {alternatives : List (Reader α)} {a a' : α}
    (chosen : choose alternatives c = .ok a d)
    (chosen' : choose alternatives (c.followedBy more) = .ok a' e)
    (extended : ∀ r ∈ alternatives, r c = .ok a d →
      r (c.followedBy more) = .ok a (d.followedBy more))
    (unique : ∀ r ∈ alternatives, ∀ r' ∈ alternatives, r c = .ok a d →
      r' (c.followedBy more) = .ok a' e → r = r') :
    a' = a ∧ e = d.followedBy more := by
  obtain ⟨r, mem, ran⟩ := chooseFrom_mem chosen
  obtain ⟨r', mem', ran'⟩ := chooseFrom_mem chosen'
  obtain rfl := unique r mem r' mem' ran ran'
  rw [extended r mem ran] at ran'
  cases ran'
  exact ⟨rfl, rfl⟩

theorem return_eq_ok {x : Reader β} {f : β → α} {a : α}
    (ran : (do return f (← x) : Reader α) c = .ok a d) : ∃ b, x c = .ok b d ∧ a = f b := by
  obtain ⟨b, c₁, first, ran⟩ := bind_eq_ok.mp ran
  cases ran
  exact ⟨b, first, rfl⟩

/-! ## Structures -/

theorem variableField_extends : Extends more c variableField variableField := by
  refine primitive_extends.bind fun type d _ _ => ?_
  exact identifier_extends.map _

theorem methodField_extends : Extends more c methodField methodField := by
  refine methodType_extends.bind fun f d _ _ => ?_
  exact comment_extends.map _

theorem memberAlternatives_extend {r : Reader StructField} (mem : r ∈ memberAlternatives) :
    Extends more c r r := by
  simp only [memberAlternatives, List.mem_cons, List.not_mem_nil, or_false] at mem
  rcases mem with rfl | rfl
  · exact variableField_extends.map _
  · exact methodField_extends.map _

/-- Whether a member is data or a method tells the alternative that has found it. -/
theorem memberAlternatives_unique {r r' : Reader StructField} (mem : r ∈ memberAlternatives)
    (mem' : r' ∈ memberAlternatives) {field field' : StructField} {c' d' : Cursor}
    (ran : r c = .ok field d) (ran' : r' c' = .ok field' d')
    (same : field.withoutComment = field'.withoutComment) : r = r' := by
  simp only [memberAlternatives, List.mem_cons, List.not_mem_nil, or_false] at mem mem'
  rcases mem with rfl | rfl <;> rcases mem' with rfl | rfl
  case inl.inl | inr.inr => rfl
  all_goals
    obtain ⟨_, -, rfl⟩ := return_eq_ok ran
    obtain ⟨_, -, rfl⟩ := return_eq_ok ran'
    cases same

theorem withoutComment_of_completed {field field' : StructField}
    (ran : completed field c = .ok field' d) : field'.withoutComment = field.withoutComment := by
  cases field with
  | data v =>
      cases ran
      rfl
  | method m =>
      obtain ⟨comment, -, rfl⟩ := return_eq_ok ran
      rfl

theorem completed_extends (field : StructField) :
    Extends more c (completed field) (completed field) := by
  cases field with
  | data v => exact .pure _
  | method m => exact (orTrailing_extends _).map _

theorem punct_followedBy {mark : Punct} {u : Unit} (ran : punct mark c = .ok u d) :
    punct mark (c.followedBy more) = .ok u (d.followedBy more) := by
  obtain ⟨t, taken, -⟩ := return_eq_ok ran
  exact bind_eq_ok.mpr ⟨t, d.followedBy more, expect_followedBy taken, rfl⟩

theorem significant_ne_nil_of_punct {mark : Punct} {u : Unit} (ran : punct mark c = .ok u d) :
    c.significant ≠ [] := by
  obtain ⟨t, taken, -⟩ := return_eq_ok ran
  intro ended
  rw [expect, Cursor.take?, ended] at taken
  cases taken

theorem structField_extends : Extends more c structField structField := by
  intro field d ran
  obtain ⟨p, passes, formed, -⟩ := structField_reads.ok ran
  refine ⟨passes.suffix, fun remains => ?_⟩
  obtain ⟨field', e, ran', sameField, -, -⟩ := structField_finds formed passes.followedBy_terminals
  rw [structField_eq] at ran ran' ⊢
  obtain ⟨member, c₁, chosen, last⟩ := bind_eq_ok.mp ran
  obtain ⟨_, c₂, semicolonRan, completedRan⟩ := bind_eq_ok.mp last
  obtain ⟨member', e₁, chosen', last'⟩ := bind_eq_ok.mp ran'
  obtain ⟨_, e₂, semicolonRan', completedRan'⟩ := bind_eq_ok.mp last'
  -- the grammar says that a member of the same kind is found, so the same alternative finds it
  have same : member.withoutComment = member'.withoutComment := by
    rw [← withoutComment_of_completed completedRan, ← withoutComment_of_completed completedRan',
      sameField]
  obtain ⟨rfl, rfl⟩ := choose_followedBy chosen chosen'
    (fun r mem memberRan =>
      (memberAlternatives_extend mem memberRan).2 (significant_ne_nil_of_punct semicolonRan))
    (fun r mem r' mem' memberRan memberRan' =>
      memberAlternatives_unique mem mem' memberRan memberRan' same)
  refine bind_eq_ok.mpr ⟨_, _, chosen', bind_eq_ok.mpr ⟨_, _, punct_followedBy semicolonRan, ?_⟩⟩
  exact (completed_extends _ completedRan).2 remains

theorem length_ahead_of_structField {field : StructField} (ran : structField c = .ok field d) :
    d.ahead.length < c.ahead.length := by
  obtain ⟨p, passes, formed, -⟩ := structField_reads.ok ran
  refine passes.length_ahead_lt fun nothing => ?_
  have start := nextKind?_of_structFieldForm formed []
  rw [nothing] at start
  simp at start

theorem structFields_extends {n n' : Nat} (fits : c.ahead.length ≤ n) (fits' : n ≤ n') :
    Extends more c (structFields n) (structFields n') := by
  induction n generalizing n' c with
  | zero =>
      refine .at_end rfl ?_
      rw [Cursor.significant, List.length_eq_zero_iff.mp (Nat.le_zero.mp fits)]
      rfl
  | succ n ih =>
      obtain ⟨n', rfl⟩ : ∃ k, n' = k + 1 := ⟨n' - 1, by omega⟩
      by_cases ended : c.significant = []
      · exact .at_end (structFields_at_end ended (n + 1)) ended
      · refine .get_bind ?_
        rw [Cursor.next?_followedBy ended]
        refine (isAt_extends _).bind fun close d _ suffix => ?_
        cases c.next?.isNone || close with
        | true => exact .pure _
        | false =>
            refine structField_extends.bind fun field e fieldRan _ => ?_
            have shorter := length_ahead_of_structField fieldRan
            have noLonger := suffix.length_le
            have restFits : e.ahead.length ≤ n := by omega
            exact (ih restFits (Nat.le_of_succ_le_succ fits')).map _

theorem structDecl_extends : Extends more c structDecl structDecl := by
  refine (keyword_extends _).bind fun _ c₁ _ _ => ?_
  refine (keyword_extends _).bind fun _ c₂ _ _ => ?_
  refine (punct_extends _).bind fun _ c₃ _ _ => ?_
  refine .get_bind ?_
  have rounds : c₃.ahead.length ≤ (c₃.followedBy more).ahead.length := by
    rw [Cursor.followedBy, List.length_append]
    omega
  refine (structFields_extends (Nat.le_refl _) rounds).bind fun fields c₄ _ _ => ?_
  refine (punct_extends _).bind fun _ c₅ _ _ => ?_
  exact identifier_extends.map _

/-! ## Declarations -/

/-- The semicolon is ahead where what it ends has been read, so nothing has to be behind it. -/
theorem ended_followedBy {decl : Reader α} (extended : Extends more c decl decl) {a : α}
    (ran : ended decl c = .ok a d) : ended decl (c.followedBy more) = .ok a
    (d.followedBy more) := by
  obtain ⟨b, c₁, declRan, ran⟩ := bind_eq_ok.mp ran
  obtain ⟨u, c₂, semicolonRan, ran⟩ := bind_eq_ok.mp ran
  cases ran
  have declRan' := (extended declRan).2 (significant_ne_nil_of_punct semicolonRan)
  exact bind_eq_ok.mpr ⟨_, _, declRan', bind_eq_ok.mpr ⟨_, _, punct_followedBy semicolonRan, rfl⟩⟩

theorem declarationAlternatives_extend {r : Reader Declaration}
    (mem : r ∈ declarationAlternatives) {a : Declaration} (ran : r c = .ok a d) :
    r (c.followedBy more) = .ok a (d.followedBy more) := by
  simp only [declarationAlternatives, List.mem_cons, List.not_mem_nil, or_false] at mem
  rcases mem with rfl | rfl | rfl | rfl
  all_goals
    obtain ⟨b, declRan, rfl⟩ := return_eq_ok ran
    refine bind_eq_ok.mpr ⟨b, _, ended_followedBy ?_ declRan, rfl⟩
  · exact enumDecl_extends
  · exact aliasDecl_extends
  · exact functionDecl_extends
  · exact structDecl_extends

/-- The kind of a declaration tells the alternative that has found it. -/
theorem declarationAlternatives_unique {r r' : Reader Declaration}
    (mem : r ∈ declarationAlternatives) (mem' : r' ∈ declarationAlternatives)
    {a a' : Declaration} {c' d' : Cursor} (ran : r c = .ok a d) (ran' : r' c' = .ok a' d')
    (same : a.withoutComments? = a'.withoutComments?) : r = r' := by
  simp only [declarationAlternatives, List.mem_cons, List.not_mem_nil, or_false] at mem mem'
  rcases mem with rfl | rfl | rfl | rfl <;> rcases mem' with rfl | rfl | rfl | rfl
  all_goals first
    | rfl
    | obtain ⟨_, -, rfl⟩ := return_eq_ok ran
      obtain ⟨_, -, rfl⟩ := return_eq_ok ran'
      cases same

/-- What stands behind a declaration plays no part in reading it. -/
theorem declaration_followedBy {a : Declaration} (ran : declaration c = .ok a d) :
    declaration (c.followedBy more) = .ok a (d.followedBy more) := by
  obtain ⟨p, passes, a', erased, formed, -⟩ := declaration_reads.ok ran
  -- the grammar says only that some declaration is found, and comments apart which one
  obtain ⟨b, e, ran', erased', -, -⟩ := declaration_finds formed passes.followedBy_terminals
  rw [declaration_eq] at ran ran' ⊢
  obtain ⟨rfl, rfl⟩ := choose_followedBy ran ran'
    (fun r mem declRan => declarationAlternatives_extend mem declRan)
    (fun r mem r' mem' declRan declRan' =>
      declarationAlternatives_unique mem mem' declRan declRan' (erased.trans erased'.symm))
  exact ran'

/-! ## The loop over a header -/

theorem orComment_eq_ok {start : Position} {r : Reader α} {a : α} :
    orComment start r c = .ok a d ↔ r c = .ok a d := by
  unfold orComment
  cases r c <;> simp

/-- A header ends where a declaration may start, so with more tokens behind it reading goes on with
    these. -/
theorem declarations_followedBy {n n' : Nat} (fits : c.ahead.length ≤ n)
    (fits' : n + more.length ≤ n') {ds : List Declaration} (ran : declarations n c = .ok ds d) :
    d.ahead = [] ∧ ∃ m, more.length ≤ m ∧
      declarations n' (c.followedBy more) =
        (do return ds ++ (← declarations m) : Reader (List Declaration)) (d.followedBy more) := by
  -- a declaration or a comment has been read, and the induction hypothesis is about the others
  have joined {first : Declaration} {rest : List Declaration} {c₁ : Cursor} {k m : Nat}
      (restRan : declarations k c₁ =
        (do return rest ++ (← declarations m) : Reader (List Declaration)) (d.followedBy more)) :
      (do return first :: (← declarations k) : Reader (List Declaration)) c₁ =
        (do return (first :: rest) ++ (← declarations m) : Reader (List Declaration))
          (d.followedBy more) := by
    rw [bind_apply, restRan, bind_apply, bind_apply]
    cases declarations m (d.followedBy more) <;> rfl
  induction n generalizing n' c ds with
  | zero =>
      have ahead : c.ahead = [] := List.length_eq_zero_iff.mp (Nat.le_zero.mp fits)
      cases ran
      refine ⟨ahead, n', by omega, ?_⟩
      simp
  | succ n ih =>
      obtain ⟨n', rfl⟩ : ∃ k, n' = k + 1 := ⟨n' - 1, by omega⟩
      cases ahead : c.ahead with
      | nil =>
          rw [declarations_of_nil ahead] at ran
          cases ran
          refine ⟨ahead, n' + 1, by omega, ?_⟩
          simp
      | cons t rest =>
          have ahead' : (c.followedBy more).ahead = t :: (rest ++ more) := by
            rw [Cursor.followedBy, ahead]
            rfl
          have rounds : n + more.length ≤ n' := by omega
          rw [ahead, List.length_cons] at fits
          cases commented : t.isComment with
          | true =>
              rw [declarations_of_comment ahead commented] at ran
              obtain ⟨ds, laterRan, rfl⟩ := return_eq_ok ran
              obtain ⟨ended, m, enough, restRan⟩ :=
                ih (c := { c with ahead := rest }) (Nat.le_of_succ_le_succ fits) rounds laterRan
              refine ⟨ended, m, enough, ?_⟩
              rw [declarations_of_comment ahead' commented]
              exact joined restRan
          | false =>
              rw [declarations_of_significant ahead commented] at ran
              obtain ⟨first, c₁, firstRan, ran⟩ := bind_eq_ok.mp ran
              obtain ⟨ds, laterRan, rfl⟩ := return_eq_ok ran
              have shorter := length_ahead_of_declaration firstRan
              rw [ahead, List.length_cons] at shorter
              obtain ⟨ended, m, enough, restRan⟩ := ih (c := c₁) (by omega) rounds laterRan
              refine ⟨ended, m, enough, ?_⟩
              have firstRan' : declaration (c.followedBy more) = .ok first (c₁.followedBy more) :=
                declaration_followedBy (orComment_eq_ok.mp firstRan)
              rw [declarations_of_significant ahead' commented, bind_apply,
                orComment_eq_ok.mpr firstRan']
              exact joined restRan

end Reader

end InterfaceHeader
