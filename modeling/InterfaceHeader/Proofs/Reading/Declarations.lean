import InterfaceHeader.Proofs.Grammar.DeclarationSoundness
import InterfaceHeader.Proofs.Reading.Types

/-!
# Reading declarations side by side

Every reader of a declaration runs in parallel with itself at corresponding cursors. What it finds
is the same on both sides but for the comments in it, of which the same is shown.
-/

namespace InterfaceHeader

/-! ## Comments in a tree -/

/-- A value with something done to its comment. -/
def EnumValue.mapComment (f : Option String → Option String) (v : EnumValue) : EnumValue :=
  { v with comment := f v.comment }

/-- An enumeration with something done to its comments. -/
def EnumDecl.mapComments (f : Option String → Option String) (e : EnumDecl) : EnumDecl :=
  { e with values := e.values.map (·.mapComment f) }

/-- A member with something done to its comment. -/
def StructField.mapComment (f : Option String → Option String) : StructField → StructField
  | .data field => .data field
  | .method field => .method { field with comment := f field.comment }

/-- A structure with something done to its comments. -/
def StructDecl.mapComments (f : Option String → Option String) (s : StructDecl) : StructDecl :=
  { s with fields := s.fields.map (·.mapComment f) }

/-- A declaration with something done to the comments in it. -/
def Declaration.mapComments (f : Option String → Option String) : Declaration → Declaration
  | .comment text => .comment text
  | .enum decl => .enum (decl.mapComments f)
  | .typeAlias decl => .typeAlias decl
  | .function decl => .function decl
  | .struct decl => .struct (decl.mapComments f)

namespace Reader

/-- The two forms of a member. -/
def memberAlternatives : List (Reader StructField) :=
  [do return .data (← variableField), do return .method (← methodField)]

/-- A member with the comment that trails it, unless it has one. -/
def completed : StructField → Reader StructField
  | .data field => pure (.data field)
  | .method field => do return .method ⟨field.function, ← orTrailing field.comment⟩

theorem orTrailing_bind {α : Type} (comment? : Option String) (f : Option String → Reader α) :
    orTrailing comment? >>= f =
      if comment?.isSome then pure comment? >>= f else trailingComment >>= f := by
  unfold orTrailing
  split <;> rfl

theorem structField_eq :
    structField = (do
      let field ← choose memberAlternatives
      punct .semicolon
      completed field) := by
  unfold structField
  congr 1
  funext field
  congr 1
  funext _
  match field with
  | .data _ => rfl
  | .method ⟨_, none⟩ => rfl
  | .method ⟨_, some _⟩ => rfl

/-- The four forms of a declaration. -/
def declarationAlternatives : List (Reader Declaration) :=
  [do return .enum (← ended enumDecl),
    do return .typeAlias (← ended aliasDecl),
    do return .function (← ended functionDecl),
    do return .struct (← ended structDecl)]

theorem declaration_eq : declaration = choose declarationAlternatives := rfl

theorem structFields_at_end {c : Cursor} (ended : c.significant = []) (n : Nat) :
    structFields n c = .ok [] c := by
  cases n with
  | zero => rfl
  | succ n =>
      have noNext : c.next? = none := by
        rw [Cursor.next?, ended]
        rfl
      show (isAt (.punct .rightBrace) >>= fun close =>
        if c.next?.isNone || close then pure [] else _) c = _
      rw [noNext]
      rfl

/-! ## The loop over a header -/

variable {c : Cursor} {t : Token} {rest : List Token}

theorem comment_of_isComment (ahead : c.ahead = t :: rest) (isComment : t.isComment = true) :
    comment c = .ok (some t.lexeme) { c with ahead := rest } := by
  unfold comment Cursor.takeComment?
  rw [ahead]
  simp only [isComment, if_true]

theorem comment_of_significant (ahead : c.ahead = t :: rest) (noComment : t.isComment = false) :
    comment c = .ok none c := by
  unfold comment Cursor.takeComment?
  rw [ahead]
  simp only [noComment, Bool.false_eq_true, if_false]

theorem comment_of_nil (ahead : c.ahead = []) : comment c = .ok none c := by
  unfold comment Cursor.takeComment?
  rw [ahead]

theorem declarations_of_comment (ahead : c.ahead = t :: rest) (isComment : t.isComment = true)
    (n : Nat) :
    declarations (n + 1) c =
      (do return .comment t.lexeme :: (← declarations n) : Reader (List Declaration))
        { c with ahead := rest } := by
  rw [declarations, bind_apply, comment_of_isComment ahead isComment]

theorem declarations_of_significant (ahead : c.ahead = t :: rest) (noComment : t.isComment = false)
    (n : Nat) :
    declarations (n + 1) c =
      (orComment t.position declaration >>= fun first => do
        return first :: (← declarations n)) c := by
  have upcoming : c.next? = some t := by
    rw [Cursor.next?, Cursor.significant, ahead, List.dropWhile_cons_of_neg (by simp [noComment])]
    rfl
  have looked : (get : Reader Cursor) c = .ok c c := rfl
  rw [declarations, bind_apply, comment_of_significant ahead noComment]
  dsimp only
  rw [bind_apply, looked]
  simp only [upcoming]

theorem declarations_of_nil (ahead : c.ahead = []) (n : Nat) : declarations n c = .ok [] c := by
  cases n with
  | zero => rfl
  | succ n =>
      have noNext : c.next? = none := by
        rw [Cursor.next?, Cursor.significant, ahead]
        rfl
      have looked : (get : Reader Cursor) c = .ok c c := rfl
      rw [declarations, bind_apply, comment_of_nil ahead]
      dsimp only
      rw [bind_apply, looked]
      simp only [noNext]
      rfl

/-- A declaration takes at least one token. -/
theorem length_ahead_of_declaration {start : Position} {d : Declaration} {c' : Cursor}
    (ran : orComment start declaration c = .ok d c') : c'.ahead.length < c.ahead.length := by
  obtain ⟨p, passes, d', -, declForm, -⟩ := (orComment_reads declaration_reads start).ok ran
  exact passes.length_ahead_lt (ne_nil_of_declarationForm declForm)

end Reader

namespace Correspondence

open Reader

variable {K : Correspondence} {fresh : Bool} {n : Nat}

/-! ## Enumerations -/

theorem initializer_parallel :
    K.Parallel (K.At fresh n) initializer initializer (· = ·) (K.At true (n + 1)) := by
  refine (isAt_parallel _).bind fun isInt isInt' same => ?_
  subst same
  cases isInt with
  | true =>
      exact integer_parallel.map fun value value' sameValue => congrArg Initializer.int sameValue
  | false =>
      refine (isAt_parallel _).bind fun isName isName' same => ?_
      subst same
      cases isName with
      | true =>
          exact identifier_parallel.map fun name name' sameName =>
            congrArg Initializer.reference sameName
      | false => exact .fail _

theorem enumValue_parallel :
    K.Parallel (K.At fresh n) enumValue enumValue (· = ·) (K.At true (n + 1)) := by
  refine identifier_parallel.bind fun name name' same => ?_
  subst same
  refine accept_bind_parallel (fun _ _ _ => ?_) (.pure rfl fun _ _ aligned => aligned)
  refine (initializer_parallel.map fun init init' sameInit => ?_).weaken fun _ _ aligned =>
    aligned.lower (by omega)
  rw [sameInit]

theorem enumValues_parallel {m m' : Nat} (reaches : K.total < m + n) (reaches' : K.total < m' + n) :
    K.Parallel (K.At fresh n) (enumValues m) (enumValues m')
      (fun vs vs' => vs.map (·.mapComment K.shown) = vs'.map (·.mapComment K.shown))
      (K.At false n) := by
  induction m generalizing m' n fresh with
  | zero =>
      -- more tokens would have been consumed than there are
      intro c c' aligned
      have least := aligned.le_consumed
      have count := (K.count aligned.meets).1
      omega
  | succ m ih =>
      cases m' with
      | zero =>
          intro c c' aligned
          have least := aligned.le_consumed
          have count := (K.count aligned.meets).1
          omega
      | succ m' =>
          refine (isAt_parallel _).bind fun close close' same => ?_
          subst same
          cases close with
          | true => exact .pure rfl fun _ _ aligned => aligned.stale (Nat.le_refl n)
          | false =>
              refine enumValue_parallel.bind fun v v' same => ?_
              subst same
              refine trailingComment_parallel.bind fun direct direct' shown => ?_
              refine accept_bind_parallel (fun _ _ _ => ?_) ?_
              · dsimp only
                rw [← orTrailing_bind, ← orTrailing_bind]
                refine (orTrailing_parallel shown).bind fun comment comment' shown' => ?_
                have restParallel : K.Parallel (K.At false (n + 2)) (enumValues m) (enumValues m')
                    _ (K.At false (n + 2)) := ih (by omega) (by omega)
                refine (restParallel.weaken fun _ _ aligned => aligned.lower (by omega)).map
                  fun vs vs' sameValues => ?_
                rw [List.map_cons, List.map_cons, sameValues, EnumValue.mapComment,
                  EnumValue.mapComment, shown']
              · refine .pure ?_ fun _ _ aligned => aligned.lower (by omega)
                rw [List.map_cons, List.map_cons, EnumValue.mapComment, EnumValue.mapComment,
                  shown]

theorem enumDecl_parallel :
    K.Parallel (K.At fresh n) enumDecl enumDecl
      (fun e e' => e.mapComments K.shown = e'.mapComments K.shown) (K.At true (n + 1)) := by
  refine (keyword_parallel _).bind fun _ _ _ => ?_
  refine (keyword_parallel _).bind fun _ _ _ => ?_
  refine (punct_parallel _).bind fun _ _ _ => ?_
  refine .get_bind fun c c' aligned => ?_
  have least := aligned.le_consumed
  obtain ⟨bound, bound'⟩ := aligned.total_le_ahead
  refine (enumValues_parallel (by omega) (by omega)).bind fun vs vs' sameValues => ?_
  refine (punct_parallel _).bind fun _ _ _ => ?_
  refine ((accept_parallel _).weaken fun _ _ aligned' => aligned'.lower (by omega)).map
    fun name? name?' nameAlike => ?_
  rw [EnumDecl.mapComments, EnumDecl.mapComments, sameValues, Token.Alike.lexeme_eq nameAlike]

/-! ## Aliases and function pointers -/

theorem aliasDecl_parallel :
    K.Parallel (K.At fresh n) aliasDecl aliasDecl (· = ·) (K.At true (n + 1)) := by
  refine (keyword_parallel _).bind fun _ _ _ => ?_
  refine primitive_parallel.bind fun type type' sameType => ?_
  refine (identifier_parallel.weaken fun _ _ aligned => aligned.lower (by omega)).map
    fun name name' sameName => ?_
  rw [sameType, sameName]

theorem functionDecl_parallel :
    K.Parallel (K.At fresh n) functionDecl functionDecl (· = ·) (K.At true (n + 1)) := by
  refine (keyword_parallel _).bind fun _ _ _ => ?_
  exact functionType_parallel.weaken fun _ _ aligned => aligned.lower (by omega)

/-! ## Structures -/

theorem variableField_parallel :
    K.Parallel (K.At fresh n) variableField variableField (· = ·) (K.At true (n + 1)) := by
  refine primitive_parallel.bind fun type type' sameType => ?_
  refine (identifier_parallel.weaken fun _ _ aligned => aligned.lower (by omega)).map
    fun name name' sameName => ?_
  rw [sameType, sameName]

theorem methodField_parallel :
    K.Parallel (K.At fresh n) methodField methodField
      (fun m m' => m.function = m'.function ∧ K.shown m.comment = K.shown m'.comment)
      (K.At false (n + 1)) := by
  have argumentsParallel : K.Parallel (K.At true (n + 1)) (argumentList argument)
      (argumentList argument) (· = ·) (K.At true (n + 1 + 1)) :=
    argumentList_parallel fun _ _ _ => argument_parallel
  refine (signature_parallel
    (argumentsParallel.weaken fun _ _ aligned => aligned.lower (by omega))).bind
      fun f f' sameFunction => ?_
  exact comment_parallel.map fun comment comment' shown => ⟨sameFunction, shown⟩

theorem memberAlternatives_parallel :
    List.Forall₂
      (fun r r' => K.Parallel (K.At fresh n) r r'
        (fun field field' => field.mapComment K.shown = field'.mapComment K.shown)
        (K.At false (n + 1)))
      memberAlternatives memberAlternatives := by
  refine .cons ?_ (.cons ?_ .nil)
  · refine (variableField_parallel.weaken fun _ _ aligned => aligned.stale (Nat.le_refl _)).map
      fun v v' same => ?_
    rw [same]
  · refine methodField_parallel.map fun m m' same => ?_
    rw [StructField.mapComment, StructField.mapComment, same.1, same.2]

theorem completed_parallel {field field' : StructField}
    (same : field.mapComment K.shown = field'.mapComment K.shown) :
    K.Parallel (K.At true n) (completed field) (completed field')
      (fun field field' => field.mapComment K.shown = field'.mapComment K.shown)
      (K.At false n) := by
  match field, field', same with
  | .data v, .data v', same => exact .pure same fun _ _ aligned => aligned.stale (Nat.le_refl n)
  | .method ⟨f, comment⟩, .method ⟨f', comment'⟩, same =>
      obtain ⟨rfl, shown⟩ : f = f' ∧ K.shown comment = K.shown comment' := by
        simpa [StructField.mapComment] using same
      refine (orTrailing_parallel shown).map fun last last' shown' => ?_
      rw [StructField.mapComment, StructField.mapComment, shown']

theorem structField_parallel :
    K.Parallel (K.At fresh n) structField structField
      (fun field field' => field.mapComment K.shown = field'.mapComment K.shown)
      (K.At false (n + 1)) := by
  rw [structField_eq]
  refine (choose_parallel memberAlternatives_parallel).bind fun field field' same => ?_
  refine (punct_parallel _).bind fun _ _ _ => ?_
  exact (completed_parallel same).weaken fun _ _ aligned => aligned.lower (by omega)

theorem structFields_parallel {m m' : Nat} (reaches : K.total ≤ m + n)
    (reaches' : K.total ≤ m' + n) :
    K.Parallel (K.At fresh n) (structFields m) (structFields m')
      (fun fields fields' =>
        fields.map (·.mapComment K.shown) = fields'.map (·.mapComment K.shown))
      (K.At false n) := by
  induction m generalizing m' n fresh with
  | zero =>
      intro c c' aligned
      obtain ⟨ended, ended'⟩ := aligned.at_end (by omega)
      rw [structFields_at_end ended, structFields_at_end ended']
      exact .ok rfl (aligned.stale (Nat.le_refl n))
  | succ m ih =>
      cases m' with
      | zero =>
          intro c c' aligned
          obtain ⟨ended, ended'⟩ := aligned.at_end (by omega)
          rw [structFields_at_end ended, structFields_at_end ended']
          exact .ok rfl (aligned.stale (Nat.le_refl n))
      | succ m' =>
          refine .get_bind fun c c' aligned => ?_
          have least := aligned.le_consumed
          refine (isAt_parallel _).bind fun close close' same => ?_
          subst same
          have sameEnd : c.next?.isNone = c'.next?.isNone := by
            rw [← Option.not_isSome, ← Option.not_isSome, next?_isSome_eq aligned.meets]
          rw [sameEnd]
          cases c'.next?.isNone || close with
          | true => exact .pure rfl fun _ _ aligned' => aligned'.stale least
          | false =>
              refine structField_parallel.bind fun field field' sameField => ?_
              have restParallel : K.Parallel (K.At false (c.consumed + 1)) (structFields m)
                  (structFields m') _ (K.At false (c.consumed + 1)) := ih (by omega) (by omega)
              refine (restParallel.weaken fun _ _ aligned' => aligned'.lower (by omega)).map
                fun fields fields' sameFields => ?_
              rw [List.map_cons, List.map_cons, sameField, sameFields]

theorem structDecl_parallel :
    K.Parallel (K.At fresh n) structDecl structDecl
      (fun s s' => s.mapComments K.shown = s'.mapComments K.shown) (K.At true (n + 1)) := by
  refine (keyword_parallel _).bind fun _ _ _ => ?_
  refine (keyword_parallel _).bind fun _ _ _ => ?_
  refine (punct_parallel _).bind fun _ _ _ => ?_
  refine .get_bind fun c c' aligned => ?_
  have least := aligned.le_consumed
  obtain ⟨bound, bound'⟩ := aligned.total_le_ahead
  refine (structFields_parallel bound bound').bind fun fields fields' sameFields => ?_
  refine (punct_parallel _).bind fun _ _ _ => ?_
  refine (identifier_parallel.weaken fun _ _ aligned' => aligned'.lower (by omega)).map
    fun name name' sameName => ?_
  rw [StructDecl.mapComments, StructDecl.mapComments, sameFields, sameName]

/-! ## Declarations -/

theorem ended_parallel {α : Type} {decl : Reader α} {value : α → α → Prop}
    (parallel : K.Parallel (K.At fresh n) decl decl value (K.At true (n + 1))) :
    K.Parallel (K.At fresh n) (ended decl) (ended decl) value (K.At true (n + 1)) := by
  refine parallel.bind fun a a' related => ?_
  refine (punct_parallel _).bind fun _ _ _ => ?_
  exact .pure related fun _ _ aligned => aligned.lower (by omega)

theorem declarationAlternatives_parallel :
    List.Forall₂
      (fun r r' => K.Parallel (K.At fresh n) r r'
        (fun d d' => d.mapComments K.shown = d'.mapComments K.shown) (K.At true (n + 1)))
      declarationAlternatives declarationAlternatives := by
  refine .cons ?_ (.cons ?_ (.cons ?_ (.cons ?_ .nil)))
  · exact (ended_parallel enumDecl_parallel).map fun e e' same => congrArg Declaration.enum same
  · refine (ended_parallel aliasDecl_parallel).map fun a a' same => ?_
    rw [same]
  · refine (ended_parallel functionDecl_parallel).map fun f f' same => ?_
    rw [same]
  · exact (ended_parallel structDecl_parallel).map fun s s' same => congrArg Declaration.struct same

theorem declaration_parallel :
    K.Parallel (K.At fresh n) declaration declaration
      (fun d d' => d.mapComments K.shown = d'.mapComments K.shown) (K.At true (n + 1)) := by
  rw [declaration_eq]
  exact choose_parallel declarationAlternatives_parallel

theorem orComment_parallel {α : Type} {r : Reader α} {value : α → α → Prop}
    {post : Cursor → Cursor → Prop} {start start' : Position} (placed : K.Place start start')
    (parallel : K.Parallel (K.At fresh n) r r value post) :
    K.Parallel (K.At fresh n) (orComment start r) (orComment start' r) value post := by
  intro c c' aligned
  have outcomes := parallel aligned
  unfold orComment
  generalize r c = result, r c' = result' at outcomes ⊢
  cases outcomes with
  | ok related stops => exact .ok related stops
  | error alike stops =>
      simp only [position_eq_iff alike placed]
      split
      · exact .error (expecting_alike alike _) stops
      · exact .error alike stops

/-- A round of the loop over a header reads a declaration on both sides. It leaves fewer tokens, so
    what is known about shorter rests says how the loop goes on. -/
theorem declarations_of_round {n n' : Nat} {c c' : Cursor} {t t' : Token} {rest rest' : List Token}
    {value : List Declaration → List Declaration → Prop} {post : Cursor → Cursor → Prop}
    (meets : K.Meets c c') (ahead : c.ahead = t :: rest) (ahead' : c'.ahead = t' :: rest')
    (noComment : t.isComment = false) (noComment' : t'.isComment = false)
    (placed : K.Place t.position t'.position) (fits : rest.length ≤ n) (fits' : rest'.length ≤ n')
    (joined : ∀ {d d' : Declaration} {ds ds' : List Declaration},
      d.mapComments K.shown = d'.mapComments K.shown → value ds ds' → value (d :: ds) (d' :: ds'))
    (later : ∀ {e e' : Cursor}, K.Meets e e' → e.ahead.length ≤ n → e'.ahead.length ≤ n' →
      K.Outcomes value post (declarations n e) (declarations n' e')) :
    K.Outcomes value post (declarations (n + 1) c) (declarations (n' + 1) c') := by
  have aligned : K.At false c.consumed c c' := ⟨meets, fun never => (by cases never), Nat.le_refl _⟩
  have first := (orComment_parallel placed declaration_parallel aligned).strengthen
    (fun d e ran => length_ahead_of_declaration ran)
    (fun d e ran => length_ahead_of_declaration ran)
  rw [declarations_of_significant ahead noComment, declarations_of_significant ahead' noComment']
  refine first.bind fun d d' e e' related stopped => ?_
  obtain ⟨stops, shorter, shorter'⟩ := stopped
  rw [ahead, List.length_cons] at shorter
  rw [ahead', List.length_cons] at shorter'
  refine (later stops.meets (by omega) (by omega)).bind fun ds ds' _ _ relatedRest holds => ?_
  exact .ok (joined related relatedRest) holds

end Correspondence

end InterfaceHeader
