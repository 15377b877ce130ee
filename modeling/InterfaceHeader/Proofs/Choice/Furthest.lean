import InterfaceHeader.Proofs.Choice.Production

/-!
# The furthest failure

What a choice between productions does, for every place where it starts: it is the first
alternative that decides, run alone, or it fails where it started with the furthest of all errors.
Of several errors that come as far, the first one says where and what was found, and all of them
say what was expected. An alternative that is committed to inside another one commits every choice
around it, because the tokens are counted on from one choice into the next.
-/

namespace InterfaceHeader

namespace SyntaxError

/-- The error is made of those of several attempts: it stands where the first of the deepest ones
    stands, and expects what the deepest ones expect, each thing once, as they first name it. -/
structure FurthestOf (e : SyntaxError) (errors : List SyntaxError) : Prop where
  depth_le : ∀ f ∈ errors, f.depth ≤ e.depth
  first : ∃ before deepest after, errors = before ++ deepest :: after ∧
    (∀ f ∈ before, f.depth < e.depth) ∧ deepest.depth = e.depth ∧
    e.position = deepest.position ∧ e.found = deepest.found
  expected : e.expected =
    ((errors.filter fun f => f.depth = e.depth).flatMap SyntaxError.expected).eraseDups

theorem addNew_removeAll (entries : List String) (entry : String) (more : List String) :
    more.removeAll (addNew entries entry) =
      (more.removeAll entries).filter fun x => !(x == entry) := by
  unfold addNew List.removeAll
  rw [List.filter_filter]
  refine List.filter_congr fun x _ => ?_
  by_cases same : x = entry
  · subst same
    split <;> simp_all
  · split <;> simp [same]

/-- Merging expectations adds those that are new, in the order in which they are first named. -/
theorem foldl_addNew (entries more : List String) :
    more.foldl addNew entries = entries ++ (more.removeAll entries).eraseDups := by
  induction more generalizing entries with
  | nil => simp
  | cons entry more ih =>
      rw [List.foldl_cons, ih, addNew_removeAll]
      unfold addNew
      by_cases mem : entry ∈ entries
      · have dropped : (entry :: more).removeAll entries = more.removeAll entries := by
          simp [List.removeAll, mem]
        have gone : (more.removeAll entries).filter (fun x => !(x == entry)) =
            more.removeAll entries := by
          refine List.filter_eq_self.mpr fun x inRest => ?_
          have new : x ∉ entries := by simpa [List.removeAll] using (List.mem_filter.mp inRest).2
          simpa using fun same : x = entry => new (same ▸ mem)
        rw [if_pos mem, dropped, gone]
      · have kept : (entry :: more).removeAll entries = entry :: more.removeAll entries := by
          simp [List.removeAll, mem]
        rw [if_neg mem, kept, List.eraseDups_cons, List.append_assoc]
        rfl

theorem eraseDups_eq_self {entries : List String} (distinct : entries.Nodup) :
    entries.eraseDups = entries := by
  induction entries with
  | nil => rfl
  | cons entry entries ih =>
      obtain ⟨new, rest⟩ := List.nodup_cons.mp distinct
      have kept : entries.filter (fun x => !(x == entry)) = entries := by
        refine List.filter_eq_self.mpr fun x mem => ?_
        simpa using fun same : x = entry => new (same ▸ mem)
      rw [List.eraseDups_cons, kept, ih rest]

/-- Expectations that are merged one list after the other are those of all lists together. -/
theorem foldl_addNew_eraseDups (entries more : List String) :
    more.foldl addNew entries.eraseDups = (entries ++ more).eraseDups := by
  have whole (all : List String) : all.eraseDups = all.foldl addNew [] := by
    rw [foldl_addNew, List.nil_append]
    simp [List.removeAll]
  rw [whole entries, whole (entries ++ more), List.foldl_append]

theorem furthestOf_singleton {e : SyntaxError} (distinct : e.expected.Nodup) :
    e.FurthestOf [e] := by
  refine ⟨?_, ⟨[], e, [], rfl, List.forall_mem_nil _, rfl, rfl, rfl⟩, ?_⟩
  · intro f mem
    exact Nat.le_of_eq (congrArg depth (List.mem_singleton.mp mem))
  · simp [eraseDups_eq_self distinct]

@[simp] theorem depth_merge (e other : SyntaxError) : (e.merge other).depth = e.depth := rfl

/-- One more error makes the furthest one deeper, or adds to what it expects, or comes short of
    it. -/
theorem FurthestOf.deepest {e f : SyntaxError} {errors : List SyntaxError}
    (furthest : e.FurthestOf errors) (distinct : f.expected.Nodup) :
    (e.deepest f).FurthestOf (errors ++ [f]) := by
  unfold SyntaxError.deepest
  split
  · rename_i deeper
    have below : ∀ g ∈ errors, g.depth < f.depth :=
      fun g mem => Nat.lt_of_le_of_lt (furthest.depth_le g mem) deeper
    refine ⟨?_, ⟨errors, f, [], rfl, below, rfl, rfl, rfl⟩, ?_⟩
    · intro g mem
      rcases List.mem_append.mp mem with mem | mem
      · exact Nat.le_of_lt (below g mem)
      · exact Nat.le_of_eq (congrArg depth (List.mem_singleton.mp mem))
    · have shallower : (errors.filter fun g => g.depth = f.depth) = [] :=
        List.filter_eq_nil_iff.mpr fun g mem => by simpa using Nat.ne_of_lt (below g mem)
      simp [List.filter_append, shallower, eraseDups_eq_self distinct]
  · rename_i notDeeper
    obtain ⟨before, first, after, cut, beforeBelow, sameDepth, samePosition, sameFound⟩ :=
      furthest.first
    have cut' : errors ++ [f] = before ++ first :: (after ++ [f]) := by
      rw [cut, List.append_assoc, List.cons_append]
    have below : ∀ g ∈ errors ++ [f], g.depth ≤ e.depth := by
      intro g mem
      rcases List.mem_append.mp mem with mem | mem
      · exact furthest.depth_le g mem
      · rw [List.mem_singleton.mp mem]
        exact Nat.le_of_not_lt notDeeper
    split
    · rename_i same
      refine ⟨below, ⟨before, first, _, cut', beforeBelow, sameDepth, samePosition, sameFound⟩, ?_⟩
      rw [depth_merge, List.filter_append, List.flatMap_append]
      have last : [f].filter (fun g => g.depth = e.depth) = [f] := by simp [same]
      rw [last, ← foldl_addNew_eraseDups, ← furthest.expected]
      simp [merge, expecting]
    · rename_i other
      refine ⟨below, ⟨before, first, _, cut', beforeBelow, sameDepth, samePosition, sameFound⟩, ?_⟩
      have dropped : [f].filter (fun g => g.depth = e.depth) = [] := by
        simpa using fun equal : f.depth = e.depth => other equal.symm
      rw [List.filter_append, dropped, List.append_nil]
      exact furthest.expected

theorem FurthestOf.foldl {e : SyntaxError} {errors more : List SyntaxError}
    (furthest : e.FurthestOf errors) (distinct : ∀ f ∈ more, f.expected.Nodup) :
    (more.foldl SyntaxError.deepest e).FurthestOf (errors ++ more) := by
  induction more generalizing e errors with
  | nil => rwa [List.append_nil]
  | cons f more ih =>
      obtain ⟨first, distinct⟩ := List.forall_mem_cons.mp distinct
      have later := ih (furthest.deepest first) distinct
      rwa [List.append_assoc] at later

end SyntaxError

namespace Reader

variable {α β : Type}

/-- The choice fails with the error of the first alternative that is not given up. -/
def Commits (alternatives : List (Reader α)) (c : Cursor) (e : SyntaxError) (d : Cursor) : Prop :=
  ∃ earlier r later, alternatives = earlier ++ r :: later ∧ (∀ q ∈ earlier, GivesUp q c) ∧
    r c = .error e d ∧ c.consumed + lookahead < d.consumed

theorem Commits.choose_eq {alternatives : List (Reader α)} {c d : Cursor} {e : SyntaxError}
    (commits : Commits alternatives c e d) : choose alternatives c = .error e d := by
  obtain ⟨earlier, r, later, rfl, givesUp, ran, far⟩ := commits
  rw [choose_decides givesUp (Or.inr ⟨e, d, ran, far⟩), ran]

theorem Commits.far {alternatives : List (Reader α)} {c d : Cursor} {e : SyntaxError}
    (commits : Commits alternatives c e d) : c.consumed + lookahead < d.consumed := by
  obtain ⟨_, _, _, _, _, _, far⟩ := commits
  exact far

/-- A choice that fails beyond its budget is committed: given up, it would be where it started. -/
theorem commits_of_far {alternatives : List (Reader α)} {c d : Cursor} {e : SyntaxError}
    (ran : choose alternatives c = .error e d) (far : c.consumed + lookahead < d.consumed) :
    Commits alternatives c e d := by
  rcases exists_decides_or_givesUp alternatives c with
    ⟨earlier, r, later, rfl, givesUp, decides⟩ | allGiveUp
  · rw [choose_decides givesUp decides] at ran
    exact ⟨earlier, r, later, rfl, givesUp, ran, far⟩
  · have returned : d = c := by
      cases alternatives with
      | nil =>
          cases ran
          rfl
      | cons first others =>
          obtain ⟨e', d', -, chosen⟩ := choose_givesUp allGiveUp
          cases chosen.symm.trans ran
          rfl
    rw [returned] at far
    omega

/-- Where a commitment inside a run fails, the run fails. -/
theorem Calls.fails {inner : List (Reader β)} {r : Reader α} {c d stop : Cursor}
    {e : SyntaxError} (calls : Calls (choose inner) d r c) (commits : Commits inner d e stop) :
    ∃ e', r c = .error e' stop ∧ e'.position = e.position ∧ e'.found = e.found := by
  induction calls with
  | here => exact ⟨e, commits.choose_eq, rfl, rfl⟩
  | first _ ih =>
      obtain ⟨e', firstRan, same⟩ := ih
      exact ⟨e', by rw [bind_apply, firstRan], same⟩
  | second _ ran _ ih =>
      obtain ⟨e', nextRan, same⟩ := ih
      refine ⟨e', ?_, same⟩
      rw [bind_apply, ran]
      exact nextRan
  | @alternative _ earlier later r c givesUp called ih =>
      obtain ⟨e', innerRan, same⟩ := ih
      obtain ⟨passed, passes⟩ := called.passes
      have far := commits.far
      have count := passes.consumed
      have decides : Decides r c := Or.inr ⟨e', stop, innerRan, by omega⟩
      exact ⟨e', by rw [choose_decides givesUp decides, innerRan], same⟩
  | orComment start _ ih =>
      obtain ⟨e', innerRan, samePosition, sameFound⟩ := ih
      unfold Reader.orComment
      rw [innerRan]
      refine ⟨_, rfl, ?_⟩
      split <;> exact ⟨samePosition, sameFound⟩

/-- A choice between productions is the first alternative that decides, run where the choice
    starts. If there is none, the choice ends where it started, with the furthest of the errors of
    its alternatives. And if a choice inside of it is committed to an error, so is it. -/
theorem choose_furthest {alternatives : List (Reader α)} (nonempty : alternatives ≠ [])
    (productions : ∀ r ∈ alternatives, Production r) (c : Cursor) :
    (∀ earlier r later, alternatives = earlier ++ r :: later → (∀ q ∈ earlier, GivesUp q c) →
      Decides r c → choose alternatives c = r c) ∧
    ((∀ r ∈ alternatives, GivesUp r c) →
      ∃ e, choose alternatives c = .error e c ∧ e.FurthestOf (failures alternatives c)) ∧
    (∀ {β : Type} (inner : List (Reader β)) (d stop : Cursor) (e : SyntaxError),
      Calls (choose inner) d (choose alternatives) c → Commits inner d e stop →
        ∃ e', Commits alternatives c e' stop ∧ e'.position = e.position ∧ e'.found = e.found) := by
  refine ⟨?_, fun allGiveUp => ?_, fun inner d stop e calls commits => ?_⟩
  · rintro earlier r later rfl givesUp decides
    exact choose_decides givesUp decides
  · obtain ⟨first, others, rfl⟩ := List.exists_cons_of_ne_nil nonempty
    obtain ⟨e, d, firstRan, chosen⟩ := choose_givesUp allGiveUp
    refine ⟨_, chosen, ?_⟩
    have distinct : ∀ f ∈ failures (first :: others) c, f.expected.Nodup := by
      intro f failed
      obtain ⟨r, mem, d', memberRan⟩ := mem_failures.mp failed
      exact (productions r mem).expectsOnce memberRan
    rw [failures_cons firstRan] at distinct ⊢
    obtain ⟨firstDistinct, othersDistinct⟩ := List.forall_mem_cons.mp distinct
    exact (SyntaxError.furthestOf_singleton firstDistinct).foldl othersDistinct
  · obtain ⟨e', ran, same⟩ := calls.fails commits
    obtain ⟨passed, passes⟩ := calls.passes
    have far := commits.far
    have count := passes.consumed
    exact ⟨e', commits_of_far ran (by omega), same⟩

/-- The tokens of `typedef void`. -/
def unnamedTokens : List Token :=
  [⟨.keyword .typedef, "typedef", ⟨0, 1, 1⟩⟩, ⟨.identifier, "void", ⟨8, 1, 9⟩⟩]

/-- The tokens of `typedef struct { void (*f)(int a b`. -/
def overnamedTokens : List Token :=
  [⟨.keyword .typedef, "typedef", ⟨0, 1, 1⟩⟩, ⟨.keyword .struct, "struct", ⟨8, 1, 9⟩⟩,
    ⟨.punct .leftBrace, "\x7b", ⟨15, 1, 16⟩⟩, ⟨.identifier, "void", ⟨17, 1, 18⟩⟩,
    ⟨.punct .leftParen, "(", ⟨22, 1, 23⟩⟩, ⟨.punct .star, "*", ⟨23, 1, 24⟩⟩,
    ⟨.identifier, "f", ⟨24, 1, 25⟩⟩, ⟨.punct .rightParen, ")", ⟨25, 1, 26⟩⟩,
    ⟨.punct .leftParen, "(", ⟨26, 1, 27⟩⟩, ⟨.identifier, "int", ⟨27, 1, 28⟩⟩,
    ⟨.identifier, "a", ⟨31, 1, 32⟩⟩, ⟨.identifier, "b", ⟨33, 1, 34⟩⟩]

/-- The cursor behind the opening brace, in front of the member. -/
def overnamedMember : Cursor :=
  ⟨overnamedTokens.drop 3, 3, some ⟨15, 1, 16⟩⟩

/-- The choice between declarations comes to that between members. -/
theorem overnamedMember_called :
    Calls (choose memberAlternatives) overnamedMember (choose declarationAlternatives)
      (.ofTokens overnamedTokens) := by
  have givesUp : ∀ q ∈ declarationAlternatives.take 3, GivesUp q (.ofTokens overnamedTokens) := by
    refine List.forall_mem_cons.mpr ⟨⟨_, _, rfl, by decide⟩, ?_⟩
    refine List.forall_mem_cons.mpr ⟨⟨_, _, rfl, by decide⟩, ?_⟩
    exact List.forall_mem_singleton.mpr ⟨_, _, rfl, by decide⟩
  have inFields : Calls (choose memberAlternatives) overnamedMember (structFields 9)
      overnamedMember := by
    refine .second .get rfl (.second (.isAt _) rfl ?_)
    exact .first (.first (.here (.choose .memberAlternatives)))
  have inStruct : Calls (choose memberAlternatives) overnamedMember structDecl
      (.ofTokens overnamedTokens) := by
    refine .second (.keyword _) rfl (.second (.keyword _) rfl (.second (.punct _) rfl ?_))
    exact .second .get rfl (.first inFields)
  exact .alternative givesUp (.first (.first inStruct))

/-- In `typedef void`, an alias and a function come as far as the end, and both say what is missing
    there. In `typedef struct { void (*f)(int a b`, the choice between members is committed to a
    method, and so the one between declarations is to a structure. -/
theorem overnamedMember_committed :
    declarationAlternatives ≠ [] ∧ (∀ r ∈ declarationAlternatives, Production r) ∧
      (∃ e, choose declarationAlternatives (.ofTokens unnamedTokens) =
          .error e (.ofTokens unnamedTokens) ∧
        e.FurthestOf (failures declarationAlternatives (.ofTokens unnamedTokens)) ∧
        e.position = none ∧ e.expected = ["identifier", "'('"]) ∧
      ∃ e stop, Commits memberAlternatives overnamedMember e stop ∧
        e.position = some ⟨33, 1, 34⟩ ∧
        ∃ e', Commits declarationAlternatives (.ofTokens overnamedTokens) e' stop ∧
          e'.position = e.position := by
  have nonempty : declarationAlternatives ≠ [] := List.cons_ne_nil _ _
  have productions := Production.declarationAlternatives
  obtain ⟨-, furthest, -⟩ := choose_furthest nonempty productions (.ofTokens unnamedTokens)
  obtain ⟨-, -, commits⟩ := choose_furthest nonempty productions (.ofTokens overnamedTokens)
  refine ⟨nonempty, productions, ?_, ?_⟩
  · have allGiveUp : ∀ r ∈ declarationAlternatives, GivesUp r (.ofTokens unnamedTokens) := by
      refine List.forall_mem_cons.mpr ⟨⟨_, _, rfl, by decide⟩, ?_⟩
      refine List.forall_mem_cons.mpr ⟨⟨_, _, rfl, by decide⟩, ?_⟩
      refine List.forall_mem_cons.mpr ⟨⟨_, _, rfl, by decide⟩, ?_⟩
      exact List.forall_mem_singleton.mpr ⟨_, _, rfl, by decide⟩
    have ran : choose declarationAlternatives (.ofTokens unnamedTokens) =
        .error ⟨none, "end of input", ["identifier", "'('"]⟩ (.ofTokens unnamedTokens) := rfl
    obtain ⟨e, chosen, furthest⟩ := furthest allGiveUp
    cases chosen.symm.trans ran
    exact ⟨_, chosen, furthest, rfl, rfl⟩
  · have givesUp : ∀ q ∈ memberAlternatives.take 1, GivesUp q overnamedMember :=
      List.forall_mem_singleton.mpr ⟨_, _, rfl, by decide⟩
    have inner : Commits memberAlternatives overnamedMember
        ⟨some ⟨33, 1, 34⟩, "identifier 'b'", ["')'"]⟩
        ⟨overnamedTokens.drop 11, 11, some ⟨31, 1, 32⟩⟩ :=
      ⟨_, _, [], rfl, givesUp, rfl, by decide⟩
    obtain ⟨e', outer, samePosition, -⟩ := commits _ _ _ _ overnamedMember_called inner
    exact ⟨_, _, inner, rfl, e', outer, samePosition⟩

end Reader

end InterfaceHeader
