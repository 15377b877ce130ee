import InterfaceHeader.Declaration.Choice

/-!
# How a choice ends

A choice goes by one alternative, the first that succeeds or that fails too far on to be given up,
or by none, and then its error is made of the errors of all alternatives. Each alternative is run
at the cursor where the choice started, so what becomes of it does not depend on those before it.
-/

namespace InterfaceHeader.Reader

variable {α : Type}

/-- The alternative fails where the choice can still go on with the next one. -/
def GivesUp (r : Reader α) (c : Cursor) : Prop :=
  ∃ e d, r c = .error e d ∧ d.consumed ≤ c.consumed + lookahead

/-- The alternative succeeds, or fails after more tokens than a choice looks ahead. -/
def Decides (r : Reader α) (c : Cursor) : Prop :=
  (∃ a d, r c = .ok a d) ∨ ∃ e d, r c = .error e d ∧ c.consumed + lookahead < d.consumed

theorem decides_or_givesUp (r : Reader α) (c : Cursor) : Decides r c ∨ GivesUp r c := by
  cases ran : r c with
  | ok a d => exact Or.inl (Or.inl ⟨a, d, ran⟩)
  | error e d =>
      rcases Nat.lt_or_ge (c.consumed + lookahead) d.consumed with far | near
      · exact Or.inl (Or.inr ⟨e, d, ran, far⟩)
      · exact Or.inr ⟨e, d, ran, near⟩

/-- A choice goes by the first alternative that decides, if there is one. -/
theorem exists_decides_or_givesUp (alternatives : List (Reader α)) (c : Cursor) :
    (∃ earlier r later, alternatives = earlier ++ r :: later ∧ (∀ q ∈ earlier, GivesUp q c) ∧
      Decides r c) ∨ ∀ r ∈ alternatives, GivesUp r c := by
  induction alternatives with
  | nil => exact Or.inr fun r mem => by cases mem
  | cons first others ih =>
      rcases decides_or_givesUp first c with decides | givesUp
      · exact Or.inl ⟨[], first, others, rfl, List.forall_mem_nil _, decides⟩
      · rcases ih with ⟨earlier, r, later, rfl, earlierGiveUp, decides⟩ | allGiveUp
        · exact Or.inl ⟨first :: earlier, r, later, rfl,
            List.forall_mem_cons.mpr ⟨givesUp, earlierGiveUp⟩, decides⟩
        · exact Or.inr (List.forall_mem_cons.mpr ⟨givesUp, allGiveUp⟩)

/-- The errors of the alternatives that fail, in order. -/
def failures (alternatives : List (Reader α)) (c : Cursor) : List SyntaxError :=
  alternatives.filterMap fun r =>
    match r c with
    | .ok _ _ => none
    | .error e _ => some e

theorem failures_cons {r : Reader α} {c d : Cursor} {e : SyntaxError} (ran : r c = .error e d)
    (others : List (Reader α)) : failures (r :: others) c = e :: failures others c := by
  simp [failures, ran]

theorem mem_failures {alternatives : List (Reader α)} {c : Cursor} {e : SyntaxError} :
    e ∈ failures alternatives c ↔ ∃ r ∈ alternatives, ∃ d, r c = .error e d := by
  simp only [failures, List.mem_filterMap]
  constructor
  · rintro ⟨r, mem, failed⟩
    cases ran : r c with
    | ok a d =>
        rw [ran] at failed
        cases failed
    | error e' d =>
        rw [ran] at failed
        cases failed
        exact ⟨r, mem, d, ran⟩
  · rintro ⟨r, mem, d, ran⟩
    exact ⟨r, mem, by rw [ran]⟩

/-- An alternative that decides is run as it would be alone. -/
theorem chooseFrom_decides {r : Reader α} {c : Cursor} (decides : Decides r c)
    (deepest? : Option SyntaxError) (later : List (Reader α)) :
    chooseFrom c deepest? (r :: later) = r c := by
  rw [chooseFrom]
  rcases decides with ⟨a, d, ran⟩ | ⟨e, d, ran, far⟩
  · rw [ran]
  · have beyond : lookahead < d.consumed - c.consumed := by omega
    rw [ran]
    exact if_pos beyond

/-- An alternative that is given up leaves its error and nothing else. -/
theorem chooseFrom_givesUp {r : Reader α} {c d : Cursor} {e : SyntaxError}
    (ran : r c = .error e d) (near : d.consumed ≤ c.consumed + lookahead)
    (deepest? : Option SyntaxError) (later : List (Reader α)) :
    chooseFrom c deepest? (r :: later) =
      chooseFrom c (some ((deepest?.map (·.deepest e)).getD e)) later := by
  have within : ¬ lookahead < d.consumed - c.consumed := by omega
  rw [chooseFrom, ran]
  exact if_neg within

theorem choose_decides {earlier later : List (Reader α)} {r : Reader α} {c : Cursor}
    (givesUp : ∀ q ∈ earlier, GivesUp q c) (decides : Decides r c) :
    choose (earlier ++ r :: later) c = r c := by
  have fromAny (deepest? : Option SyntaxError) :
      chooseFrom c deepest? (earlier ++ r :: later) = r c := by
    induction earlier generalizing deepest? with
    | nil => exact chooseFrom_decides decides deepest? later
    | cons first earlier ih =>
        obtain ⟨⟨e, d, ran, near⟩, givesUp⟩ := List.forall_mem_cons.mp givesUp
        rw [List.cons_append, chooseFrom_givesUp ran near]
        exact ih givesUp _
  exact fromAny none

/-- Of alternatives that are all given up the deepest error is left, at the start of the choice. -/
theorem chooseFrom_givesUp_all {alternatives : List (Reader α)} {c : Cursor}
    (givesUp : ∀ r ∈ alternatives, GivesUp r c) (best : SyntaxError) :
    chooseFrom c (some best) alternatives =
      .error ((failures alternatives c).foldl SyntaxError.deepest best) c := by
  induction alternatives generalizing best with
  | nil => rfl
  | cons r others ih =>
      obtain ⟨⟨e, d, ran, near⟩, othersGiveUp⟩ := List.forall_mem_cons.mp givesUp
      rw [chooseFrom_givesUp ran near, failures_cons ran]
      exact ih othersGiveUp _

theorem choose_givesUp {first : Reader α} {others : List (Reader α)} {c : Cursor}
    (givesUp : ∀ r ∈ first :: others, GivesUp r c) :
    ∃ e d, first c = .error e d ∧
      choose (first :: others) c =
        .error ((failures others c).foldl SyntaxError.deepest e) c := by
  obtain ⟨⟨e, d, ran, near⟩, othersGiveUp⟩ := List.forall_mem_cons.mp givesUp
  refine ⟨e, d, ran, ?_⟩
  rw [choose, chooseFrom_givesUp ran near]
  exact chooseFrom_givesUp_all othersGiveUp e

end InterfaceHeader.Reader
