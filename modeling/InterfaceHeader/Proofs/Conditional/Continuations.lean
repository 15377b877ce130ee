import InterfaceHeader.Proofs.Conditional.Comments

/-!
# One physical line of a directive

A directive is the physical lines that it takes, joined. What stands on one of them decides neither
where the directive starts nor what the logical lines in front of it are. So with another line in
its place, `logicalFrom` finds the same lines in front, and the directive has the other line at the
same place of its text.
-/

namespace InterfaceHeader

/-! ## Joining -/

/-- What continued lines come to in front of the line that they go on with. -/
def joinedFront (earlier : List (List Char)) : List Char :=
  earlier.flatMap fun line => line.dropLast ++ [' ']

@[simp] theorem joinedFront_cons (line : List Char) (earlier : List (List Char)) :
    joinedFront (line :: earlier) = line.dropLast ++ ' ' :: joinedFront earlier := by
  simp [joinedFront]

theorem joinContinued_of_ended {line : List Char} (ended : isContinued line = false)
    (rest : List (List Char)) : joinContinued line rest = (line, 0) := by
  cases rest <;> simp [joinContinued, ended]

theorem isContinued_append (front : List Char) {line : List Char} (some : line ≠ []) :
    isContinued (front ++ line) = isContinued line := by
  obtain ⟨c, cs, rfl⟩ := List.exists_cons_of_ne_nil some
  simp [isContinued, List.getLast?_append, List.getLast?_cons]

/-- Only the end of a line matters for what it is joined with. -/
theorem joinContinued_front {front : List Char} (ended : isContinued front = false)
    (line : List Char) (rest : List (List Char)) :
    joinContinued (front ++ line) rest =
      (front ++ (joinContinued line rest).1, (joinContinued line rest).2) := by
  induction rest generalizing line with
  | nil =>
      by_cases empty : line = []
      · simp [empty, joinContinued, ended]
      · simp only [joinContinued, isContinued_append front empty,
          List.dropLast_append_of_ne_nil empty]
        split <;> rfl
  | cons next rest ih =>
      by_cases empty : line = []
      · have nothing : isContinued [] = false := rfl
        rw [empty, List.append_nil, joinContinued_of_ended ended, joinContinued_of_ended nothing,
          List.append_nil]
      · simp only [joinContinued, isContinued_append front empty,
          List.dropLast_append_of_ne_nil empty, List.append_assoc, ih]
        split <;> rfl

/-- A continued line is joined with the next one behind a space. -/
theorem joinContinued_cons {first : List Char} (continued : isContinued first = true)
    (next : List Char) (rest : List (List Char)) :
    joinContinued first (next :: rest) =
      (first.dropLast ++ ' ' :: (joinContinued next rest).1,
        (joinContinued next rest).2 + 1) := by
  have ended : isContinued (first.dropLast ++ [' ']) = false := by simp [isContinued]
  have joined := joinContinued_front ended next rest
  simp only [List.append_assoc, List.singleton_append] at joined
  simp only [joinContinued, continued, if_true, joined]

/-- Behind continued lines a line stands as it is joined alone. -/
theorem joinContinued_of_continued {first : List Char} {earlier : List (List Char)}
    (continued : ∀ line ∈ first :: earlier, isContinued line = true) (line : List Char)
    (rest : List (List Char)) :
    joinContinued first (earlier ++ line :: rest) =
      (joinedFront (first :: earlier) ++ (joinContinued line rest).1,
        earlier.length + 1 + (joinContinued line rest).2) := by
  induction earlier generalizing first with
  | nil =>
      rw [List.nil_append, joinContinued_cons (continued first List.mem_cons_self)]
      simp [joinedFront, Nat.add_comm]
  | cons next earlier ih =>
      obtain ⟨here, later⟩ := List.forall_mem_cons.mp continued
      rw [List.cons_append, joinContinued_cons here, ih later]
      refine Prod.ext (by simp [joinedFront]) ?_
      rw [List.length_cons]
      omega

/-- Lines that a directive goes on behind are continued. -/
theorem continued_of_lt {first line : List Char} {earlier rest : List (List Char)}
    (further : earlier.length < (joinContinued first (earlier ++ line :: rest)).2) :
    ∀ line ∈ first :: earlier, isContinued line = true := by
  induction earlier generalizing first with
  | nil =>
      refine List.forall_mem_singleton.mpr ?_
      cases continued : isContinued first with
      | true => rfl
      | false =>
          rw [joinContinued_of_ended continued] at further
          cases further
  | cons next earlier ih =>
      cases continued : isContinued first with
      | false =>
          rw [joinContinued_of_ended continued] at further
          cases further
      | true =>
          rw [List.cons_append, joinContinued_cons continued] at further
          exact List.forall_mem_cons.mpr ⟨continued, ih (Nat.lt_of_succ_lt_succ further)⟩

/-- A directive that ends in front of a line is the same with another line there. -/
theorem joinContinued_of_le {first line : List Char} {earlier rest : List (List Char)}
    (stops : (joinContinued first (earlier ++ line :: rest)).2 ≤ earlier.length)
    (other : List Char) :
    joinContinued first (earlier ++ other :: rest) =
      joinContinued first (earlier ++ line :: rest) := by
  induction earlier generalizing first with
  | nil =>
      cases continued : isContinued first with
      | false => rw [joinContinued_of_ended continued, joinContinued_of_ended continued]
      | true =>
          rw [List.nil_append, joinContinued_cons continued] at stops
          cases stops
  | cons next earlier ih =>
      cases continued : isContinued first with
      | false => rw [joinContinued_of_ended continued, joinContinued_of_ended continued]
      | true =>
          rw [List.cons_append, joinContinued_cons continued] at stops
          have later := ih (Nat.le_of_succ_le_succ stops)
          rw [List.cons_append, List.cons_append, joinContinued_cons continued,
            joinContinued_cons continued, later]

/-! ## Finding the directive -/

theorem number_le_of_mem {number skip : Nat} {inside : Bool} {physical : List (List Char)}
    {line : LogicalLine} (among : line ∈ logicalFrom number inside skip physical) :
    number + skip ≤ line.number := by
  induction physical generalizing number skip inside with
  | nil => cases skip <;> cases among
  | cons first rest ih =>
      cases skip with
      | succ skip =>
          have later := ih among
          omega
      | zero =>
          obtain ⟨top, further, inside', lines, starts, -⟩ :=
            logicalFrom_cons number inside first rest
          rw [lines] at among
          rcases List.mem_cons.mp among with rfl | among
          · omega
          · have later := ih among
            omega

/-- Lines that belong to a directive in front of them are passed over. -/
theorem logicalFrom_append_of_skip (number : Nat) (inside : Bool) (skip : Nat)
    (earlier rest : List (List Char)) :
    logicalFrom number inside (earlier.length + skip) (earlier ++ rest) =
      logicalFrom (number + earlier.length) inside skip rest := by
  induction earlier generalizing number with
  | nil => rw [List.length_nil, Nat.zero_add, Nat.add_zero, List.nil_append]
  | cons line earlier ih =>
      rw [List.length_cons, Nat.add_right_comm, List.cons_append, logicalFrom, ih,
        Nat.add_assoc, Nat.add_comm 1]

/-- A logical line that starts on the first physical line comes first. -/
theorem head_of_mem {number skip : Nat} {inside : Bool} {first : List Char}
    {rest : List (List Char)} {line : LogicalLine}
    (among : line ∈ logicalFrom number inside skip (first :: rest)) (low : line.number ≤ number) :
    skip = 0 ∧ line.number = number ∧ line.inComment = inside ∧
      (logicalFrom number inside 0 (first :: rest)).head? = some line := by
  have bound := number_le_of_mem among
  obtain rfl : skip = 0 := by omega
  rw [logicalFrom] at among ⊢
  split at among
  · rename_i starts
    rcases List.mem_cons.mp among with rfl | among
    · exact ⟨rfl, rfl, by simp_all, by rw [if_pos starts]; rfl⟩
    · have later := number_le_of_mem among
      omega
  · rename_i text
    rcases List.mem_cons.mp among with rfl | among
    · exact ⟨rfl, rfl, rfl, by rw [if_neg text]; rfl⟩
    · have later := number_le_of_mem among
      omega

/-- If the first logical line ends in front of a physical line, another line there makes no
    difference to it. -/
theorem logicalFrom_first (number : Nat) (inside : Bool) (first : List Char)
    (earlier : List (List Char)) (physical : List Char) (rest : List (List Char)) :
    ∃ head inside' further, head.number = number ∧
      logicalFrom number inside 0 (first :: (earlier ++ physical :: rest)) =
        head :: logicalFrom (number + 1) inside' further (earlier ++ physical :: rest) ∧
      (further ≤ earlier.length → ∀ other,
        logicalFrom number inside 0 (first :: (earlier ++ other :: rest)) =
          head :: logicalFrom (number + 1) inside' further (earlier ++ other :: rest)) := by
  cases starts : (!inside && startsDirective first) with
  | true =>
      refine ⟨_, _, _, rfl, by rw [logicalFrom, if_pos starts], ?_⟩
      intro stops other
      rw [logicalFrom, if_pos starts, joinContinued_of_le stops]
  | false =>
      have text : ¬ (!inside && startsDirective first) = true := by simp [starts]
      refine ⟨_, _, _, rfl, by rw [logicalFrom, if_neg text], ?_⟩
      intro _ other
      rw [logicalFrom, if_neg text]

/-- The logical lines in front of one that takes a physical line do not depend on that line. -/
theorem logicalFrom_cut {number skip : Nat} {inside : Bool} {earlier rest : List (List Char)}
    {physical : List Char} {line : LogicalLine}
    (among : line ∈ logicalFrom number inside skip (earlier ++ physical :: rest))
    (covers : line.Covers (number + earlier.length)) :
    (logicalFrom line.number line.inComment 0
        (earlier.drop (line.number - number) ++ physical :: rest)).head? = some line ∧
      ∃ before, ∀ other, logicalFrom number inside skip (earlier ++ other :: rest) =
        before ++ logicalFrom line.number line.inComment 0
          (earlier.drop (line.number - number) ++ other :: rest) := by
  induction earlier generalizing number skip inside with
  | nil =>
      obtain ⟨rfl, numbered, started, first⟩ := head_of_mem among covers.1
      rw [numbered, started, List.drop_nil]
      exact ⟨first, [], fun other => rfl⟩
  | cons first earlier ih =>
      by_cases here : line.number ≤ number
      · obtain ⟨rfl, numbered, started, first⟩ := head_of_mem among here
        rw [numbered, started, Nat.sub_self]
        exact ⟨first, [], fun other => rfl⟩
      · have length : number + (first :: earlier).length = number + 1 + earlier.length := by
          rw [List.length_cons]
          omega
        have one : line.number - number = line.number - (number + 1) + 1 := by omega
        rw [length] at covers
        rw [one, List.drop_succ_cons]
        cases skip with
        | succ skip => exact ih among covers
        | zero =>
            obtain ⟨head, inside', further, numbered, lines, others⟩ :=
              logicalFrom_first number inside first earlier physical rest
            rw [List.cons_append, lines] at among
            rcases List.mem_cons.mp among with rfl | among
            · exact absurd (Nat.le_of_eq numbered) here
            · have bound := number_le_of_mem among
              have stops : further ≤ earlier.length := by
                have low := covers.1
                omega
              obtain ⟨found, before, cut⟩ := ih among covers
              refine ⟨found, head :: before, fun other => ?_⟩
              rw [List.cons_append, others stops, cut other, List.cons_append]

/-! ## Another line in its place -/

/-- The directive that starts on the line of a number: earlier lines, which are continued, and the
    line that they go on with. -/
def LogicalLine.joined (number : Nat) (earlier : List (List Char)) (line : List Char)
    (rest : List (List Char)) : LogicalLine :=
  ⟨joinedFront earlier ++ (joinContinued line rest).1, number,
    earlier.length + (joinContinued line rest).2 + 1, false⟩

/-- Of the lines in front of one that a directive takes, those that it takes as well. The first line
    in front has a number. -/
def LogicalLine.taken (line : LogicalLine) (number : Nat) (earlier : List (List Char)) :
    List (List Char) :=
  earlier.drop (line.number - number)

/-- What comes of a directive and of the lines behind it. -/
theorem logicalFrom_joined {earlier : List (List Char)}
    (continued : ∀ line ∈ earlier, isContinued line = true) (number : Nat) (line : List Char)
    (starts : ∀ first ∈ (earlier ++ [line]).head?, startsDirective first = true)
    (rest : List (List Char)) :
    logicalFrom number false 0 (earlier ++ line :: rest) =
      .joined number earlier line rest ::
        logicalFrom (number + earlier.length + 1)
          (endsInComment false (joinedFront earlier ++ (joinContinued line rest).1))
          (joinContinued line rest).2 rest := by
  cases earlier with
  | nil =>
      have directive := starts line rfl
      simp [logicalFrom, directive, LogicalLine.joined, joinedFront]
  | cons first earlier =>
      have directive := starts first rfl
      have taken : earlier.length + 1 + (joinContinued line rest).2 =
          earlier.length + ((joinContinued line rest).2 + 1) := by omega
      have length : number + (earlier.length + 1) + 1 = number + 1 + earlier.length + 1 := by omega
      rw [List.cons_append, logicalFrom, directive, joinContinued_of_continued continued]
      simp only [Bool.not_false, Bool.true_and, if_true, LogicalLine.joined, List.length_cons]
      rw [taken, logicalFrom_append_of_skip, logicalFrom, length]

theorem isContinued_joinedFront (earlier : List (List Char)) :
    isContinued (joinedFront earlier) = false := by
  rcases List.eq_nil_or_concat earlier with rfl | ⟨before, last, rfl⟩
  · rfl
  · simp [isContinued, joinedFront]

/-- Joining goes on with a directive that has started. -/
theorem LogicalLine.isDirective_joined {earlier : List (List Char)} {line : List Char}
    (starts : startsDirective (joinedFront earlier ++ line) = true) (number : Nat)
    (rest : List (List Char)) :
    (LogicalLine.joined number earlier line rest).isDirective = true := by
  have whole := startsDirective_joinContinued starts rest
  rw [joinContinued_front (isContinued_joinedFront earlier)] at whole
  exact whole

theorem head_of_isDirective {number : Nat} {first : List Char} {rest : List (List Char)}
    {line : LogicalLine} (found : (logicalFrom number false 0 (first :: rest)).head? = some line)
    (kind : line.isDirective = true) :
    startsDirective first = true ∧ line.span = (joinContinued first rest).2 + 1 := by
  rw [logicalFrom] at found
  cases starts : startsDirective first with
  | true =>
      rw [starts] at found
      cases found
      exact ⟨rfl, rfl⟩
  | false =>
      rw [starts] at found
      cases found
      simp [LogicalLine.isDirective, starts] at kind

/-- A directive that takes a physical line is its earlier lines joined with that line. With
    another line there, the logical lines in front are the same, and the directive is the earlier
    lines joined with the other one. -/
theorem logicalFrom_directive {number skip : Nat} {inside : Bool}
    {earlier rest : List (List Char)} {physical : List Char} {line : LogicalLine}
    (among : line ∈ logicalFrom number inside skip (earlier ++ physical :: rest))
    (kind : line.isDirective = true) (covers : line.Covers (number + earlier.length)) :
    (∀ l ∈ line.taken number earlier, isContinued l = true) ∧
      startsDirective (joinedFront (line.taken number earlier) ++ physical) = true ∧
      line = .joined line.number (line.taken number earlier) physical rest ∧
      ∃ before, ∀ other,
        startsDirective (joinedFront (line.taken number earlier) ++ other) = true →
          logicalFrom number inside skip (earlier ++ other :: rest) =
            before ++ .joined line.number (line.taken number earlier) other rest ::
              logicalFrom (line.number + (line.taken number earlier).length + 1)
                (endsInComment false
                  (joinedFront (line.taken number earlier) ++ (joinContinued other rest).1))
                (joinContinued other rest).2 rest := by
  have low := number_le_of_mem among
  obtain ⟨found, before, cut⟩ := logicalFrom_cut among covers
  rw [LogicalLine.inComment_of_isDirective kind, ← LogicalLine.taken] at found cut
  have length : (line.taken number earlier).length = earlier.length - (line.number - number) :=
    List.length_drop
  generalize line.taken number earlier = taken at found cut length ⊢
  cases taken with
  | nil =>
      have starts := (head_of_isDirective found kind).1
      have alone {other : List Char} (directive : startsDirective other = true) :=
        logicalFrom_joined (List.forall_mem_nil _) line.number other
          (fun _ same => Option.some.inj same ▸ directive) rest
      rw [alone starts] at found
      refine ⟨List.forall_mem_nil _, starts, (Option.some.inj found).symm, before, ?_⟩
      intro other directive
      have starts : startsDirective other = true := directive
      rw [cut other, alone starts]
  | cons first more =>
      obtain ⟨starts, span⟩ := head_of_isDirective found kind
      have further : more.length < (joinContinued first (more ++ physical :: rest)).2 := by
        have high := covers.2
        rw [span] at high
        rw [List.length_cons] at length
        change _ < _ + (joinContinued first (more ++ physical :: rest)).2 + 1 at high
        omega
      have continued := continued_of_lt further
      have together (other : List Char) :=
        logicalFrom_joined continued line.number other
          (fun _ same => Option.some.inj same ▸ starts) rest
      rw [together] at found
      have starts := startsDirective_dropLast starts (continued first List.mem_cons_self)
      refine ⟨continued, ?_, (Option.some.inj found).symm, before, ?_⟩
      · rw [joinedFront_cons, List.append_assoc]
        exact startsDirective_append starts _
      intro other _
      rw [cut other, together]

end InterfaceHeader
