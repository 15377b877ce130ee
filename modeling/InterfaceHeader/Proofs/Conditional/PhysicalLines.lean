import InterfaceHeader.Proofs.Conditional.Replay

/-!
# Physical lines of the flat text

With line numbers kept, the flat text has a line for every physical line of the source, and the
lines correspond one to one: a line of text whose regions are all active stands where it stood,
and an empty line stands for every other line. The logical lines tile the physical ones, so each
physical line belongs to one logical line, and that line decides.
-/

namespace InterfaceHeader

namespace Pass

/-- Every branch around this place is selected. -/
def allActive (p : Pass) : Bool :=
  p.frames.all Frame.active

/-- The innermost region of a stack of frames is active just if all of its regions are, and every
    frame knows whether the region around it is. -/
inductive Consistent : List Frame → Prop where
  | nil : Consistent []
  | cons {f : Frame} {outer : List Frame} :
      f.enclosing = outer.all Frame.active → (f.active → f.enclosing) → Consistent outer →
      Consistent (f :: outer)

theorem active_eq_allActive {p : Pass} (consistent : Consistent p.frames) :
    p.active = p.allActive := by
  obtain ⟨frames, symbols⟩ := p
  unfold active allActive
  cases consistent with
  | nil => rfl
  | @cons f outer around inside _ =>
      show f.active = (f.active && outer.all Frame.active)
      rw [← around]
      cases here : f.active with
      | false => rfl
      | true => exact (inside here).symm

/-- What a directive does keeps the frames consistent. -/
theorem consistent_apply {p : Pass} (consistent : Consistent p.frames) (directive : Directive) :
    Consistent (p.apply directive).frames := by
  have entered (holds : Bool) : Consistent (p.enter holds).frames := by
    refine .cons (active_eq_allActive consistent) ?_ consistent
    intro now
    exact (Bool.and_eq_true_iff.mp now).1
  obtain ⟨frames, symbols⟩ := p
  have went (holds : Bool) : Consistent (further ⟨frames, symbols⟩ holds).frames := by
    cases consistent with
    | nil => exact .nil
    | cons around _ consistent =>
        refine .cons around ?_ consistent
        intro now
        exact (Bool.and_eq_true_iff.mp (Bool.and_eq_true_iff.mp now).1).1
  cases directive with
  | branch opener condition =>
      cases opener with
      | elseIf => exact went _
      | ifCondition => exact entered _
      | ifDefined => exact entered _
      | ifNotDefined => exact entered _
  | otherwise => exact went true
  | endif =>
      cases consistent with
      | nil => exact .nil
      | cons _ _ consistent => exact consistent
  | define name value => exact consistent
  | undef name => exact consistent
  | other name => exact consistent

theorem consistent_after {p : Pass} (consistent : Consistent p.frames) (line : LogicalLine) :
    Consistent (p.after line).frames := by
  cases spelt : line.directive? with
  | none => rwa [after_of_none p spelt]
  | some directive =>
      rw [after_of_directive? p spelt]
      exact consistent_apply consistent directive

/-- Wherever one pass comes to, the innermost region is active just if all regions are. -/
theorem consistent_run {p : Pass} (consistent : Consistent p.frames) (lines : List LogicalLine) :
    Consistent (p.run lines).frames := by
  induction lines generalizing p with
  | nil => exact consistent
  | cons line lines ih => exact ih (consistent_after consistent line)

end Pass

/-! ## Continued directives -/

/-- No more lines continue a directive than there are. -/
theorem joinContinued_le (line : List Char) (rest : List (List Char)) :
    (joinContinued line rest).2 ≤ rest.length := by
  induction rest generalizing line with
  | nil => exact Nat.le_refl 0
  | cons next rest ih =>
      unfold joinContinued
      split
      · exact Nat.succ_le_succ (ih _)
      · exact Nat.zero_le _

theorem startsDirective_append {line : List Char} (starts : startsDirective line = true)
    (more : List Char) : startsDirective (line ++ more) = true := by
  unfold startsDirective Text.trimStart at *
  rw [List.dropWhile_append]
  split
  · rename_i empty
    rw [List.isEmpty_iff.mp empty] at starts
    cases starts
  · rename_i rest
    cases kept : line.dropWhile Text.isBlank with
    | nil =>
        rw [kept] at starts
        cases starts
    | cons c cs =>
        rw [kept] at starts
        exact starts

/-- The backslash at the end of a directive is not its hash mark. -/
theorem startsDirective_dropLast {line : List Char} (starts : startsDirective line = true)
    (continued : isContinued line = true) : startsDirective line.dropLast = true := by
  obtain ⟨line, rfl⟩ := List.getLast?_eq_some_iff.mp (beq_iff_eq.mp continued)
  rw [List.dropLast_concat]
  unfold startsDirective Text.trimStart at *
  rw [List.dropWhile_append] at starts
  split at starts
  · exact absurd starts (by decide)
  · rename_i some
    cases kept : line.dropWhile Text.isBlank with
    | nil => exact absurd (by rw [kept]; rfl) some
    | cons c cs =>
        rw [kept] at starts
        exact starts

/-- A directive stays one when its continuations are joined to it. -/
theorem startsDirective_joinContinued {line : List Char} (starts : startsDirective line = true)
    (rest : List (List Char)) : startsDirective (joinContinued line rest).1 = true := by
  induction rest generalizing line with
  | nil =>
      unfold joinContinued
      split
      · rename_i continued
        exact startsDirective_dropLast starts continued
      · exact starts
  | cons next rest ih =>
      unfold joinContinued
      split
      · rename_i continued
        exact ih (startsDirective_append (startsDirective_dropLast starts continued) _)
      · exact starts

theorem mem_joinContinued {line : List Char} {rest : List (List Char)} {c : Char}
    (mem : c ∈ (joinContinued line rest).1) : c = ' ' ∨ ∃ l ∈ line :: rest, c ∈ l := by
  induction rest generalizing line with
  | nil =>
      unfold joinContinued at mem
      split at mem
      · exact Or.inr ⟨line, by simp, List.dropLast_subset _ mem⟩
      · exact Or.inr ⟨line, by simp, mem⟩
  | cons next rest ih =>
      unfold joinContinued at mem
      split at mem
      · rcases ih mem with blank | ⟨l, among, inside⟩
        · exact Or.inl blank
        · rcases List.mem_cons.mp among with rfl | among
          · have dropped : c ∈ line.dropLast → c ∈ line := fun mem => List.dropLast_subset _ mem
            simp at inside
            grind
          · exact Or.inr ⟨l, by simp [among], inside⟩
      · exact Or.inr ⟨line, by simp, mem⟩

/-- Joining continued lines puts only blanks between them. -/
theorem mem_text_logicalFrom {number skip : Nat} {inComment : Bool}
    {physical : List (List Char)} {line : LogicalLine}
    (among : line ∈ logicalFrom number inComment skip physical) {c : Char}
    (inside : c ∈ line.text) : c = ' ' ∨ ∃ l ∈ physical, c ∈ l := by
  induction physical generalizing number skip inComment with
  | nil => cases skip <;> simp [logicalFrom] at among
  | cons first rest ih =>
      have later {number skip : Nat} {inComment : Bool}
          (among : line ∈ logicalFrom number inComment skip rest) :
          c = ' ' ∨ ∃ l ∈ first :: rest, c ∈ l := by
        rcases ih among with blank | ⟨l, mem, inside⟩
        · exact Or.inl blank
        · exact Or.inr ⟨l, List.mem_cons_of_mem _ mem, inside⟩
      cases skip with
      | succ skip => exact later among
      | zero =>
          rw [logicalFrom] at among
          split at among
          · rcases List.mem_cons.mp among with rfl | among
            · exact mem_joinContinued inside
            · exact later among
          · rcases List.mem_cons.mp among with rfl | among
            · exact Or.inr ⟨first, by simp, inside⟩
            · exact later among

/-! ## Tiling -/

/-- The line takes the physical line of this number. -/
def LogicalLine.Covers (line : LogicalLine) (number : Nat) : Prop :=
  line.number ≤ number ∧ number < line.number + line.span

/-- What stands in the flat text for a physical line, which a logical line covers: its text, if it
    is text and its region is active. -/
def Pass.standIn (p : Pass) (line : LogicalLine) (physical : List Char) : String :=
  if line.isDirective = false ∧ p.active = true then String.ofList physical else ""

/-- A directive leaves an empty line for every physical line that it takes. -/
theorem shown_directive {line : LogicalLine} (directive : line.isDirective = true) (p : Pass) :
    p.shown true line = List.replicate line.span "" := by
  unfold Pass.shown
  rw [directive]
  rfl

/-- A line of text leaves one line. -/
theorem shown_text {line : LogicalLine} (text : line.isDirective = false) (p : Pass) :
    p.shown true line = [p.standIn line line.text] := by
  unfold Pass.shown Pass.standIn
  rw [text]
  cases p.active <;> rfl

/-- The first logical line takes the first physical line. If it is text it is that line, and if it
    is a directive it takes the lines as well that continue it. -/
theorem logicalFrom_cons (number : Nat) (inComment : Bool) (line : List Char)
    (rest : List (List Char)) :
    ∃ first further inComment', logicalFrom number inComment 0 (line :: rest) =
        first :: logicalFrom (number + 1) inComment' further rest ∧
      first.number = number ∧ first.span = further + 1 ∧ further ≤ rest.length ∧
      (first.isDirective = false → first.text = line ∧ further = 0) := by
  rw [logicalFrom]
  split
  · rename_i starts
    refine ⟨_, _, _, rfl, rfl, rfl, joinContinued_le line rest, ?_⟩
    intro text
    have directive := startsDirective_joinContinued (Bool.and_eq_true_iff.mp starts).2 rest
    rw [LogicalLine.isDirective, directive] at text
    cases text
  · exact ⟨_, _, _, rfl, rfl, rfl, Nat.zero_le _, fun _ => ⟨rfl, rfl⟩⟩

/-- A logical line leaves as many lines as it takes. -/
theorem length_shown {line : LogicalLine} (tight : line.isDirective = false → line.span = 1)
    (p : Pass) : (p.shown true line).length = line.span := by
  cases kind : line.isDirective with
  | true => rw [shown_directive kind, List.length_replicate]
  | false => rw [shown_text kind, tight kind, List.length_singleton]

/-- With line numbers kept, as many lines are shown as there are physical lines. -/
theorem length_output_logicalFrom {physical : List (List Char)} {skip : Nat}
    (room : skip ≤ physical.length) (number : Nat) (inComment : Bool) (p : Pass) :
    (p.output true (logicalFrom number inComment skip physical)).length + skip =
      physical.length := by
  induction physical generalizing skip number inComment p with
  | nil =>
      rw [Nat.le_zero.mp room]
      rfl
  | cons line rest ih =>
      cases skip with
      | succ skip =>
          have later := ih (Nat.le_of_succ_le_succ room) (number + 1) inComment p
          rw [logicalFrom, List.length_cons]
          omega
      | zero =>
          obtain ⟨first, further, inComment', lines, _, span, room, text⟩ :=
            logicalFrom_cons number inComment line rest
          have later := ih room (number + 1) inComment' (p.after first)
          have tight (kind : first.isDirective = false) : first.span = 1 := by
            rw [span, (text kind).2]
          rw [lines, Pass.output_cons, List.length_append, length_shown tight, List.length_cons]
          omega

/-- Every physical line is covered by a logical line, and in the flat text the pass in front of
    that line decides what stands there. -/
theorem output_logicalFrom {physical : List (List Char)} {skip k : Nat} (behind : skip ≤ k)
    (bound : k < physical.length) (number : Nat) (inComment : Bool) (p : Pass) :
    ∃ before line after, logicalFrom number inComment skip physical = before ++ line :: after ∧
      line.Covers (number + k) ∧
      (p.output true (logicalFrom number inComment skip physical))[k - skip]? =
        some ((p.run before).standIn line physical[k]) := by
  induction physical generalizing skip k number inComment p with
  | nil => cases bound
  | cons line rest ih =>
      cases skip with
      | succ skip =>
          obtain ⟨k, rfl⟩ : ∃ k', k = k' + 1 := ⟨k - 1, by omega⟩
          obtain ⟨before, found, after, lines, covers, stands⟩ :=
            ih (Nat.le_of_succ_le_succ behind) (Nat.lt_of_succ_lt_succ bound) (number + 1)
              inComment p
          refine ⟨before, found, after, lines, ?_, ?_⟩
          · rwa [Nat.add_right_comm] at covers
          · rwa [logicalFrom, Nat.add_sub_add_right, List.getElem_cons_succ]
      | zero =>
          obtain ⟨first, further, inComment', lines, starts, span, room, text⟩ :=
            logicalFrom_cons number inComment line rest
          have tight (kind : first.isDirective = false) : first.span = 1 := by
            rw [span, (text kind).2]
          have length := length_shown tight p
          rw [lines, Pass.output_cons, Nat.sub_zero]
          by_cases inside : k ≤ further
          · -- The line is taken by the first logical line.
            refine ⟨[], first, _, rfl, ⟨by omega, by omega⟩, ?_⟩
            rw [List.getElem?_append_left (by omega)]
            cases kind : first.isDirective with
            | true =>
                rw [shown_directive kind, List.getElem?_replicate_of_lt (by omega), Pass.standIn,
                  kind]
                rfl
            | false =>
                obtain ⟨same, none⟩ := text kind
                obtain rfl : k = 0 := by omega
                rw [shown_text kind, same]
                rfl
          · obtain ⟨k, rfl⟩ : ∃ k', k = k' + 1 := ⟨k - 1, by omega⟩
            have beyond : further ≤ k := by omega
            obtain ⟨before, found, after, lines', covers, stands⟩ :=
              ih beyond (Nat.lt_of_succ_lt_succ bound) (number + 1) inComment' (p.after first)
            refine ⟨first :: before, found, after, by rw [lines']; rfl, ?_, ?_⟩
            · rwa [Nat.add_right_comm] at covers
            · rw [List.getElem?_append_right (by omega), length, span, Nat.add_sub_add_right,
                stands]
              rfl

/-- With line numbers kept, the flat text has one line for every physical line of the source. It is
    the physical line if that is a line of text with all branches around it selected, and empty
    otherwise. -/
theorem flatLines_physical {text : List Char} {nodes : List Node}
    (outlined : outlineOf? text = .ok nodes) (symbols : SymbolTable) :
    (flatLines nodes ⟨symbols, true⟩).length = (Text.lines text).length ∧
      ∀ (k : Nat) (bound : k < (Text.lines text).length),
        ∃ before line after, logicalLines (Text.lines text) = before ++ line :: after ∧
          line.Covers (k + 1) ∧
          (flatLines nodes ⟨symbols, true⟩)[k]? =
            some (if line.isDirective = false ∧ ((Pass.start symbols).run before).allActive = true
              then String.ofList (Text.lines text)[k] else "") := by
  rw [flatLines_eq_output outlined]
  refine ⟨length_output_logicalFrom (Nat.zero_le _) 1 false (.start symbols), ?_⟩
  intro k bound
  obtain ⟨before, line, after, lines, covers, stands⟩ :=
    output_logicalFrom (Nat.zero_le k) bound 1 false (.start symbols)
  refine ⟨before, line, after, lines, by rwa [Nat.add_comm] at covers, ?_⟩
  rw [← Pass.active_eq_allActive (Pass.consistent_run .nil before)]
  exact stands

end InterfaceHeader
