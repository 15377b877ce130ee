import InterfaceHeader.Proofs.Condition.Form
import InterfaceHeader.Proofs.Token.Pieces

/-!
# Constants of conditions

A word that starts with a digit is read as a constant just where it is a literal: decimal digits
with a value in the 64-bit range, then suffix letters. The condition keeps of the value whether it
is zero.
-/

namespace InterfaceHeader.Condition

theorem not_isSuffix_of_isDigit {c : Char} (digit : c.isDigit = true) : isSuffix c = false := by
  cases suffix : isSuffix c with
  | false => rfl
  | true =>
      simp only [isSuffix, Bool.or_eq_true, beq_iff_eq] at suffix
      rcases suffix with ((rfl | rfl) | rfl) | rfl <;> exact absurd digit (by decide)

theorem readDigits?_eq_some {cs : List Char} {n : Nat} (read : Decimal.readDigits? cs = some n) :
    cs ≠ [] ∧ cs.all Char.isDigit = true := by
  unfold Decimal.readDigits? at read
  split at read
  · assumption
  · cases read

/-- The word of a value in the range has that value. -/
theorem ofInt_ne_zero_iff {value : Nat} (small : value ≤ 9223372036854775807) :
    Int64.ofInt value ≠ 0 ↔ value ≠ 0 := by
  have toInt : (Int64.ofInt value).toInt = value :=
    Int64.toInt_ofInt_of_le (by omega) (by omega)
  refine not_congr ?_
  rw [← Int64.toInt_inj, toInt]
  exact Int.natCast_eq_zero

theorem readWord?_digits {c : Char} {cs : List Char} (digit : c.isDigit = true) {w : Int64} :
    Decimal.readWord? (c :: cs) = some w ↔
      ∃ value : Nat, Decimal.readDigits? (c :: cs) = some value ∧ value ≤ 9223372036854775807 ∧
        Int64.ofInt value = w := by
  rw [Decimal.readWord?, Decimal.read?_of_isDigit digit]
  cases Decimal.readDigits? (c :: cs) with
  | none => simp
  | some value =>
      simp only [Option.map_some, Option.bind_some, Decimal.word?, Option.some.injEq,
        exists_eq_left']
      split
      · rename_i range
        simp; omega
      · rename_i range
        simp; omega

/-- Suffix letters behind digits are all that is taken off. -/
theorem dropSuffix_append {digits suffix : List Char} (all : digits.all Char.isDigit = true)
    (letters : suffix.all isSuffix = true) :
    ((digits ++ suffix).reverse.dropWhile isSuffix).reverse = digits := by
  have kept : digits.reverse.dropWhile isSuffix = digits.reverse := by
    cases same : digits.reverse with
    | nil => rfl
    | cons c cs =>
        have mem : c ∈ digits := List.mem_reverse.mp (same ▸ List.mem_cons_self)
        have digit := not_isSuffix_of_isDigit (List.all_eq_true.mp all c mem)
        rw [List.dropWhile_cons_of_neg (by simp [digit])]
  rw [List.reverse_append, List.dropWhile_append_of_pos (by simpa using letters), kept,
    List.reverse_reverse]

/-- A word that starts with a digit is a constant just if it is a literal, and its value is zero
    just if that of the literal is. -/
theorem constant?_iff {text : String} {truth : Bool} :
    (startsWithDigit text = true ∧
        ∃ value, constant? text = some value ∧ decide (value ≠ 0) = truth) ↔
      ∃ value, IsLiteral text value ∧ decide (value ≠ 0) = truth := by
  constructor
  · rintro ⟨digit, word, read, rfl⟩
    have whole : text.toList = (text.toList.reverse.dropWhile isSuffix).reverse ++
        (text.toList.reverse.takeWhile isSuffix).reverse := by
      rw [← List.reverse_append, List.takeWhile_append_dropWhile, List.reverse_reverse]
    have letters : (text.toList.reverse.takeWhile isSuffix).reverse.all isSuffix = true := by
      rw [List.all_reverse]
      exact List.all_takeWhile
    unfold constant? at read
    cases start : (text.toList.reverse.dropWhile isSuffix).reverse with
    | nil =>
        rw [start] at read
        cases read
    | cons c cs =>
        rw [start] at read whole
        have starts : c.isDigit = true := by
          rw [startsWithDigit, whole] at digit
          exact digit
        obtain ⟨value, digits, small, rfl⟩ := (readWord?_digits starts).mp read
        refine ⟨value, ⟨_, _, whole, digits, small, letters⟩, ?_⟩
        exact decide_eq_decide.mpr (ofInt_ne_zero_iff small).symm
  · rintro ⟨value, ⟨digits, suffix, whole, read, small, letters⟩, rfl⟩
    obtain ⟨some, all⟩ := readDigits?_eq_some read
    obtain ⟨c, cs, rfl⟩ := List.exists_cons_of_ne_nil some
    have starts : c.isDigit = true := List.all_eq_true.mp all c List.mem_cons_self
    refine ⟨by rw [startsWithDigit, whole]; exact starts, Int64.ofInt value, ?_, ?_⟩
    · rw [constant?, whole, dropSuffix_append all letters]
      exact (readWord?_digits starts).mpr ⟨value, read, small, rfl⟩
    · exact decide_eq_decide.mpr (ofInt_ne_zero_iff small)

theorem startsWithDigit_of_isLiteral {text : String} {value : Nat}
    (literal : IsLiteral text value) : startsWithDigit text = true :=
  (constant?_iff.mpr ⟨value, literal, rfl⟩).1

/-- An identifier starts with no digit. -/
theorem startsWithDigit_of_isIdentifier {text : String}
    (isName : Text.isIdentifier text.toList = true) : startsWithDigit text = false := by
  cases same : text.toList with
  | nil => rw [startsWithDigit, same]; rfl
  | cons c cs =>
      rw [same] at isName
      have start := (Bool.and_eq_true_iff.mp isName).1
      rw [startsWithDigit, same]
      cases digit : c.isDigit with
      | false => exact digit
      | true =>
          rw [Text.isWordStart_of_isDigit digit] at start
          cases start

end InterfaceHeader.Condition
