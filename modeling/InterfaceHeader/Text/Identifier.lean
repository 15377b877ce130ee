/-!
# Identifiers

An identifier is a letter or an underscore, then letters, digits and underscores. Letters and
digits are those of ASCII.
-/

namespace InterfaceHeader.Text

/-- A character that may start an identifier. -/
def isWordStart (c : Char) : Bool :=
  c.isAlpha || c == '_'

/-- A character that may stand inside an identifier. -/
def isWordChar (c : Char) : Bool :=
  c.isAlphanum || c == '_'

/-- A whole text is an identifier. -/
def isIdentifier : List Char → Bool
  | [] => false
  | c :: cs => isWordStart c && cs.all isWordChar

theorem isWordChar_of_isWordStart {c : Char} (start : isWordStart c = true) :
    isWordChar c = true := by
  simp only [isWordStart, isWordChar, Char.isAlphanum, Bool.or_eq_true] at start ⊢
  rcases start with start | start
  · exact Or.inl (Or.inl start)
  · exact Or.inr start

/-- A letter lies between `A` and `z`. -/
theorem range_of_isAlpha {c : Char} (letter : c.isAlpha = true) :
    'A'.toNat ≤ c.toNat ∧ c.toNat ≤ 'z'.toNat := by
  have cases : (c.isUpper || c.isLower) = true := letter
  rcases Bool.or_eq_true_iff.mp cases with upper | lower
  · have bounds : 'A'.val ≤ c.val ∧ c.val ≤ 'Z'.val := of_decide_eq_true upper
    have high : c.toNat ≤ 'Z'.toNat := UInt32.le_iff_toNat_le.mp bounds.2
    exact ⟨UInt32.le_iff_toNat_le.mp bounds.1, Nat.le_trans high (by decide)⟩
  · obtain ⟨low, high⟩ := Bool.and_eq_true_iff.mp lower
    have low : 'a'.toNat ≤ c.toNat := UInt32.le_iff_toNat_le.mp (of_decide_eq_true low)
    exact ⟨Nat.le_trans (by decide) low, UInt32.le_iff_toNat_le.mp (of_decide_eq_true high)⟩

end InterfaceHeader.Text
