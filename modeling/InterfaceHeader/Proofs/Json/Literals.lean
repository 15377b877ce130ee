import InterfaceHeader.Json.Lexeme
import InterfaceHeader.Text.Decimal

/-!
# Literals

A text written as a string literal is read back, whatever characters it has: a quote, a backslash
and a control character come back from their escapes, every other character stands for itself. A
whole number written in decimal digits is the literal of a number, and never a negative zero.
-/

namespace InterfaceHeader

namespace Json

/-! ## Strings -/

/-- What a written character is read as. Control characters whose escape is not one letter are
    written as units. -/
def pieceOf (c : Char) : Piece :=
  if c.toNat < 0x20 ∧ c ∉ ['\x08', '\t', '\n', '\x0c', '\r'] then .unit c.toNat else .char c

theorem hexUnit?_digitChar {n : Nat} (control : n < 0x20) :
    hexUnit? '0' '0' (Nat.digitChar (n / 16)) (Nat.digitChar (n % 16)) = some n := by
  have all : ∀ n < 0x20,
      hexUnit? '0' '0' (Nat.digitChar (n / 16)) (Nat.digitChar (n % 16)) = some n := by decide
  exact all n control

/-- An escape of one letter is read as the character that it stands for. -/
theorem pieces?_letter {e c : Char} (escaped : escape? e = some c) (notUnit : e ≠ 'u')
    (seen : Nat) (rest : List Char) :
    pieces? seen ('\\' :: e :: rest) =
      (pieces? (seen + 2) rest).map fun (pieces, count) => (.char c :: pieces, count) := by
  rw [pieces?]
  · rw [escaped]
    cases pieces? (seen + 2) rest <;> rfl
  · intro a b c d cs
    simp [notUnit]

/-- A character of a literal is read back. -/
theorem pieces?_escapeChar (c : Char) (seen : Nat) (rest : List Char) :
    pieces? seen (escapeChar c ++ rest) =
      (pieces? (seen + (escapeChar c).length) rest).map fun (pieces, count) =>
        (pieceOf c :: pieces, count) := by
  by_cases special : c ∈ ['"', '\\', '\x08', '\t', '\n', '\x0c', '\r']
  · simp only [List.mem_cons, List.not_mem_nil, or_false] at special
    rcases special with rfl | rfl | rfl | rfl | rfl | rfl | rfl <;>
      exact pieces?_letter rfl (by decide) seen rest
  · simp only [List.mem_cons, List.not_mem_nil, or_false, not_or] at special
    by_cases control : c.toNat < 0x20
    · have escaped : escapeChar c =
          ['\\', 'u', '0', '0', Nat.digitChar (c.toNat / 16), Nat.digitChar (c.toNat % 16)] := by
        simp [escapeChar, special, control]
      have piece : pieceOf c = .unit c.toNat := by simp [pieceOf, special, control]
      rw [escaped, piece]
      simp only [List.cons_append, List.nil_append, pieces?, hexUnit?_digitChar control]
      cases pieces? (seen + 6) rest <;> rfl
    · have escaped : escapeChar c = [c] := by simp [escapeChar, special, control]
      have piece : pieceOf c = .char c := by simp [pieceOf, control]
      rw [escaped, piece, List.singleton_append, pieces?, if_neg control]
      · cases pieces? (seen + 1) rest <;> rfl
      all_goals simp [special]

/-- The characters of a literal are read back up to its closing quote. -/
theorem pieces?_flatMap_escapeChar (cs rest : List Char) (seen : Nat) :
    pieces? seen (cs.flatMap escapeChar ++ '"' :: rest) =
      some (cs.map pieceOf, seen + (cs.flatMap escapeChar).length + 1) := by
  induction cs generalizing seen with
  | nil => rfl
  | cons c cs ih =>
      rw [List.flatMap_cons, List.append_assoc, pieces?_escapeChar, ih, List.length_append]
      simp only [Option.map_some, List.map_cons, Nat.add_assoc]

/-- A unit that stands for a control character is not half of a pair. -/
theorem textOfPieces?_unit {code : Nat} (control : code < 0x20) (rest : List Piece) :
    textOfPieces? (.unit code :: rest) = (textOfPieces? rest).map (Char.ofNat code :: ·) := by
  have notHigh : isHighUnit code = false := by simp [isHighUnit]; omega
  have notLow : isLowUnit code = false := by simp [isLowUnit]; omega
  cases rest with
  | nil => simp [textOfPieces?, notHigh, notLow]
  | cons next rest => cases next <;> simp [textOfPieces?, notHigh, notLow]

theorem textOfPieces?_map_pieceOf (cs : List Char) :
    textOfPieces? (cs.map pieceOf) = some cs := by
  induction cs with
  | nil => rfl
  | cons c cs ih =>
      rw [List.map_cons, pieceOf]
      split
      · rename_i control
        rw [textOfPieces?_unit control.1, ih, Char.ofNat_toNat]
        rfl
      · rw [textOfPieces?, ih]
        rfl

/-- The characters that a literal has behind its opening quote. -/
def body : Text → List Char
  | some s => s.toList.flatMap escapeChar
  | none => ['\\', 'u', 'd', '8', '0', '0']

theorem toList_quote (text : Text) : (quote text).toList = '"' :: body text ++ ['"'] := by
  cases text with
  | none => rfl
  | some s => simp [quote, body]

/-- A string literal is read back. -/
theorem unquote?_body (text : Text) (rest : List Char) :
    unquote? (body text ++ '"' :: rest) = some (text, (body text).length + 1) := by
  cases text with
  | none => rfl
  | some s =>
      simp [unquote?, body, pieces?_flatMap_escapeChar, textOfPieces?_map_pieceOf]

/-! ## Numbers -/

/-- The digits of a number start with a zero only if they are a single one. -/
theorem head?_toDigits {n : Nat} (positive : 0 < n) : (Nat.toDigits 10 n).head? ≠ some '0' := by
  induction n using Nat.strongRecOn with
  | ind n ih =>
      by_cases small : n < 10
      · rw [Nat.toDigits_of_lt_base small]
        have all : ∀ n < 10, 0 < n → [Nat.digitChar n].head? ≠ some '0' := by decide
        exact all n small positive
      · rw [Nat.toDigits_of_base_le (by decide) (by omega)]
        have front := ih (n / 10) (by omega) (by omega)
        rw [List.head?_append]
        cases digits : Nat.toDigits 10 (n / 10) with
        | nil => exact absurd digits Nat.toDigits_ne_nil
        | cons d ds =>
            rw [digits] at front
            exact front

theorem all_isDigit_toDigits (n : Nat) : ∀ c ∈ Nat.toDigits 10 n, c.isDigit = true :=
  fun _ mem => Nat.isDigit_of_mem_toDigits (by decide) (by decide) mem

theorem afterDigits?_toDigits (n : Nat) : afterDigits? (Nat.toDigits 10 n) = some [] := by
  have digits := all_isDigit_toDigits n
  have behind : (Nat.toDigits 10 n ++ []).dropWhile Char.isDigit = [] :=
    List.dropWhile_append_of_pos digits
  rw [List.append_nil] at behind
  cases same : Nat.toDigits 10 n with
  | nil => exact absurd same Nat.toDigits_ne_nil
  | cons d ds =>
      rw [same] at digits behind
      simp [afterDigits?, digits d List.mem_cons_self, behind]

/-- Decimal digits are the whole part of a number. -/
theorem afterWhole?_toDigits (n : Nat) : afterWhole? (Nat.toDigits 10 n) = some [] := by
  rcases Nat.eq_zero_or_pos n with rfl | positive
  · rfl
  · have head := head?_toDigits positive
    have behind := afterDigits?_toDigits n
    cases same : Nat.toDigits 10 n with
    | nil => exact absurd same Nat.toDigits_ne_nil
    | cons d ds =>
        rw [same] at head behind
        rw [afterWhole?]
        · exact behind
        · simpa using head

theorem dropMinus_toDigits (n : Nat) : dropMinus (Nat.toDigits 10 n) = Nat.toDigits 10 n := by
  have digits := all_isDigit_toDigits n
  cases same : Nat.toDigits 10 n with
  | nil => rfl
  | cons d ds =>
      rw [same] at digits
      have digit := digits d List.mem_cons_self
      rw [dropMinus]
      rintro cs ⟨rfl, rfl⟩
      exact absurd digit (by decide)

/-- A whole number is written as the literal of a number. -/
theorem isNumber_write (n : Int) : isNumber (Decimal.write n) = true := by
  have behind : dropMinus (Decimal.write n) = Nat.toDigits 10 n.natAbs := by
    unfold Decimal.write
    split
    · rfl
    · exact dropMinus_toDigits _
  rw [isNumber, behind, afterWhole?_toDigits]
  rfl

/-- Zero is written without a sign. -/
theorem write_ne_negativeZero (n : Int) : Decimal.write n ≠ ['-', '0'] := by
  unfold Decimal.write
  split
  · rename_i negative
    intro same
    have head := head?_toDigits (n := n.natAbs) (by omega)
    rw [(List.cons.inj same).2] at head
    exact head rfl
  · intro same
    have digit := all_isDigit_toDigits n.natAbs '-' (by rw [same]; simp)
    exact absurd digit (by decide)

end Json

end InterfaceHeader
