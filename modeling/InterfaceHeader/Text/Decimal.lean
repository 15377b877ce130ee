/-!
# Decimal integers

The written form of whole numbers: an optional sign, then decimal digits, as many leading zeros
as one likes. `read?` accepts every such text and `write` picks the shortest. Where a value has
to fit a signed 64-bit word, `readWord?` refuses the texts whose value does not.
-/

namespace InterfaceHeader.Decimal

/-- The value of a text of decimal digits; none if it is empty or holds anything else. -/
def readDigits? (cs : List Char) : Option Nat :=
  if cs ≠ [] ∧ cs.all Char.isDigit then some (Nat.ofDigitChars 10 cs 0) else none

/-- The value of an optional sign and decimal digits. -/
def read? : List Char → Option Int
  | '-' :: cs => (readDigits? cs).map fun (n : Nat) => -(n : Int)
  | '+' :: cs => (readDigits? cs).map fun (n : Nat) => (n : Int)
  | cs => (readDigits? cs).map fun (n : Nat) => (n : Int)

/-- The signed 64-bit word with a given value. -/
def word? (n : Int) : Option Int64 :=
  if -9223372036854775808 ≤ n ∧ n ≤ 9223372036854775807 then some (Int64.ofInt n) else none

/-- The signed 64-bit word that a text denotes. -/
def readWord? (cs : List Char) : Option Int64 :=
  (read? cs).bind word?

/-- A whole number without needless zeros, and with a sign only below zero. -/
def write (n : Int) : List Char :=
  if n < 0 then '-' :: Nat.toDigits 10 n.natAbs else Nat.toDigits 10 n.natAbs

/-- A count, as messages show it. -/
def count (n : Nat) : String :=
  String.ofList (Nat.toDigits 10 n)

private theorem isDigit_of_mem_toDigits {c : Char} {n : Nat} (mem : c ∈ Nat.toDigits 10 n) :
    c.isDigit = true :=
  Nat.isDigit_of_mem_toDigits (by decide) (by decide) mem

theorem readDigits?_toDigits (n : Nat) : readDigits? (Nat.toDigits 10 n) = some n := by
  have digits : (Nat.toDigits 10 n).all Char.isDigit = true :=
    List.all_eq_true.mpr fun _ mem => isDigit_of_mem_toDigits mem
  simp [readDigits?, digits, Nat.toDigits_ne_nil, Nat.ofDigitChars_ten_toDigits]

/-- A text that starts with a digit has no sign to take off. -/
theorem read?_of_isDigit {c : Char} {cs : List Char} (isDigit : c.isDigit = true) :
    read? (c :: cs) = (readDigits? (c :: cs)).map fun (n : Nat) => (n : Int) := by
  unfold read?
  split
  · rename_i signed
    cases signed
    exact absurd isDigit (by decide)
  · rename_i signed
    cases signed
    exact absurd isDigit (by decide)
  · rfl

/-- Reading takes back what writing made. -/
theorem read?_write (n : Int) : read? (write n) = some n := by
  unfold write
  split
  · rename_i negative
    have restored : -((n.natAbs : Nat) : Int) = n := by omega
    rw [read?, readDigits?_toDigits, Option.map_some, restored]
  · rename_i nonnegative
    have restored : ((n.natAbs : Nat) : Int) = n := by omega
    cases digits : Nat.toDigits 10 n.natAbs with
    | nil => exact absurd digits Nat.toDigits_ne_nil
    | cons c cs =>
        have isDigit : c.isDigit = true :=
          isDigit_of_mem_toDigits (n := n.natAbs) (by simp [digits])
        rw [read?_of_isDigit isDigit, ← digits, readDigits?_toDigits, Option.map_some, restored]

theorem word?_toInt (w : Int64) : word? w.toInt = some w := by
  have lower := w.le_toInt
  have upper := w.toInt_lt
  unfold word?
  rw [if_pos ⟨by omega, by omega⟩, Int64.ofInt_toInt]

/-- Every 64-bit word reads back from its written form. -/
theorem readWord?_write (w : Int64) : readWord? (write w.toInt) = some w := by
  simp [readWord?, read?_write, word?_toInt]

end InterfaceHeader.Decimal
