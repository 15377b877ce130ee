/-!
# Blank characters

Blank characters separate words and tokens. They are the members of the Unicode property
White_Space; trimming takes them off the ends of a text. Every character that
`Char.isWhitespace` accepts is blank, and so are the line and paragraph separators and the
typographic spaces. Zero-width characters are not.
-/

namespace InterfaceHeader.Text

/-- The code points of White_Space as closed ranges, in ascending order. -/
def blankRanges : List (Nat × Nat) :=
  [(0x9, 0xd), (0x20, 0x20), (0x85, 0x85), (0xa0, 0xa0), (0x1680, 0x1680), (0x2000, 0x200a),
    (0x2028, 0x2029), (0x202f, 0x202f), (0x205f, 0x205f), (0x3000, 0x3000)]

/-- A character is blank if its code point lies in one of `blankRanges`. -/
def isBlank (c : Char) : Bool :=
  blankRanges.any fun range => decide (range.1 ≤ c.toNat) && decide (c.toNat ≤ range.2)

/-- A text without the blanks it starts with. -/
def trimStart (cs : List Char) : List Char :=
  cs.dropWhile isBlank

/-- A text without the blanks it ends with. -/
def trimEnd (cs : List Char) : List Char :=
  (cs.reverse.dropWhile isBlank).reverse

/-- A text without the blanks at its two ends. -/
def trim (cs : List Char) : List Char :=
  trimEnd (trimStart cs)

/-- Trimming at the start leaves nothing or a text that starts with a character of its own. -/
theorem trimStart_head {c : Char} {cs rest : List Char} (trimmed : trimStart cs = c :: rest) :
    isBlank c = false := by
  induction cs with
  | nil => simp [trimStart] at trimmed
  | cons d ds ih =>
      simp only [trimStart, List.dropWhile_cons] at trimmed
      split at trimmed
      · exact ih trimmed
      · rename_i stops
        cases trimmed
        simpa using stops

end InterfaceHeader.Text
