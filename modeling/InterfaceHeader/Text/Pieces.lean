/-!
# Pieces of a text

A separator character cuts a text into pieces, one more than it occurs. No piece holds the
separator, and joining the pieces with it gives the text back.
-/

namespace InterfaceHeader.Text

/-- Puts one character in front of a text that is cut at a separator. -/
def consPiece (sep c : Char) : List (List Char) → List (List Char)
  | [] => [[c]]
  | piece :: rest => if c = sep then [] :: piece :: rest else (c :: piece) :: rest

/-- The pieces of a text between the occurrences of a separator. -/
def pieces (sep : Char) (cs : List Char) : List (List Char) :=
  cs.foldr (consPiece sep) [[]]

@[simp] theorem pieces_nil (sep : Char) : pieces sep [] = [[]] := rfl

theorem pieces_cons (sep c : Char) (cs : List Char) :
    pieces sep (c :: cs) = consPiece sep c (pieces sep cs) := rfl

theorem pieces_ne_nil (sep : Char) (cs : List Char) : pieces sep cs ≠ [] := by
  induction cs with
  | nil => simp
  | cons c cs ih =>
      rw [pieces_cons]
      cases cut : pieces sep cs with
      | nil => exact absurd cut ih
      | cons piece rest =>
          simp only [consPiece]
          split <;> simp

/-- A separator ends a piece. -/
theorem pieces_cons_sep (sep : Char) (cs : List Char) :
    pieces sep (sep :: cs) = [] :: pieces sep cs := by
  rw [pieces_cons]
  cases cut : pieces sep cs with
  | nil => exact absurd cut (pieces_ne_nil sep cs)
  | cons piece rest => simp [consPiece]

/-- Nothing is lost at the cuts. -/
theorem intercalate_pieces (sep : Char) (cs : List Char) :
    [sep].intercalate (pieces sep cs) = cs := by
  induction cs with
  | nil => simp
  | cons c cs ih =>
      rw [pieces_cons]
      cases cut : pieces sep cs with
      | nil => exact absurd cut (pieces_ne_nil sep cs)
      | cons piece rest =>
          rw [cut] at ih
          by_cases separates : c = sep
          · subst separates
            simp only [consPiece, if_true, List.intercalate_cons_cons, List.nil_append, ih,
              List.singleton_append]
          · simp only [consPiece, if_neg separates]
            cases rest with
            | nil => simpa using ih
            | cons next rest =>
                simpa only [List.intercalate_cons_cons, List.cons_append, List.cons.injEq,
                  true_and] using ih

end InterfaceHeader.Text
