import InterfaceHeader.Text.Decimal
import InterfaceHeader.Text.Position

/-!
# Syntax errors

A syntax error names the place where reading failed, what stands there, and what would have been
accepted instead, in the order in which it was first looked for. Errors of several attempts at
the same place merge their expectations; otherwise the deeper one tells more.
-/

namespace InterfaceHeader

/-- Reading failed at a token, or at the end of the input. -/
structure SyntaxError where
  /-- Where the token starts; none at the end of the input. -/
  position : Option Position
  /-- The description of the token. -/
  found : String
  /-- The descriptions of what would have been accepted. -/
  expected : List String
deriving DecidableEq

namespace SyntaxError

/-- A list with one more entry at its end, unless it holds the entry already. -/
def addNew (entries : List String) (entry : String) : List String :=
  if entry ∈ entries then entries else entries ++ [entry]

/-- The error with further expectations. -/
def expecting (e : SyntaxError) (expected : List String) : SyntaxError :=
  { e with expected := expected.foldl addNew e.expected }

/-- The error with the expectations of another one. -/
def merge (e other : SyntaxError) : SyntaxError :=
  e.expecting other.expected

/-- The depth of the end of the input: the last offset that a 64-bit word can hold. -/
def endDepth : Nat := 18446744073709551615

/-- How deep into the input reading came. No place is deeper than the end. -/
def depth (e : SyntaxError) : Nat :=
  match e.position with
  | none => endDepth
  | some p => min p.offset endDepth

/-- The deeper one of two errors; at the same depth the first, with the expectations of both. -/
def deepest (e other : SyntaxError) : SyntaxError :=
  if e.depth < other.depth then other
  else if e.depth = other.depth then e.merge other
  else e

/-- The text of the error. -/
def message (e : SyntaxError) : String :=
  let place :=
    match e.position with
    | none => "end of input"
    | some p => p.describe
  let fault :=
    match e.expected with
    | [] => "unexpected " ++ e.found
    | [only] => "expected " ++ only ++ ", found " ++ e.found
    | many => "expected one of " ++ String.intercalate ", " many ++ ", found " ++ e.found
  "at " ++ place ++ ": " ++ fault

@[simp] theorem expecting_position (e : SyntaxError) (expected : List String) :
    (e.expecting expected).position = e.position := rfl

@[simp] theorem expecting_found (e : SyntaxError) (expected : List String) :
    (e.expecting expected).found = e.found := rfl

theorem mem_addNew {entries : List String} {entry x : String} :
    x ∈ addNew entries entry ↔ x ∈ entries ∨ x = entry := by
  unfold addNew
  split
  · rename_i among
    constructor
    · exact Or.inl
    · rintro (old | rfl)
      · exact old
      · exact among
  · simp

/-- Merged expectations are those of both sides. -/
theorem mem_expecting {e : SyntaxError} {expected : List String} {x : String} :
    x ∈ (e.expecting expected).expected ↔ x ∈ e.expected ∨ x ∈ expected := by
  obtain ⟨position, found, entries⟩ := e
  simp only [expecting]
  induction expected generalizing entries with
  | nil => simp
  | cons entry rest ih =>
      rw [List.foldl_cons, ih, mem_addNew, List.mem_cons, or_assoc]

end SyntaxError

end InterfaceHeader
