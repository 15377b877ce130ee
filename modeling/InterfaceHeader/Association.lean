/-!
# Association lists

Lists of keys with values, read by `List.lookup`: the first entry of a key counts. Erasing a key
and giving it a value each have one equation in terms of looking up.
-/

namespace InterfaceHeader.Association

variable {α β : Type} [BEq α] [LawfulBEq α] [DecidableEq α]

/-- The entries of all other keys. -/
def erase (entries : List (α × β)) (key : α) : List (α × β) :=
  entries.filter fun entry => entry.1 != key

/-- The entries in which a key has a value, and no other one. -/
def insert (entries : List (α × β)) (key : α) (value : β) : List (α × β) :=
  (key, value) :: erase entries key

theorem lookup_erase (entries : List (α × β)) (key other : α) :
    (erase entries key).lookup other = if other = key then none else entries.lookup other := by
  induction entries with
  | nil => simp [erase]
  | cons entry entries ih =>
      obtain ⟨first, value⟩ := entry
      simp only [erase] at ih
      by_cases same : other = first
      · subst same
        by_cases found : other = key
        · subst found
          simpa [erase] using ih
        · simp [erase, found]
      · have differs : (other == first) = false := by simpa using same
        by_cases erased : first = key
        · subst erased
          simp [erase, List.lookup_cons, differs, ih]
        · simp [erase, List.lookup_cons, differs, erased, ih]

theorem lookup_insert (entries : List (α × β)) (key other : α) (value : β) :
    (insert entries key value).lookup other =
      if other = key then some value else entries.lookup other := by
  by_cases same : other = key
  · subst same
    simp [insert]
  · have differs : (other == key) = false := by simpa using same
    simp [insert, List.lookup_cons, differs, lookup_erase, same]

end InterfaceHeader.Association
