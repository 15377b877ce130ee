import InterfaceHeader.Proofs.Canonical.RoundTrip

/-!
# Writing and reading types

The spelling of a type leaves out the names of arguments, at every level, and nothing else: what is
read back is the type without them. So the spelling of what is read is the text that was read, and
two types are spelt alike just if they differ in the names of arguments only.
-/

namespace InterfaceHeader

/-- A text whose terminals are a type, with no comments, is read as this type. -/
theorem CType.ofText?_of_lexes {text : String} {u : List Terminal} {t : CType}
    (lexes : Lexes text.toList u) (form : TypeForm t u) : CType.ofText? text = .ok t := by
  obtain ⟨tokens, scanned, terminals, -⟩ := lexes.terminalsOf
  have read := ofTokens?_of_typeForm (terminals ▸ form)
  simp only [CType.ofText?_eq, scanned, read]

/-- A type that can be written is read back without the names of arguments. -/
theorem CType.ofText?_spelling {t : CType} (formed : t.WellFormed) :
    CType.ofText? t.spelling = .ok t.bare := by
  obtain ⟨u, form, laid⟩ := t.spelling_laid formed
  have lexes := laid [] [] rfl .nil
  rw [List.append_nil, List.append_nil] at lexes
  exact CType.ofText?_of_lexes lexes form

/-- A type that is read from a text can be written. -/
theorem CType.wellFormed_of_ofText? {text : String} {t : CType}
    (read : CType.ofText? text = .ok t) : t.WellFormed := by
  rw [CType.ofText?_eq] at read
  cases scanned : tokenize text.toList with
  | error error =>
      rw [scanned] at read
      cases read
  | ok tokens =>
      rw [scanned] at read
      dsimp only at read
      cases found : CType.ofTokens? tokens with
      | error error =>
          rw [found] at read
          cases read
      | ok t' =>
          rw [found] at read
          cases read
          exact t.wellFormed_of_form _ (typeForm_of_ofTokens? found) (namesIn_terminalsOf scanned)

/-- Types that are equal but for the names of arguments are spelt alike, and no others are. -/
theorem CType.spelling_eq_iff {t t' : CType} (formed : t.WellFormed) (formed' : t'.WellFormed) :
    t.spelling = t'.spelling ↔ t.bare = t'.bare := by
  constructor
  · intro same
    have read := CType.ofText?_spelling formed
    rw [same, CType.ofText?_spelling formed'] at read
    exact (Except.ok.inj read).symm
  · intro same
    rw [← t.spelling_bare, same, t'.spelling_bare]

/-- A type that can be written is read back from its spelling without the names of arguments, and
    what is read has the same spelling; what is read from any text can be written. Two types that
    can be written are spelt alike just if they are equal without the names of arguments. -/
theorem CType.spelling_roundTrip (t : CType) :
    (t.WellFormed → CType.ofText? t.spelling = .ok t.bare ∧
      t.bare.spelling = t.spelling ∧ CType.ofText? t.bare.spelling = .ok t.bare) ∧
    (∀ text, CType.ofText? text = .ok t → t.WellFormed) ∧
    ∀ t' : CType, t.WellFormed → t'.WellFormed →
      (t.spelling = t'.spelling ↔ t.bare = t'.bare) := by
  refine ⟨?_, fun _ => CType.wellFormed_of_ofText?, fun t' => CType.spelling_eq_iff⟩
  intro formed
  have read := CType.ofText?_spelling formed
  refine ⟨read, t.spelling_bare, ?_⟩
  rw [t.spelling_bare]
  exact read

/-- A function that takes a function, with names for the two arguments. -/
def callbackType (outer inner : Option String) : CType :=
  .function ⟨⟨false, "void", true⟩, "f",
    [⟨.function ⟨⟨false, "int", false⟩, "g", [⟨.primitive ⟨true, "char", true⟩, inner⟩]⟩, outer⟩]⟩

/-- The names are lost in the spelling, and nothing else is. -/
theorem callbackType_roundTrip :
    CType.ofText? (callbackType (some "callback") (some "text")).spelling =
        .ok (callbackType none none) ∧
      (callbackType (some "callback") (some "text")).spelling =
        (callbackType none (some "x")).spelling := by
  have formed {outer inner : Option String} (outerNamed : ∀ n ∈ outer, Named n)
      (innerNamed : ∀ n ∈ inner, Named n) : (callbackType outer inner).WellFormed :=
    ⟨(by decide : Named "void"), by decide, ⟨(by decide : Named "int"), by decide,
      (by decide : Named "char"), innerNamed, trivial⟩, outerNamed, trivial⟩
  have named : (callbackType (some "callback") (some "text")).WellFormed :=
    formed (by simp; decide) (by simp; decide)
  have unnamed : (callbackType none (some "x")).WellFormed := formed nofun (by simp; decide)
  obtain ⟨back, -, alike⟩ := CType.spelling_roundTrip (callbackType (some "callback") (some "text"))
  exact ⟨(back named).1, (alike _ named unnamed).mpr rfl⟩

end InterfaceHeader
