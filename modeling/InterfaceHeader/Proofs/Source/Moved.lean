import InterfaceHeader.Declaration.Source
import InterfaceHeader.Proofs.Reading.Layout
import InterfaceHeader.Proofs.Token.Coverage

/-!
# Texts whose tokens have moved

Two texts with the same tokens at other places are read alike: as the same header, or with errors
that differ in where they stand and in nothing else.
-/

namespace InterfaceHeader

variable {Place : Position → Position → Prop}

/-- The bytes of the text can be counted in a 64-bit word, with one to spare for its end. No text
    that a 64-bit memory holds is longer. -/
def Text.Held (text : String) : Prop :=
  text.utf8ByteSize < SyntaxError.endDepth

instance (text : String) : Decidable (Text.Held text) :=
  inferInstanceAs (Decidable (_ < _))

/-- The errors are of the same kind and differ at most in where they stand, and the places are
    related. -/
inductive HeaderError.Alike (Place : Position → Position → Prop) :
    HeaderError → HeaderError → Prop where
  | lexical {e e' : LexError} :
      Place e.position e'.position → e.found = e'.found →
        HeaderError.Alike Place (.lexical e) (.lexical e')
  | grammatical {e e' : SyntaxError} :
      e.Alike Place e' → HeaderError.Alike Place (.grammatical e) (.grammatical e')
  | directive (e : DirectiveError) : HeaderError.Alike Place (.directive e) (.directive e)

/-- The same header has been read, or errors have come up that are alike. -/
inductive ReadAlike (Place : Position → Position → Prop) :
    Except HeaderError Header → Except HeaderError Header → Prop where
  | ok (h : Header) : ReadAlike Place (.ok h) (.ok h)
  | error {e e' : HeaderError} : e.Alike Place e' → ReadAlike Place (.error e) (.error e')

/-- Scanning leaves no blank space among the tokens, so all of them are to be read. -/
theorem Cursor.ofTokens_ahead {text : List Char} {tokens : List Token}
    (scanned : tokenize text = .ok tokens) : (Cursor.ofTokens tokens).ahead = tokens := by
  refine List.filter_eq_self.mpr fun t mem => ?_
  exact bne_iff_ne.mpr (tokenize_ok scanned mem).1

/-- Texts with tokens that are alike one by one are read alike. -/
theorem ofText?_alike (orderly : Orderly Place)
    (sameLine : ∀ {p p' q q' : Position}, Place p p' → Place q q' →
      (p.line = q.line ↔ p'.line = q'.line))
    {text text' : String} {tokens tokens' : List Token}
    (scanned : tokenize text.toList = .ok tokens)
    (scanned' : tokenize text'.toList = .ok tokens')
    (alike : List.Forall₂ (Token.Alike Place) tokens tokens') :
    ReadAlike Place (Header.ofText? text) (Header.ofText? text') := by
  have matched : Matched Place (Cursor.ofTokens tokens).ahead (Cursor.ofTokens tokens').ahead := by
    rw [Cursor.ofTokens_ahead scanned, Cursor.ofTokens_ahead scanned']
    exact .of_forall₂ sameLine alike
  rw [Header.ofText?_eq, Header.ofText?_eq, scanned, scanned']
  rcases ofTokens?_matched orderly matched with
    ⟨header, read, read'⟩ | ⟨e, e', read, read', errorsAlike⟩
  · simp only [read, read']
    exact .ok header
  · simp only [read, read']
    exact .error (.grammatical errorsAlike)

/-! ## Weaker relations between places -/

namespace SyntaxError.Alike

variable {e e' e'' : SyntaxError}

theorem mono {Other : Position → Position → Prop} (alike : e.Alike Place e')
    (weaker : ∀ p p', Place p p' → Other p p') : e.Alike Other e' := by
  refine ⟨?_, alike.found, alike.expected⟩
  have places := alike.position
  generalize e.position = p, e'.position = p' at places ⊢
  cases places with
  | none => exact .none
  | some placed => exact .some (weaker _ _ placed)

theorem refl (reflexive : ∀ p, Place p p) (e : SyntaxError) : e.Alike Place e := by
  refine ⟨?_, rfl, rfl⟩
  cases e.position with
  | none => exact .none
  | some p => exact .some (reflexive p)

theorem trans (transitive : ∀ p p' p'', Place p p' → Place p' p'' → Place p p'')
    (alike : e.Alike Place e') (alike' : e'.Alike Place e'') : e.Alike Place e'' := by
  refine ⟨?_, alike.found.trans alike'.found, alike.expected.trans alike'.expected⟩
  have places := alike.position
  have places' := alike'.position
  generalize e.position = p, e'.position = p', e''.position = p'' at places places' ⊢
  cases places with
  | none => exact places'
  | some placed =>
      cases places' with
      | some placed' => exact .some (transitive _ _ _ placed placed')

end SyntaxError.Alike

namespace ReadAlike

variable {r r' r'' : Except HeaderError Header}

theorem mono {Other : Position → Position → Prop} (alike : ReadAlike Place r r')
    (weaker : ∀ p p', Place p p' → Other p p') : ReadAlike Other r r' := by
  cases alike with
  | ok header => exact .ok header
  | error errorsAlike =>
      cases errorsAlike with
      | lexical placed sameFound => exact .error (.lexical (weaker _ _ placed) sameFound)
      | grammatical errorsAlike => exact .error (.grammatical (errorsAlike.mono weaker))
      | directive e => exact .error (.directive e)

theorem refl (reflexive : ∀ p, Place p p) (r : Except HeaderError Header) :
    ReadAlike Place r r := by
  cases r with
  | ok header => exact .ok header
  | error e =>
      cases e with
      | lexical e => exact .error (.lexical (reflexive _) rfl)
      | grammatical e => exact .error (.grammatical (.refl reflexive e))
      | directive e => exact .error (.directive e)

theorem trans (transitive : ∀ p p' p'', Place p p' → Place p' p'' → Place p p'')
    (alike : ReadAlike Place r r') (alike' : ReadAlike Place r' r'') : ReadAlike Place r r'' := by
  cases alike with
  | ok header => exact alike'
  | error errorsAlike =>
      cases alike' with
      | error errorsAlike' =>
          cases errorsAlike with
          | directive e => exact .error errorsAlike'
          | lexical placed sameFound =>
              cases errorsAlike' with
              | lexical placed' sameFound' =>
                  exact .error
                    (.lexical (transitive _ _ _ placed placed') (sameFound.trans sameFound'))
          | grammatical grammar =>
              cases errorsAlike' with
              | grammatical grammar' =>
                  exact .error (.grammatical (grammar.trans transitive grammar'))

end ReadAlike

end InterfaceHeader
