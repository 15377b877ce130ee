import InterfaceHeader.Proofs.Reading.Extension
import InterfaceHeader.Proofs.Source.Moved
import InterfaceHeader.Proofs.Token.Breaks

/-!
# Headers one behind the other

The text of a header ends within no token and no declaration. So what stands behind it, from the
next line on, is read as if it stood alone: the declarations follow those of the header, or the
error is the same one further on.
-/

namespace InterfaceHeader

/-! ## Errors further on -/

/-- An error of reading moved on by bytes and by whole lines. The end of the input stays what it
    is. -/
def SyntaxError.shift (e : SyntaxError) (bytes lines : Nat) : SyntaxError :=
  { e with position := e.position.map (·.shift bytes lines) }

/-- An error moved on by bytes and by whole lines. -/
def HeaderError.shift (bytes lines : Nat) : HeaderError → HeaderError
  | .lexical e => .lexical (e.shift bytes lines)
  | .grammatical e => .grammatical (e.shift bytes lines)
  | .directive e => .directive e

/-- The first place is the second one moved on, and stands before the end of what can be held. -/
def Position.MovedOn (bytes lines : Nat) (p p' : Position) : Prop :=
  p = p'.shift bytes lines ∧ p.offset < SyntaxError.endDepth

variable {bytes lines : Nat}

theorem Position.shift_inj {p p' : Position} :
    p.shift bytes lines = p'.shift bytes lines ↔ p = p' := by
  cases p
  cases p'
  simp [Position.shift]

/-- Moving on keeps the order of places. -/
theorem Position.movedOn_orderly : Orderly (Position.MovedOn bytes lines) where
  lt_iff := by
    rintro p p' q q' ⟨rfl, -⟩ ⟨rfl, -⟩
    exact Nat.add_lt_add_iff_right
  eq_iff := by
    rintro p p' q q' ⟨rfl, -⟩ ⟨rfl, -⟩
    exact Position.shift_inj
  before_end := by
    rintro p p' ⟨rfl, beforeEnd⟩
    exact iff_of_true beforeEnd (Nat.lt_of_le_of_lt (Nat.le_add_right _ _) beforeEnd)

theorem SyntaxError.Alike.eq_shift {e e' : SyntaxError}
    (alike : e.Alike (Position.MovedOn bytes lines) e') : e = e'.shift bytes lines := by
  obtain ⟨position, found, expected⟩ := e
  obtain ⟨position', found', expected'⟩ := e'
  obtain ⟨places, rfl, rfl⟩ := alike
  cases places with
  | none => rfl
  | some moved =>
      obtain ⟨rfl, -⟩ := moved
      rfl

/-! ## Tokens one behind the other -/

/-- Tokens behind those of a header are read as they are alone. -/
theorem ofTokens?_append {Place : Position → Position → Prop} (orderly : Orderly Place)
    {tokens others others' : List Token} {h : Header} (read : Header.ofTokens? tokens = .ok h)
    (matched : Matched Place (Cursor.ofTokens others).ahead (Cursor.ofTokens others').ahead) :
    (∃ h', Header.ofTokens? others' = .ok h' ∧
      Header.ofTokens? (tokens ++ others) = .ok ⟨h.declarations ++ h'.declarations⟩) ∨
    ∃ e e', Header.ofTokens? others' = .error e' ∧
      Header.ofTokens? (tokens ++ others) = .error e ∧ e.Alike Place e' := by
  have follows : Cursor.ofTokens (tokens ++ others) =
      (Cursor.ofTokens tokens).followedBy (Cursor.ofTokens others).ahead := by
    rw [Cursor.ofTokens, List.filter_append]
    rfl
  rw [Header.ofTokens?_eq] at read
  cases ran : Reader.declarations (Cursor.ofTokens tokens).ahead.length
      (Cursor.ofTokens tokens) with
  | error e d =>
      rw [ran] at read
      cases read
  | ok ds d =>
      rw [ran] at read
      cases read
      obtain ⟨ended, m, rounds, longer⟩ :=
        Reader.declarations_followedBy (Nat.le_refl _) (Nat.le_refl _) ran
      have ahead : (d.followedBy (Cursor.ofTokens others).ahead).ahead =
          (Cursor.ofTokens others).ahead := by
        rw [Cursor.followedBy, ended]
        rfl
      -- the lead is what the header in front has consumed
      have meets : Cursor.MeetsMatched Place _ d.consumed
          (d.followedBy (Cursor.ofTokens others).ahead) (Cursor.ofTokens others') :=
        ⟨by rwa [ahead], (Nat.zero_add _).symm, rfl⟩
      have alike := Correspondence.declarations_matched orderly (n := m) meets
        (by rwa [ahead]) (Nat.le_refl _)
      have lengths : (Cursor.ofTokens (tokens ++ others)).ahead.length =
          (Cursor.ofTokens tokens).ahead.length + (Cursor.ofTokens others).ahead.length := by
        rw [follows, Cursor.followedBy, List.length_append]
      rw [Header.ofTokens?_eq, Header.ofTokens?_eq, lengths, follows, longer, Reader.bind_apply]
      generalize Reader.declarations m _ = result,
        Reader.declarations _ (Cursor.ofTokens others') = result' at alike ⊢
      cases alike with
      | ok same _ =>
          cases same
          exact Or.inl ⟨_, rfl, rfl⟩
      | error errorsAlike _ => exact Or.inr ⟨_, _, rfl, rfl, errorsAlike⟩

/-- Every token starts before the end of the text. -/
theorem offset_lt_of_tokenize {text : String} {tokens : List Token}
    (scanned : tokenize text.toList = .ok tokens) {t : Token} (mem : t ∈ tokens) :
    t.position.offset < text.utf8ByteSize := by
  rw [tokenize_eq_tokensFrom] at scanned
  have before := offset_lt_of_tokensFrom scanned mem
  rw [Position.advance_start, Position.behind, String.ofList_toList] at before
  exact before

/-- The tokens of a text match themselves further on, if there is room for them. -/
theorem matched_shift {text : List Char} {tokens : List Token}
    (scanned : tokenize text = .ok tokens) (lines : Nat)
    (room : ∀ t ∈ tokens, t.position.offset + bytes < SyntaxError.endDepth) :
    Matched (Position.MovedOn bytes lines)
      (Cursor.ofTokens (tokens.map (·.shift bytes lines))).ahead
      (Cursor.ofTokens tokens).ahead := by
  have shifted : (Cursor.ofTokens (tokens.map (·.shift bytes lines))).ahead =
      (Cursor.ofTokens tokens).ahead.map (·.shift bytes lines) := by
    rw [Cursor.ofTokens, List.filter_map]
    rfl
  rw [shifted, Cursor.ofTokens_ahead scanned]
  refine .of_forall₂ ?_ ?_
  · rintro p p' q q' ⟨rfl, -⟩ ⟨rfl, -⟩
    exact Nat.add_right_cancel_iff
  · rw [List.forall₂_map_left_iff, List.forall₂_same]
    intro t mem
    exact ⟨rfl, rfl, rfl, room t mem⟩

theorem tokens_of_ofText?_ok {text : String} {h : Header} (read : Header.ofText? text = .ok h) :
    ∃ tokens, tokenize text.toList = .ok tokens ∧ Header.ofTokens? tokens = .ok h := by
  rw [Header.ofText?_eq] at read
  split at read
  · cases read
  · rename_i tokens scanned
    refine ⟨tokens, scanned, ?_⟩
    split at read
    · cases read
    · rename_i header headerRead
      cases read
      exact headerRead

/-- Texts concatenate as headers: where the first is a header, what stands behind it and a line
    break is read as it is alone. Its declarations follow those of the first, and an error in it is
    the same one, as many bytes and lines further on as the first text and the line break take. -/
theorem ofText?_append_newline {first second : String} {h : Header}
    (read : Header.ofText? first = .ok h) (held : Text.Held (first ++ "\n" ++ second)) :
    Header.ofText? (first ++ "\n" ++ second) =
      match Header.ofText? second with
      | .ok h' => .ok ⟨h.declarations ++ h'.declarations⟩
      | .error e => .error (e.shift (first.utf8ByteSize + 1) (first.toList.count '\n' + 1)) := by
  have whole : (first ++ "\n" ++ second).toList = first.toList ++ '\n' :: second.toList := by
    rw [String.toList_append, String.toList_append, List.append_assoc]
    rfl
  obtain ⟨tokens, scanned, headerRead⟩ := tokens_of_ofText?_ok read
  have scannedAll := tokenize_append_newline scanned second.toList
  rw [String.ofList_toList] at scannedAll
  rw [Header.ofText?_eq, Header.ofText?_eq, whole, scannedAll]
  cases scannedOthers : tokenize second.toList with
  | error e => rfl
  | ok others =>
      simp only [scannedOthers] at scannedAll ⊢
      rw [← whole] at scannedAll
      have room (t : Token) (mem : t ∈ others) :
          t.position.offset + (first.utf8ByteSize + 1) < SyntaxError.endDepth := by
        have memAll := List.mem_append_right tokens (List.mem_map_of_mem
          (f := (·.shift (first.utf8ByteSize + 1) (first.toList.count '\n' + 1))) mem)
        exact Nat.lt_trans (offset_lt_of_tokenize scannedAll memAll) held
      have matched := matched_shift scannedOthers (first.toList.count '\n' + 1) room
      rcases ofTokens?_append Position.movedOn_orderly headerRead matched with
        ⟨h', read', wholeRead⟩ | ⟨e, e', read', wholeRead, alike⟩
      · simp only [read', wholeRead]
      · simp only [read', wholeRead]
        rw [alike.eq_shift]
        rfl

/-- A header that ends with a comment, without a line break. -/
def trailedText : String :=
  "typedef int a; // first"

/-- A definition without a type. -/
def untypedText : String :=
  "typedef ;"

/-- The slip is found in the second line, in the column where it stands alone. -/
theorem trailedText_append_untypedText :
    ∃ h, Header.ofText? trailedText = .ok h ∧
      Text.Held (trailedText ++ "\n" ++ untypedText) ∧
      Header.ofText? untypedText = .error (.grammatical ⟨some ⟨8, 1, 9⟩, "';'",
        ["'enum'", "'const'", "identifier", "'struct'"]⟩) ∧
      Header.ofText? (trailedText ++ "\n" ++ untypedText) =
        .error (.grammatical ⟨some ⟨32, 2, 9⟩, "';'",
          ["'enum'", "'const'", "identifier", "'struct'"]⟩) := by
  have accepted : (Header.ofText? trailedText).isOk = true := by decide +kernel
  have held : Text.Held (trailedText ++ "\n" ++ untypedText) := by decide +kernel
  have scanned : tokenize untypedText.toList = .ok [⟨.keyword .typedef, "typedef", ⟨0, 1, 1⟩⟩,
      ⟨.punct .semicolon, ";", ⟨8, 1, 9⟩⟩] := by decide +kernel
  have refused : Header.ofText? untypedText = .error (.grammatical ⟨some ⟨8, 1, 9⟩, "';'",
      ["'enum'", "'const'", "identifier", "'struct'"]⟩) := by
    rw [Header.ofText?_eq, scanned]
    rfl
  cases read : Header.ofText? trailedText with
  | error e =>
      rw [read] at accepted
      cases accepted
  | ok h =>
      refine ⟨h, rfl, held, refused, ?_⟩
      rw [ofText?_append_newline read held, refused]
      exact congrArg Except.error (by decide +kernel)

end InterfaceHeader
