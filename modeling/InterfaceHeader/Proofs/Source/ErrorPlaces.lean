import InterfaceHeader.Declaration.Source
import InterfaceHeader.Proofs.Conditional.PhysicalLines
import InterfaceHeader.Proofs.Grammar.DeclarationSoundness
import InterfaceHeader.Proofs.Token.Shapes

/-!
# Places of errors

Errors of scanning and reading name places of the flat text. With line numbers kept these are the
places of the source as well: where a line of the flat text is not empty it is the line of the
source with the same number, and what an error is about stands within a line.
-/

namespace InterfaceHeader

/-- An error of reading stands at a significant token and describes it, or at the end. -/
theorem ofTokens?_error {tokens : List Token} {e : SyntaxError}
    (failed : Header.ofTokens? tokens = .error e) : e.StandsIn (Cursor.ofTokens tokens).ahead := by
  unfold Header.ofTokens? Reader.outcome at failed
  split at failed
  · cases failed
  · rename_i read
    cases failed
    exact (Reader.header_reads.error read).2

/-- The steps in which the text of a header is read. -/
theorem ofSource?_eq {text : String} {nodes : List Node}
    (outlined : outlineOf? text.toList = .ok nodes) (config : Configuration) :
    Header.ofSource? text config = Header.ofText? (flatten nodes config) := by
  unfold Header.ofSource? preprocess
  rw [outlined]
  rfl

/-- A line of the flat text is empty or a line of the source. -/
theorem flatLines_mem {text : List Char} {nodes : List Node}
    (outlined : outlineOf? text = .ok nodes) (symbols : SymbolTable) {k : Nat} {line : String}
    (found : (flatLines nodes ⟨symbols, true⟩)[k]? = some line) :
    line = "" ∨ (Text.lines text)[k]? = some line.toList := by
  obtain ⟨length, stands⟩ := flatLines_physical outlined symbols
  have bound : k < (Text.lines text).length := by
    rw [← length]
    exact (List.getElem?_eq_some_iff.mp found).1
  obtain ⟨before, source, after, _, _, same⟩ := stands k bound
  rw [found] at same
  split at same
  · right
    cases same
    rw [String.toList_ofList, List.getElem?_eq_getElem bound]
  · exact Or.inl (Option.some.inj same)

/-- What stands within a line of the flat text stands at the same line and column of the source. -/
theorem standsAt_of_flatten {text : List Char} {nodes : List Node}
    (outlined : outlineOf? text = .ok nodes) (symbols : SymbolTable) {before w after : List Char}
    (stands : (flatten nodes ⟨symbols, true⟩).toList = before ++ w ++ after) (some : w ≠ [])
    (inLine : '\n' ∉ w) {p : Position} (place : p = Position.start.advance before) :
    Text.StandsAt text w p.line p.column := by
  have single : ∀ line ∈ flatLines nodes ⟨symbols, true⟩, '\n' ∉ line.toList := by
    intro line mem
    obtain ⟨k, found⟩ := List.mem_iff_getElem?.mp mem
    rcases flatLines_mem outlined symbols found with rfl | source
    · exact List.not_mem_nil
    · exact Text.newline_not_mem_of_mem_lines (List.mem_of_getElem? source)
  rw [flatten, Text.toList_unlines] at stands
  obtain ⟨k, line, a, b, found, whole, line', column⟩ :=
    Text.exists_line_of_place single stands some inLine (p := .start) rfl
  rcases flatLines_mem outlined symbols found with rfl | source
  · exact absurd (List.append_eq_nil_iff.mp (List.append_eq_nil_iff.mp whole.symm).1).2 some
  · rw [whole] at source
    rw [place, line', column]
    have found := Text.standsAt_of_lines source
    rwa [Nat.add_comm k, Nat.add_comm a.length] at found

/-- The steps in which an error of scanning or reading comes about. -/
theorem tokens_of_ofText?_error {flat : String} {e : HeaderError}
    (failed : Header.ofText? flat = .error e) :
    (∃ error, tokenize flat.toList = .error error ∧ e = .lexical error) ∨
      ∃ tokens error, tokenize flat.toList = .ok tokens ∧
        Header.ofTokens? tokens = .error error ∧ e = .grammatical error := by
  rw [Header.ofText?_eq] at failed
  cases scanned : tokenize flat.toList with
  | error error =>
      rw [scanned] at failed
      cases failed
      exact Or.inl ⟨error, rfl, rfl⟩
  | ok tokens =>
      rw [scanned] at failed
      dsimp only at failed
      cases read : Header.ofTokens? tokens with
      | ok h =>
          rw [read] at failed
          cases failed
      | error error =>
          rw [read] at failed
          cases failed
          exact Or.inr ⟨tokens, error, rfl, read, rfl⟩

/-- With line numbers kept, the flat text consists of one line for every physical line of the
    source: the line itself if it is a line of text with all branches around it selected, and an
    empty line otherwise. So the character that scanning fails at, and the token that reading fails
    at, stand in the source at the line and column that the error names. -/
theorem flatten_preserves_places {text : String} {nodes : List Node}
    (outlined : outlineOf? text.toList = .ok nodes) (symbols : SymbolTable) :
    (∃ flat : List String, flatten nodes ⟨symbols, true⟩ = Text.unlines flat ∧
      flat.length = (Text.lines text.toList).length ∧
      ∀ (k : Nat) (bound : k < (Text.lines text.toList).length),
        ∃ before line after,
          logicalLines (Text.lines text.toList) = before ++ line :: after ∧
          line.Covers (k + 1) ∧
          flat[k]? =
            some (if line.isDirective = false ∧ ((Pass.start symbols).run before).allActive = true
              then String.ofList (Text.lines text.toList)[k] else "")) ∧
      (∀ e, Header.ofSource? text ⟨symbols, true⟩ = .error (.lexical e) →
        Text.StandsAt text.toList [e.found] e.position.line e.position.column) ∧
      ∀ e p, Header.ofSource? text ⟨symbols, true⟩ = .error (.grammatical e) →
        e.position = some p →
        ∃ tokens, tokenize (flatten nodes ⟨symbols, true⟩).toList = .ok tokens ∧
          ∃ t ∈ tokens, t.isSignificant = true ∧ t.position = p ∧ e.found = t.describe ∧
            Text.StandsAt text.toList t.lexeme.toList p.line p.column := by
  obtain ⟨length, stands⟩ := flatLines_physical outlined symbols
  refine ⟨⟨_, rfl, length, stands⟩, ?_, ?_⟩
  · intro e failed
    rw [ofSource?_eq outlined] at failed
    rcases tokens_of_ofText?_error failed with ⟨error, scanned, same⟩ | ⟨_, _, _, _, same⟩
    · cases same
      obtain ⟨before, after, whole, place, unfit⟩ := tokenize_error scanned
      have inLine : '\n' ∉ [e.found] := by
        intro mem
        rw [← List.mem_singleton.mp mem] at unfit
        exact firstMatch?_newline after unfit
      rw [← List.singleton_append, ← List.append_assoc] at whole
      exact standsAt_of_flatten outlined symbols whole (List.cons_ne_nil _ _) inLine place
    · cases same
  · intro e p failed place
    rw [ofSource?_eq outlined] at failed
    rcases tokens_of_ofText?_error failed with ⟨_, _, same⟩ | ⟨tokens, error, scanned, read, same⟩
    · cases same
    · cases same
      refine ⟨tokens, scanned, ?_⟩
      rcases ofTokens?_error read with ⟨none, _⟩ | ⟨t, mem, significant, here, found⟩
      · rw [none] at place
        cases place
      · rw [here] at place
        cases place
        have mem : t ∈ tokens := (List.mem_filter.mp mem).1
        obtain ⟨blank, cut, before, after, whole, position⟩ := tokenize_ok scanned mem
        have comment : t.kind ≠ .comment := by
          intro comment
          rw [Token.isSignificant, Token.isComment, comment] at significant
          cases significant
        obtain ⟨some, inLine⟩ := cut.spells.inLine blank comment
        exact ⟨t, mem, significant, rfl, found,
          standsAt_of_flatten outlined symbols whole some inLine position⟩

/-- The error that a text is refused with. -/
def refusal? (text : String) (config : Configuration) : Option HeaderError :=
  match Header.ofSource? text config with
  | .error e => some e
  | .ok _ => none

theorem ofSource?_of_refusal? {text : String} {config : Configuration} {e : HeaderError}
    (refused : refusal? text config = some e) : Header.ofSource? text config = .error e := by
  unfold refusal? at refused
  cases read : Header.ofSource? text config with
  | error error =>
      rw [read] at refused
      cases refused
      rfl
  | ok h =>
      rw [read] at refused
      cases refused

/-- A text with an unknown character in its first branch and, behind a continued directive, a
    declaration without a type in its second. -/
def continuedText : String :=
  "#if A\ntypedef int a @;\n#elif \\\n B\ntypedef ;\n#endif\n"

/-- The flat text has a line for each of the six lines, and what each of the two errors is about
    stands where the error says. -/
theorem continuedText_places :
    ∃ nodes flat, outlineOf? continuedText.toList = .ok nodes ∧
      flatten nodes ⟨.ofFlags ["B"], true⟩ = Text.unlines flat ∧ flat.length = 6 ∧
      Header.ofSource? continuedText ⟨.ofFlags ["A"], true⟩ =
        .error (.lexical ⟨⟨15, 2, 15⟩, '@'⟩) ∧
      Text.StandsAt continuedText.toList ['@'] 2 15 ∧
      Header.ofSource? continuedText ⟨.ofFlags ["B"], true⟩ =
        .error (.grammatical ⟨some ⟨12, 5, 9⟩, "';'",
          ["'enum'", "'const'", "identifier", "'struct'"]⟩) ∧
      ∃ t : Token, t.describe = "';'" ∧
        Text.StandsAt continuedText.toList t.lexeme.toList 5 9 := by
  have accepted : (outlineOf? continuedText.toList).isOk = true := by decide +kernel
  have physical : (Text.lines continuedText.toList).length = 6 := by decide +kernel
  have lexical : Header.ofSource? continuedText ⟨.ofFlags ["A"], true⟩ =
      .error (.lexical ⟨⟨15, 2, 15⟩, '@'⟩) := ofSource?_of_refusal? (by decide +kernel)
  have grammatical : Header.ofSource? continuedText ⟨.ofFlags ["B"], true⟩ =
      .error (.grammatical ⟨some ⟨12, 5, 9⟩, "';'",
        ["'enum'", "'const'", "identifier", "'struct'"]⟩) :=
    ofSource?_of_refusal? (by decide +kernel)
  cases outlined : outlineOf? continuedText.toList with
  | error error =>
      rw [outlined] at accepted
      cases accepted
  | ok nodes =>
      obtain ⟨_, unknown, _⟩ := flatten_preserves_places outlined (.ofFlags ["A"])
      obtain ⟨⟨flat, text, length, _⟩, _, unfit⟩ :=
        flatten_preserves_places outlined (.ofFlags ["B"])
      obtain ⟨_, _, t, _, _, _, found, stands⟩ := unfit _ _ grammatical rfl
      exact ⟨nodes, flat, rfl, text, length.trans physical, lexical, unknown _ lexical,
        grammatical, t, found.symm, stands⟩

end InterfaceHeader
