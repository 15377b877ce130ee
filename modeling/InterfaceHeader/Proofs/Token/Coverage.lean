import InterfaceHeader.Proofs.Text.Places
import InterfaceHeader.Token.Scanner

/-!
# What a scan covers

A scan loses nothing: the lexemes of its tokens and the text it leaves are the text it started
from, and every token stands where its lexeme starts. Where it stops before the end no rule fits.
Only blank space and comments can hold a newline, so every other token stands within a line.
-/

namespace InterfaceHeader

/-- The text that tokens were cut from. -/
def lexemes (tokens : List Token) : List Char :=
  tokens.flatMap fun t => t.lexeme.toList

/-- The tokens follow one another, the first at the place. -/
def Tiles : Position → List Token → Prop
  | _, [] => True
  | p, t :: tokens => t.position = p ∧ Tiles (p.advance t.lexeme.toList) tokens

/-- The token is what the first rule that fits finds somewhere. -/
def Token.Cut (rs : List Rule) (t : Token) : Prop :=
  ∃ c cs reach, firstMatch? rs c cs = some (t.kind, reach) ∧
    t.lexeme = String.ofList (c :: cs.take reach)

/-- Each of the tokens stands where it is, behind the tokens before it. -/
theorem Tiles.exists_before {p : Position} {tokens : List Token} (tiles : Tiles p tokens)
    {t : Token} (mem : t ∈ tokens) :
    ∃ before after, lexemes tokens = before ++ t.lexeme.toList ++ after ∧
      t.position = p.advance before := by
  induction tokens generalizing p with
  | nil => cases mem
  | cons first tokens ih =>
      obtain ⟨here, tiles⟩ := tiles
      rcases List.mem_cons.mp mem with rfl | mem
      · exact ⟨[], lexemes tokens, rfl, here⟩
      · obtain ⟨before, after, text, place⟩ := ih tiles mem
        refine ⟨first.lexeme.toList ++ before, after, ?_, ?_⟩
        · rw [lexemes, List.flatMap_cons, ← lexemes, text]
          simp only [List.append_assoc]
        · rw [place, Position.advance_append]

namespace Scanner

/-- At the end of the text there is nothing to scan. -/
theorem scan_nil (rs : List Rule) (p : Position) : scan rs ⟨[], p⟩ = ([], ⟨[], p⟩) := by
  rw [scan]

/-- Where no rule fits the scan ends. -/
theorem scan_none {rs : List Rule} {c : Char} {cs : List Char} (unfit : firstMatch? rs c cs = none)
    (p : Position) : scan rs ⟨c :: cs, p⟩ = ([], ⟨c :: cs, p⟩) := by
  rw [scan]
  simp only [unfit]

/-- Where a rule fits a token is cut off. -/
theorem scan_some {rs : List Rule} {c : Char} {cs : List Char} {kind : TokenKind} {reach : Nat}
    (fit : firstMatch? rs c cs = some (kind, reach)) (p : Position) :
    scan rs ⟨c :: cs, p⟩ =
      let later := scan rs ⟨cs.drop reach, p.advance (c :: cs.take reach)⟩
      (⟨kind, String.ofList (c :: cs.take reach), p⟩ :: later.1, later.2) := by
  rw [scan]
  simp only [fit]

/-- To show something of every text and place, one may follow a scan: to the end of the text, to
where no rule fits, or behind the token that is cut off. -/
theorem scan_induction {rs : List Rule} {motive : List Char → Position → Prop}
    (nil : ∀ p, motive [] p)
    (unfit : ∀ c cs p, firstMatch? rs c cs = none → motive (c :: cs) p)
    (fit : ∀ c cs p kind reach, firstMatch? rs c cs = some (kind, reach) →
      motive (cs.drop reach) (p.advance (c :: cs.take reach)) → motive (c :: cs) p)
    (rest : List Char) (p : Position) : motive rest p := by
  induction length : rest.length using Nat.strongRecOn generalizing rest p with
  | ind n ih =>
      cases rest with
      | nil => exact nil p
      | cons c cs =>
          cases found : firstMatch? rs c cs with
          | none => exact unfit c cs p found
          | some token =>
              have shorter : (cs.drop token.2).length < n := by
                rw [← length, List.length_drop, List.length_cons]
                omega
              exact fit c cs p token.1 token.2 found (ih _ shorter _ _ rfl)

/-- What a scan does to a text. -/
structure Covers (rs : List Rule) (s : Scanner) (tokens : List Token) (stop : Scanner) :
    Prop where
  text : s.rest = lexemes tokens ++ stop.rest
  tiles : Tiles s.position tokens
  position : stop.position = s.position.advance (lexemes tokens)
  cut : ∀ t ∈ tokens, t.Cut rs
  ends : ∀ c cs, stop.rest = c :: cs → firstMatch? rs c cs = none

theorem scan_covers (rs : List Rule) (s : Scanner) :
    Covers rs s (s.scan rs).1 (s.scan rs).2 := by
  obtain ⟨rest, p⟩ := s
  induction rest, p using @scan_induction rs with
  | nil p =>
      rw [scan_nil]
      exact ⟨rfl, trivial, rfl, nofun, nofun⟩
  | unfit c cs p unfit =>
      rw [scan_none unfit]
      refine ⟨rfl, trivial, rfl, nofun, ?_⟩
      rintro _ _ ⟨⟩
      exact unfit
  | fit c cs p kind reach fit later =>
      have whole : c :: cs = (c :: cs.take reach) ++ cs.drop reach := by
        rw [List.cons_append, List.take_append_drop]
      rw [scan_some fit]
      constructor
      · refine (whole.trans (congrArg (_ ++ ·) later.text)).trans ?_
        simp only [lexemes, List.flatMap_cons, String.toList_ofList, List.append_assoc]
      · refine ⟨rfl, ?_⟩
        rw [String.toList_ofList]
        exact later.tiles
      · simp only [later.position, lexemes, List.flatMap_cons, String.toList_ofList,
          Position.advance_append]
      · intro t mem
        rcases List.mem_cons.mp mem with rfl | mem
        · exact ⟨c, cs, reach, fit, rfl⟩
        · exact later.cut t mem
      · exact later.ends

end Scanner

/-- What tokens say about the text they come from. -/
theorem tokenize_ok {text : List Char} {tokens : List Token} (scanned : tokenize text = .ok tokens)
    {t : Token} (mem : t ∈ tokens) :
    t.kind ≠ .blank ∧ t.Cut rules ∧ ∃ before after, text = before ++ t.lexeme.toList ++ after ∧
      t.position = Position.start.advance before := by
  have covers := Scanner.scan_covers rules (.ofText text)
  unfold tokenize Scanner.tokenize at scanned
  simp only at scanned
  split at scanned
  · rename_i all
    cases scanned
    obtain ⟨mem, kind⟩ := List.mem_filter.mp mem
    obtain ⟨before, after, whole, place⟩ := covers.tiles.exists_before mem
    refine ⟨bne_iff_ne.mp kind, covers.cut t mem, before, after, ?_, place⟩
    have rest : text = _ := covers.text
    rwa [all, List.append_nil, whole] at rest
  · cases scanned

/-- What a lexical error says about the text: its character stands there, and no rule fits. -/
theorem tokenize_error {text : List Char} {e : LexError} (failed : tokenize text = .error e) :
    ∃ before after, text = before ++ e.found :: after ∧
      e.position = Position.start.advance before ∧ firstMatch? rules e.found after = none := by
  have covers := Scanner.scan_covers rules (.ofText text)
  unfold tokenize Scanner.tokenize at failed
  simp only at failed
  split at failed
  · cases failed
  · rename_i c cs rest
    cases failed
    refine ⟨_, cs, ?_, covers.position, covers.ends c cs rest⟩
    rw [← rest]
    exact covers.text

end InterfaceHeader
