import InterfaceHeader.Json.Reader
import InterfaceHeader.Proofs.Json.Words

/-!
# Writing and reading values

The words of a value lead the reader over the value, whatever is open around it, so a written value
is read back. How many arrays and objects its words open at once is the depth of the value.
-/

namespace InterfaceHeader.Json

/-! ## Reading the words of a value -/

theorem foldlM_enclosed (p : Place) (opening closing : Lexeme) (parts : List (List Lexeme)) :
    (enclosed opening closing parts).foldlM Place.step p =
      (p.step opening).bind fun inner =>
        ([Lexeme.comma].intercalate parts ++ [closing]).foldlM Place.step inner := by
  rw [enclosed, List.cons_append, List.foldlM_cons]
  rfl

/-- Where an array may end, its first item is read as any other. -/
theorem foldlM_words_item (v : Value) (stack : List Frame) (more : List Lexeme) :
    (v.words ++ more).foldlM Place.step ⟨.array [] :: stack, .item⟩ =
      (v.words ++ more).foldlM Place.step ⟨.array [] :: stack, .value⟩ := by
  cases v <;> rfl

/-- A part inside brackets comes alone, or a comma and further parts follow it. -/
theorem intercalate_comma (part : List Lexeme) (parts : List (List Lexeme)) (more : List Lexeme) :
    [Lexeme.comma].intercalate (part :: parts) ++ more =
      part ++ match parts with
        | [] => more
        | next :: parts => .comma :: ([Lexeme.comma].intercalate (next :: parts) ++ more) := by
  cases parts with
  | nil => simp
  | cons next parts => simp [List.intercalate_cons_cons]

/-- Over the words in front the reader comes to a place, and from there over those behind. -/
theorem foldlM_step_append {p q : Place} {words : List Lexeme}
    (read : words.foldlM Place.step p = some q) (more : List Lexeme) :
    (words ++ more).foldlM Place.step p = more.foldlM Place.step q := by
  rw [List.foldlM_append, read]
  rfl

mutual

/-- The words of a value lead over the value. -/
theorem Value.foldlM_words (v : Value) (stack : List Frame) :
    v.words.foldlM Place.step ⟨stack, .value⟩ = some ⟨stack, .after v⟩ := by
  cases v with
  | null => rfl
  | bool b => rfl
  | number literal => rfl
  | string text => rfl
  | array items =>
      have inside := foldlM_itemWords items [] stack
      rw [Value.words, foldlM_enclosed]
      cases items with
      | nil => rfl
      | cons item rest =>
          have inside := inside (List.cons_ne_nil item rest)
          have start := foldlM_words_item item stack
          rw [itemWords, intercalate_comma] at inside ⊢
          exact (start _).trans inside
  | object members =>
      have inside := foldlM_memberWords members [] stack
      rw [Value.words, foldlM_enclosed]
      cases members with
      | nil => rfl
      | cons member rest =>
          have inside := inside (List.cons_ne_nil member rest)
          rw [memberWords, intercalate_comma] at inside ⊢
          exact inside

/-- The words of items, up to the closing bracket. -/
theorem foldlM_itemWords (items read : List Value) (stack : List Frame) (nonempty : items ≠ []) :
    ([Lexeme.comma].intercalate (itemWords items) ++ [Lexeme.closeBracket]).foldlM
        Place.step ⟨.array read :: stack, .value⟩ =
      some ⟨stack, .after (.array (read ++ items))⟩ := by
  cases items with
  | nil => exact absurd rfl nonempty
  | cons item rest =>
      have first := item.foldlM_words (.array read :: stack)
      have later := foldlM_itemWords rest (read ++ [item]) stack
      rw [itemWords, intercalate_comma, foldlM_step_append first]
      cases rest with
      | nil => rfl
      | cons next rest =>
          rw [List.append_assoc] at later
          exact later (List.cons_ne_nil next rest)

/-- The words of members, up to the closing brace. -/
theorem foldlM_memberWords (members read : List (Text × Value)) (stack : List Frame)
    (nonempty : members ≠ []) :
    ([Lexeme.comma].intercalate (memberWords members) ++ [Lexeme.closeBrace]).foldlM
        Place.step ⟨.object read :: stack, .key⟩ =
      some ⟨stack, .after (.object (read ++ members))⟩ := by
  cases members with
  | nil => exact absurd rfl nonempty
  | cons member rest =>
      obtain ⟨key, value⟩ := member
      have inner := value.foldlM_words (.member read key :: stack)
      have first : (.string key :: .colon :: value.words).foldlM Place.step
          ⟨.object read :: stack, .key⟩ = some ⟨.member read key :: stack, .after value⟩ := inner
      have later := foldlM_memberWords rest (read ++ [(key, value)]) stack
      rw [memberWords, intercalate_comma, foldlM_step_append first]
      cases rest with
      | nil => rfl
      | cons next rest =>
          rw [List.append_assoc] at later
          exact later (List.cons_ne_nil next rest)

end

/-- The text of a value is read as its words. -/
theorem lexemes?_write {v : Value} (whole : v.Whole) :
    lexemes? (v.write 0 ++ "\n").toList = some v.words := by
  have divided : Divided "\n".toList := divided_cons rfl rfl []
  have ending : lexemes? "\n".toList = some [] := by
    have space : lexemes? ['\n'] = lexemes? [] := lexemes?_space rfl []
    exact space.trans (by rw [lexemes?])
  rw [String.toList_append, v.open_write whole 0 _ divided, ending]
  simp

/-- A written value is read back. -/
theorem parse?_write {v : Value} (whole : v.Whole) :
    parse? (v.write 0 ++ "\n").toList = some v := by
  have read := v.foldlM_words []
  rw [parse?, lexemes?_write whole]
  simp [Place.start, read, Place.result?]

/-! ## Depth -/

/-- How many arrays and objects are open behind a word. -/
def Lexeme.openBehind (opened : Nat) : Lexeme → Nat
  | .openBracket | .openBrace => opened + 1
  | .closeBracket | .closeBrace => opened - 1
  | _ => opened

/-- How many arrays and objects are at most open at once along the words, if so many are open in
    front of them. -/
def mostOpen (opened : Nat) : List Lexeme → Nat
  | [] => opened
  | word :: rest => max opened (mostOpen (word.openBehind opened) rest)

mutual

/-- How many arrays and objects of the value contain each other. -/
def Value.depth : Value → Nat
  | .array items => itemsDepth items + 1
  | .object members => membersDepth members + 1
  | _ => 0

def itemsDepth : List Value → Nat
  | [] => 0
  | item :: rest => max item.depth (itemsDepth rest)

def membersDepth : List (Text × Value) → Nat
  | [] => 0
  | (_, value) :: rest => max value.depth (membersDepth rest)

end

theorem le_mostOpen (opened : Nat) (words : List Lexeme) : opened ≤ mostOpen opened words := by
  cases words with
  | nil => exact Nat.le_refl _
  | cons word rest => exact Nat.le_max_left _ _

mutual

/-- Along the words of a value as many arrays and objects are opened as the value is deep. -/
theorem Value.mostOpen_words (v : Value) (opened : Nat) (more : List Lexeme) :
    mostOpen opened (v.words ++ more) = max (opened + v.depth) (mostOpen opened more) := by
  have behind := le_mostOpen opened more
  cases v with
  | null => rfl
  | bool b => rfl
  | number literal => rfl
  | string text => rfl
  | array items =>
      have inside := mostOpen_itemWords items (opened + 1) (.closeBracket :: more)
      simp only [Value.words, enclosed, Value.depth, mostOpen, Lexeme.openBehind,
        List.cons_append, List.append_assoc, List.nil_append, inside, Nat.add_sub_cancel]
      omega
  | object members =>
      have inside := mostOpen_memberWords members (opened + 1) (.closeBrace :: more)
      simp only [Value.words, enclosed, Value.depth, mostOpen, Lexeme.openBehind,
        List.cons_append, List.append_assoc, List.nil_append, inside, Nat.add_sub_cancel]
      omega

theorem mostOpen_itemWords (items : List Value) (opened : Nat) (more : List Lexeme) :
    mostOpen opened ([Lexeme.comma].intercalate (itemWords items) ++ more) =
      max (opened + itemsDepth items) (mostOpen opened more) := by
  have behind := le_mostOpen opened more
  cases items with
  | nil =>
      rw [itemWords, List.intercalate_nil, List.nil_append, itemsDepth]
      omega
  | cons item rest =>
      have first := item.mostOpen_words opened
      rw [itemWords, intercalate_comma, first, itemsDepth]
      cases rest with
      | nil => simp only [itemWords, itemsDepth, Nat.max_zero]
      | cons next rest =>
          have later := mostOpen_itemWords (next :: rest) opened more
          rw [itemWords] at later ⊢
          simp only [mostOpen, Lexeme.openBehind, later]
          omega

theorem mostOpen_memberWords (members : List (Text × Value)) (opened : Nat)
    (more : List Lexeme) :
    mostOpen opened ([Lexeme.comma].intercalate (memberWords members) ++ more) =
      max (opened + membersDepth members) (mostOpen opened more) := by
  have behind := le_mostOpen opened more
  cases members with
  | nil =>
      rw [memberWords, List.intercalate_nil, List.nil_append, membersDepth]
      omega
  | cons member rest =>
      obtain ⟨key, value⟩ := member
      have first := value.mostOpen_words opened
      rw [memberWords, intercalate_comma, membersDepth]
      simp only [List.cons_append, mostOpen, Lexeme.openBehind, first]
      cases rest with
      | nil =>
          simp only [memberWords, membersDepth]
          omega
      | cons next rest =>
          obtain ⟨key', value'⟩ := next
          have later := mostOpen_memberWords ((key', value') :: rest) opened more
          rw [memberWords] at later ⊢
          simp only [mostOpen, Lexeme.openBehind, later]
          omega

end

end InterfaceHeader.Json
