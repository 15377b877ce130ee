import InterfaceHeader.Json.Writer
import InterfaceHeader.Proofs.Json.Literals

/-!
# The words of a written value

A written value is put together from pieces. A piece that is closed is read as its words whatever
follows it; a piece that is open is read so unless a number or a name goes on behind it. Behind
every value in a written text comes a comma, a line break or the end, so the text of a value is
read as the words of the value, with blank space dropped.
-/

namespace InterfaceHeader.Json

/-- The words of what stands inside brackets, with commas between its parts. -/
def enclosed (opening closing : Lexeme) (parts : List (List Lexeme)) : List Lexeme :=
  opening :: [Lexeme.comma].intercalate parts ++ [closing]

mutual

/-- The words of a value. -/
def Value.words : Value → List Lexeme
  | .null => [.null]
  | .bool b => [.bool b]
  | .number literal => [.number literal]
  | .string text => [.string text]
  | .array items => enclosed .openBracket .closeBracket (itemWords items)
  | .object members => enclosed .openBrace .closeBrace (memberWords members)

/-- The words of each item of an array. -/
def itemWords : List Value → List (List Lexeme)
  | [] => []
  | item :: rest => item.words :: itemWords rest

/-- The words of each member of an object. -/
def memberWords : List (Text × Value) → List (List Lexeme)
  | [] => []
  | (key, value) :: rest => (.string key :: .colon :: value.words) :: memberWords rest

end

mutual

/-- All numbers in the value are whole. -/
def Value.Whole : Value → Prop
  | .number literal => ∃ n, literal.toList = Decimal.write n
  | .array items => ItemsWhole items
  | .object members => MembersWhole members
  | _ => True

def ItemsWhole : List Value → Prop
  | [] => True
  | item :: rest => item.Whole ∧ ItemsWhole rest

def MembersWhole : List (Text × Value) → Prop
  | [] => True
  | (_, value) :: rest => value.Whole ∧ MembersWhole rest

end

/-! ## Pieces -/

/-- Neither a number nor a name goes on into the text. -/
def Divided (rest : List Char) : Prop :=
  ∀ c ∈ rest.head?, isNumberChar c = false ∧ c.isAlpha = false

/-- The piece is read as the words. -/
def Closed (s : String) (words : List Lexeme) : Prop :=
  ∀ rest, lexemes? (s.toList ++ rest) = (lexemes? rest).map (words ++ ·)

/-- The piece is read as the words if neither a number nor a name goes on behind it. -/
def Open (s : String) (words : List Lexeme) : Prop :=
  ∀ rest, Divided rest → lexemes? (s.toList ++ rest) = (lexemes? rest).map (words ++ ·)

/-- The pieces are open, and each is read as its words. -/
inductive AllOpen : List String → List (List Lexeme) → Prop where
  | nil : AllOpen [] []
  | cons {s : String} {words : List Lexeme} {pieces : List String} {parts : List (List Lexeme)} :
      Open s words → AllOpen pieces parts → AllOpen (s :: pieces) (words :: parts)

section

variable {a b : String} {v w : List Lexeme}

theorem Closed.open (closed : Closed a v) : Open a v :=
  fun rest _ => closed rest

theorem Closed.append (left : Closed a v) (right : Closed b w) : Closed (a ++ b) (v ++ w) := by
  intro rest
  rw [String.toList_append, List.append_assoc, left, right, Option.map_map]
  simp [Function.comp_def]

theorem Closed.append_open (left : Closed a v) (right : Open b w) : Open (a ++ b) (v ++ w) := by
  intro rest divided
  rw [String.toList_append, List.append_assoc, left, right rest divided, Option.map_map]
  simp [Function.comp_def]

theorem Open.append_closed (left : Open a v) (right : Closed b w)
    (divides : ∀ rest, Divided (b.toList ++ rest)) : Closed (a ++ b) (v ++ w) := by
  intro rest
  rw [String.toList_append, List.append_assoc, left _ (divides rest), right, Option.map_map]
  simp [Function.comp_def]

end

theorem divided_cons {c : Char} (number : isNumberChar c = false) (name : c.isAlpha = false)
    (rest : List Char) : Divided (c :: rest) := by
  intro d mem
  cases mem
  exact ⟨number, name⟩

/-- What a divided text has in front of it does not go on into it. -/
theorem takeWhile_append_divided {p : Char → Bool} {cs rest : List Char}
    (all : ∀ c ∈ cs, p c = true) (divided : ∀ c ∈ rest.head?, p c = false) :
    (cs ++ rest).takeWhile p = cs := by
  rw [List.takeWhile_append_of_pos all]
  cases rest with
  | nil => simp
  | cons c rest =>
      have ends : p c = false := divided c rfl
      rw [List.takeWhile_cons_of_neg (by simp [ends]), List.append_nil]

/-! ## Single words -/

theorem lexemes?_cons {c : Char} {cs : List Char} {word : Lexeme} {count : Nat}
    (visible : isSpace c = false) (found : lexeme? c cs = some (word, count)) :
    lexemes? (c :: cs) = (lexemes? (cs.drop count)).map (word :: ·) := by
  rw [lexemes?, visible, found]
  rfl

theorem lexemes?_space {c : Char} (space : isSpace c = true) (cs : List Char) :
    lexemes? (c :: cs) = lexemes? cs := by
  rw [lexemes?, if_pos space]

theorem lexemes?_mark {c : Char} {word : Lexeme} (mark : mark? c = some word)
    (visible : isSpace c = false) (cs : List Char) :
    lexemes? (c :: cs) = (lexemes? cs).map (word :: ·) := by
  have found : lexeme? c cs = some (word, 0) := by rw [lexeme?, mark]
  rw [lexemes?_cons visible found]
  rfl

/-- A line break and the blanks behind it are no words. -/
theorem closed_newline (depth : Nat) : Closed (newline depth) [] := by
  intro rest
  have blanks (count : Nat) : lexemes? (List.replicate count ' ' ++ rest) = lexemes? rest := by
    induction count with
    | zero => rfl
    | succ count ih =>
        rw [List.replicate_succ, List.cons_append, lexemes?_space rfl]
        exact ih
  rw [newline, String.toList_ofList, List.cons_append, lexemes?_space rfl, blanks]
  simp

theorem closed_quote (text : Text) : Closed (quote text) [.string text] := by
  intro rest
  have found : lexeme? '"' (body text ++ '"' :: rest) =
      some (.string text, (body text).length + 1) := by
    have noMark : mark? '"' = none := rfl
    rw [lexeme?, noMark, unquote?_body]
    rfl
  have whole : (quote text).toList ++ rest = '"' :: (body text ++ '"' :: rest) := by
    simp [toList_quote]
  have behind : (body text ++ '"' :: rest).drop ((body text).length + 1) = rest := by simp
  rw [whole, lexemes?_cons rfl found, behind]
  rfl

/-- A character of a number or a name is no word of its own. -/
theorem not_mark_of_class {c : Char} (kind : isNumberChar c = true ∨ c.isAlpha = true) :
    mark? c = none ∧ isSpace c = false ∧ c ≠ '"' := by
  have others : ['[', ']', '\x7b', '\x7d', ',', ':', ' ', '\t', '\n', '\r', '"'].all
      (fun d => !isNumberChar d && !d.isAlpha) = true := by decide
  have other : c ∉ ['[', ']', '\x7b', '\x7d', ',', ':', ' ', '\t', '\n', '\r', '"'] := by
    intro mem
    have neither := List.all_eq_true.mp others c mem
    simp at neither
    simp [neither] at kind
  simp only [List.mem_cons, List.not_mem_nil, or_false, not_or] at other
  refine ⟨?_, by simp [isSpace, other], by simp [other]⟩
  unfold mark?
  split <;> simp_all

/-- A literal of a number is a word. -/
theorem open_number {literal : String} (number : isNumber literal.toList = true)
    (all : ∀ c ∈ literal.toList, isNumberChar c = true) : Open literal [.number literal] := by
  intro rest divided
  cases same : literal.toList with
  | nil =>
      rw [same] at number
      cases number
  | cons c cs =>
      rw [same] at number all
      have isFirst := all c List.mem_cons_self
      obtain ⟨noMark, visible, noQuote⟩ := not_mark_of_class (Or.inl isFirst)
      have run : (cs ++ rest).takeWhile isNumberChar = cs :=
        takeWhile_append_divided (fun d mem => all d (List.mem_cons_of_mem _ mem))
          (fun d mem => (divided d mem).1)
      have whole : String.ofList (c :: cs) = literal := by rw [← same, String.ofList_toList]
      have found : lexeme? c (cs ++ rest) = some (.number literal, cs.length) := by
        simp [lexeme?, noMark, noQuote, isFirst, run, number, whole]
      rw [List.cons_append, lexemes?_cons visible found, List.drop_left]
      rfl

/-- A whole number is a word. -/
theorem open_whole {literal : String} {n : Int} (spelt : literal.toList = Decimal.write n) :
    Open literal [.number literal] := by
  apply open_number
  · rw [spelt]
    exact isNumber_write n
  · intro c mem
    rw [spelt, Decimal.write] at mem
    have digit {m : Nat} (mem : c ∈ Nat.toDigits 10 m) : isNumberChar c = true := by
      simp [isNumberChar, all_isDigit_toDigits m c mem]
    split at mem
    · rcases List.mem_cons.mp mem with rfl | mem
      · rfl
      · exact digit mem
    · exact digit mem

/-- A name is a word. -/
theorem open_name {c : Char} {cs : List Char} {word : Lexeme}
    (letters : (c :: cs).all Char.isAlpha = true) (noNumber : isNumberChar c = false)
    (named : name? (c :: cs) = some word) : Open (String.ofList (c :: cs)) [word] := by
  intro rest divided
  have letters := List.all_eq_true.mp letters
  obtain ⟨noMark, visible, noQuote⟩ := not_mark_of_class (Or.inr (letters c List.mem_cons_self))
  have run : (cs ++ rest).takeWhile Char.isAlpha = cs :=
    takeWhile_append_divided (fun d mem => letters d (List.mem_cons_of_mem _ mem))
      (fun d mem => (divided d mem).2)
  have found : lexeme? c (cs ++ rest) = some (word, cs.length) := by
    simp [lexeme?, noMark, noQuote, noNumber, run, named]
  rw [String.toList_ofList, List.cons_append, lexemes?_cons visible found, List.drop_left]
  rfl

/-- A text of one character that is a mark is a word. -/
theorem closed_mark {c : Char} {word : Lexeme} (mark : mark? c = some word)
    (visible : isSpace c = false) : Closed (String.ofList [c]) [word] := by
  intro rest
  rw [String.toList_ofList, List.cons_append, lexemes?_mark mark visible]
  rfl

/-! ## Brackets -/

/-- What separates the parts inside brackets. -/
theorem closed_separator (depth : Nat) : Closed ("," ++ newline depth) [.comma] := by
  have comma : Closed "," [.comma] := closed_mark rfl rfl
  exact comma.append (closed_newline depth)

theorem divided_separator (depth : Nat) (rest : List Char) :
    Divided (("," ++ newline depth).toList ++ rest) := by
  rw [String.toList_append]
  exact divided_cons rfl rfl _

theorem divided_newline (depth : Nat) (s : String) (rest : List Char) :
    Divided ((newline depth ++ s).toList ++ rest) := by
  rw [newline, String.toList_append, String.toList_ofList]
  exact divided_cons rfl rfl _

/-- What separates a key from its value. -/
theorem closed_colon : Closed ": " [.colon] := by
  intro rest
  have mark : lexemes? (':' :: ' ' :: rest) = (lexemes? (' ' :: rest)).map (.colon :: ·) :=
    lexemes?_mark rfl rfl _
  have space : lexemes? (' ' :: rest) = lexemes? rest := lexemes?_space rfl rest
  rw [space] at mark
  exact mark

/-- Parts with separators between them are read part by part. -/
theorem open_intercalate {depth : Nat} {s : String} {pieces : List String} {w : List Lexeme}
    {parts : List (List Lexeme)} (first : Open s w) (rest : AllOpen pieces parts) :
    Open (String.intercalate ("," ++ newline depth) (s :: pieces))
      ([Lexeme.comma].intercalate (w :: parts)) := by
  induction rest generalizing s w with
  | nil => simpa using first
  | @cons t v pieces parts next _ ih =>
      rw [String.intercalate_cons_cons, List.intercalate_cons_cons]
      have front := first.append_closed (closed_separator depth) (divided_separator depth)
      exact front.append_open (ih next)

/-- Parts inside brackets, each on a line of its own. -/
theorem closed_bracketed {a b : Char} {opening closing : Lexeme} (opens : mark? a = some opening)
    (closes : mark? b = some closing) (visible : isSpace a = false ∧ isSpace b = false)
    (depth : Nat) {pieces : List String} {parts : List (List Lexeme)}
    (spelt : AllOpen pieces parts) :
    Closed (bracketed (String.ofList [a]) (String.ofList [b]) depth pieces)
      (enclosed opening closing parts) := by
  have front := closed_mark opens visible.1
  have behind := closed_mark closes visible.2
  cases spelt with
  | nil => simpa [bracketed, enclosed] using front.append behind
  | @cons s w pieces parts first rest =>
      have inner : Open (String.intercalate ("," ++ newline (depth + 1)) (s :: pieces))
          ([Lexeme.comma].intercalate (w :: parts)) := open_intercalate first rest
      have opened := front.append (closed_newline (depth + 1))
      have closed := (closed_newline depth).append behind
      have whole := (opened.append_open inner).append_closed closed (divided_newline depth _)
      have words : enclosed opening closing (w :: parts) =
          [opening] ++ [] ++ [Lexeme.comma].intercalate (w :: parts) ++ ([] ++ [closing]) := by
        simp [enclosed]
      rw [bracketed, words, String.append_assoc]
      · exact whole
      · simp

/-! ## Values -/

mutual

/-- The text of a value is read as the words of the value. -/
theorem Value.open_write (v : Value) (whole : v.Whole) (depth : Nat) :
    Open (v.write depth) v.words := by
  cases v with
  | null => exact open_name (by decide) rfl rfl
  | bool b => cases b <;> exact open_name (by decide) rfl rfl
  | number literal =>
      obtain ⟨n, spelt⟩ := whole
      exact open_whole spelt
  | string text => exact (closed_quote text).open
  | array items =>
      have parts := allOpen_writeItems items whole (depth + 1)
      exact (closed_bracketed rfl rfl ⟨rfl, rfl⟩ depth parts).open
  | object members =>
      have parts := allOpen_writeMembers members whole (depth + 1)
      exact (closed_bracketed rfl rfl ⟨rfl, rfl⟩ depth parts).open

theorem allOpen_writeItems (items : List Value) (whole : ItemsWhole items) (depth : Nat) :
    AllOpen (writeItems depth items) (itemWords items) := by
  cases items with
  | nil => exact .nil
  | cons item rest =>
      exact .cons (item.open_write whole.1 depth) (allOpen_writeItems rest whole.2 depth)

theorem allOpen_writeMembers (members : List (Text × Value)) (whole : MembersWhole members)
    (depth : Nat) : AllOpen (writeMembers depth members) (memberWords members) := by
  cases members with
  | nil => exact .nil
  | cons member rest =>
      obtain ⟨key, value⟩ := member
      have front := (closed_quote key).append closed_colon
      have first := front.append_open (value.open_write whole.1 depth)
      exact .cons first (allOpen_writeMembers rest whole.2 depth)

end

end InterfaceHeader.Json
