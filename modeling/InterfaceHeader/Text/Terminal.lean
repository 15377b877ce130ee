/-!
# Text for a terminal

A text for a terminal may hold escape sequences, which choose colours among other things, and
control characters. `styled` writes such sequences. `plain` takes all of them out, for an output
that is no terminal: it leaves the characters that are shown and those that only move on, such as
the newline (`isShown_of_mem_plain`), and it does not change a text that has no others
(`plain_of_isShown`).

A sequence starts with the escape character and lasts until a character that ends its kind. One
that is not ended takes the rest of the text with it.
-/

namespace InterfaceHeader.Terminal

/-! ## Styles -/

/-- What a part of a message is. -/
inductive Style where
  /-- The word that announces an error. -/
  | fault
  /-- Something that was given and is wrong. -/
  | invalid
  /-- Something that can be given as it is written. -/
  | literal
deriving DecidableEq

/-- The sequences that turn a style on. -/
def Style.opening : Style → String
  | .fault => "\x1b[1m\x1b[31m"
  | .invalid => "\x1b[33m"
  | .literal => "\x1b[1m"

/-- A text in a style, which ends with it. -/
def styled (style : Style) (text : String) : String :=
  style.opening ++ text ++ "\x1b[0m"

/-! ## Classes of characters -/

/-- A character that only moves on: to the next stop, line or page, or to the start of the line. -/
def isMovement (c : Char) : Bool :=
  c == '\t' || c == '\n' || c == '\x0c' || c == '\r'

/-- A character that is left in plain text. -/
def isShown (c : Char) : Bool :=
  isMovement c || (decide (' ' ≤ c) && c != '\x7f')

/-- A character that may stand between the parameters of a sequence and its last character. -/
def isIntermediate (c : Char) : Bool :=
  decide (' ' ≤ c) && decide (c ≤ '/')

/-- A character of the parameters of a sequence. -/
def isParameter (c : Char) : Bool :=
  decide ('0' ≤ c) && decide (c ≤ '?')

/-- A parameter character with no meaning of its own, which may only stand first. -/
def isPrivate (c : Char) : Bool :=
  decide ('<' ≤ c) && decide (c ≤ '?')

/-- A character that may be the last of a sequence with parameters. -/
def isFinal (c : Char) : Bool :=
  decide ('@' ≤ c) && decide (c ≤ '~')

/-- A character that ends a string inside a sequence: one with the byte 9C in its encoding, which
    is the string terminator of eight-bit codes. -/
def endsString (c : Char) : Bool :=
  (String.utf8EncodeChar c).contains 0x9c

/-! ## Sequences -/

/-- Where in a sequence a text is. -/
inductive Sequence where
  | outside
  /-- Behind the escape character. -/
  | escape
  /-- Behind an intermediate character of a sequence without parameters. -/
  | intermediate
  /-- In a control sequence. -/
  | control
  /-- At the start of a sequence for the device. -/
  | device
  | deviceParameters
  | deviceIntermediate
  /-- In a string that nobody reads. -/
  | string
  /-- In a command to the system. -/
  | command
deriving DecidableEq

namespace Sequence

/-- Where a character leads that breaks off any sequence. -/
def interruption? (c : Char) : Option Sequence :=
  if c = '\x1b' then some .escape
  else if c = '\x18' ∨ c = '\x1a' then some .outside
  else none

/-- Where any other character leads. -/
def next (s : Sequence) (c : Char) : Sequence :=
  match s with
  | .outside => .outside
  | .escape =>
    if c = '[' then .control
    else if c = ']' then .command
    else if c = 'P' then .device
    else if c = 'X' ∨ c = '^' ∨ c = '_' then .string
    else if isIntermediate c then .intermediate
    else if isParameter c || isFinal c then .outside
    else .escape
  | .intermediate => if isParameter c || isFinal c then .outside else .intermediate
  | .control => if isFinal c then .outside else .control
  | .device =>
    if isIntermediate c then .deviceIntermediate
    else if isParameter c then .deviceParameters
    else if isFinal c then .string
    else .device
  | .deviceParameters =>
    if isIntermediate c then .deviceIntermediate
    else if isPrivate c || isFinal c then .string
    else .deviceParameters
  | .deviceIntermediate => if isParameter c || isFinal c then .string else .deviceIntermediate
  | .string => if endsString c then .outside else .string
  | .command => if c = '\x07' then .outside else .command

/-- Movements are carried out also in the middle of these sequences. -/
def allowsMovement : Sequence → Bool
  | .escape | .intermediate | .control => true
  | _ => false

end Sequence

/-! ## Plain text -/

/-- What is known about a text up to some place. -/
structure Scan where
  sequence : Sequence
  /-- A movement has been carried out in the middle of the sequence. What follows is shown
      until the next control character that is no movement. -/
  suspended : Bool
deriving DecidableEq

namespace Scan

/-- At the start of a text. -/
def start : Scan := ⟨.outside, false⟩

/-- Characters are shown unless they belong to a sequence. -/
def shows (s : Scan) : Bool :=
  s.suspended || decide (s.sequence = .outside)

/-- Takes a character: whether it is left in the text, and what is known behind it. A character
    beyond ASCII that is shown ends a suspended sequence. -/
def step (s : Scan) (c : Char) : Bool × Scan :=
  match Sequence.interruption? c with
  | some sequence => (false, ⟨sequence, false⟩)
  | none =>
    if s.shows then
      if isShown c then (true, if c ≤ '\x7f' then s else start)
      else (false, ⟨s.sequence, false⟩)
    else if s.sequence.allowsMovement && isMovement c then (true, ⟨s.sequence, true⟩)
    else (false, ⟨s.sequence.next c, false⟩)

/-- What is left of a text. -/
def shown (s : Scan) : List Char → List Char
  | [] => []
  | c :: cs =>
    match s.step c with
    | (true, s) => c :: s.shown cs
    | (false, s) => s.shown cs

/-- A character that is left in the text is one that can be shown. -/
theorem isShown_of_step {s : Scan} {c : Char} (shows : (s.step c).1 = true) : isShown c = true := by
  unfold step at shows
  split at shows
  · cases shows
  · split at shows
    · split at shows
      · assumption
      · cases shows
    · split at shows
      · rename_i moves
        simp only [Bool.and_eq_true] at moves
        simp [isShown, moves.2]
      · cases shows

/-- Nothing is added to a text, and its order is kept. -/
theorem shown_sublist (s : Scan) (cs : List Char) : (s.shown cs).Sublist cs := by
  induction cs generalizing s with
  | nil => exact .slnil
  | cons c cs ih =>
    unfold shown
    split
    · exact (ih _).cons_cons c
    · exact (ih _).cons c

theorem isShown_of_mem_shown {s : Scan} {cs : List Char} {c : Char} (mem : c ∈ s.shown cs) :
    isShown c = true := by
  induction cs generalizing s with
  | nil => cases mem
  | cons d ds ih =>
    unfold shown at mem
    split at mem
    · rename_i left
      rcases List.mem_cons.mp mem with rfl | mem
      · exact isShown_of_step (s := s) (by rw [left])
      · exact ih mem
    · exact ih mem

/-- Outside of sequences a character that can be shown changes nothing. -/
theorem step_start {c : Char} (visible : isShown c = true) : start.step c = (true, start) := by
  have noEscape : c ≠ '\x1b' := by rintro rfl; exact absurd visible (by decide)
  have noCancel : c ≠ '\x18' := by rintro rfl; exact absurd visible (by decide)
  have noSubstitute : c ≠ '\x1a' := by rintro rfl; exact absurd visible (by decide)
  simp [step, Sequence.interruption?, noEscape, noCancel, noSubstitute, shows, start, visible]

theorem shown_start {cs : List Char} (allShown : ∀ c ∈ cs, isShown c = true) :
    start.shown cs = cs := by
  induction cs with
  | nil => rfl
  | cons c cs ih =>
    rw [shown, step_start (allShown c List.mem_cons_self)]
    exact congrArg (c :: ·) (ih fun d mem => allShown d (List.mem_cons_of_mem c mem))

end Scan

/-- A text without escape sequences and without control characters that do more than to move on. -/
def plain (text : String) : String :=
  String.ofList (Scan.start.shown text.toList)

theorem isShown_of_mem_plain {text : String} {c : Char} (mem : c ∈ (plain text).toList) :
    isShown c = true :=
  Scan.isShown_of_mem_shown (by simpa [plain] using mem)

theorem plain_of_isShown {text : String} (allShown : ∀ c ∈ text.toList, isShown c = true) :
    plain text = text := by
  simp [plain, Scan.shown_start allShown]

end InterfaceHeader.Terminal
