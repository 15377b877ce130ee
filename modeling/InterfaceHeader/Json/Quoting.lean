import InterfaceHeader.Json.Value

/-!
# JSON strings

A string literal is read in two steps. `pieces?` takes it apart into characters and the numeric
escapes of UTF-16 units, and counts the characters it consumes; `textOfPieces?` joins surrogate
pairs and refuses half of one. Control characters have to be escaped. `quote` writes a text with
the fewest escapes: for quotes, backslashes and control characters.
-/

namespace InterfaceHeader.Json

/-- A part of a string literal: a character, or an escaped UTF-16 unit. -/
inductive Piece where
  | char (c : Char)
  | unit (code : Nat)
deriving DecidableEq

/-- The value of a hexadecimal digit. -/
def hexDigit? (c : Char) : Option Nat :=
  if c.isDigit then some (c.toNat - 48)
  else if 'a' ≤ c ∧ c ≤ 'f' then some (c.toNat - 87)
  else if 'A' ≤ c ∧ c ≤ 'F' then some (c.toNat - 55)
  else none

/-- The value of four hexadecimal digits. -/
def hexUnit? (a b c d : Char) : Option Nat := do
  return 4096 * (← hexDigit? a) + 256 * (← hexDigit? b) + 16 * (← hexDigit? c) + (← hexDigit? d)

/-- The character of a one-letter escape. -/
def escape? : Char → Option Char
  | '"' => some '"'
  | '\\' => some '\\'
  | '/' => some '/'
  | 'b' => some '\x08'
  | 'f' => some '\x0c'
  | 'n' => some '\n'
  | 'r' => some '\r'
  | 't' => some '\t'
  | _ => none

/-- The pieces of a literal behind its opening quote, and the number of characters up to and with
    the closing quote, counted from `seen`. -/
def pieces? (seen : Nat) : List Char → Option (List Piece × Nat)
  | [] => none
  | '"' :: _ => some ([], seen + 1)
  | '\\' :: 'u' :: a :: b :: c :: d :: cs => do
    let code ← hexUnit? a b c d
    let (pieces, count) ← pieces? (seen + 6) cs
    return (.unit code :: pieces, count)
  | '\\' :: e :: cs => do
    let c ← escape? e
    let (pieces, count) ← pieces? (seen + 2) cs
    return (.char c :: pieces, count)
  | c :: cs =>
    if c.toNat < 0x20 then none
    else do
      let (pieces, count) ← pieces? (seen + 1) cs
      return (.char c :: pieces, count)

/-- The first unit of a surrogate pair. -/
def isHighUnit (code : Nat) : Bool :=
  0xd800 ≤ code && code < 0xdc00

/-- The second unit of a surrogate pair. -/
def isLowUnit (code : Nat) : Bool :=
  0xdc00 ≤ code && code < 0xe000

/-- The text of pieces; none if half a surrogate pair is among them. -/
def textOfPieces? : List Piece → Option (List Char)
  | [] => some []
  | .char c :: rest => (textOfPieces? rest).map (c :: ·)
  | .unit high :: .unit low :: rest =>
    if isHighUnit high && isLowUnit low then
      (textOfPieces? rest).map
        (Char.ofNat (0x10000 + 1024 * (high - 0xd800) + (low - 0xdc00)) :: ·)
    else if isHighUnit high || isLowUnit high then none
    else (textOfPieces? (.unit low :: rest)).map (Char.ofNat high :: ·)
  | .unit code :: rest =>
    if isHighUnit code || isLowUnit code then none
    else (textOfPieces? rest).map (Char.ofNat code :: ·)

/-- A text from the characters behind an opening quote, and the number of them that the literal
    takes. -/
def unquote? (cs : List Char) : Option (Text × Nat) :=
  (pieces? 0 cs).map fun (pieces, count) => ((textOfPieces? pieces).map String.ofList, count)

/-- What stands for a character in a literal. -/
def escapeChar (c : Char) : List Char :=
  if c = '"' then ['\\', '"']
  else if c = '\\' then ['\\', '\\']
  else if c = '\x08' then ['\\', 'b']
  else if c = '\t' then ['\\', 't']
  else if c = '\n' then ['\\', 'n']
  else if c = '\x0c' then ['\\', 'f']
  else if c = '\r' then ['\\', 'r']
  else if c.toNat < 0x20 then
    ['\\', 'u', '0', '0', Nat.digitChar (c.toNat / 16), Nat.digitChar (c.toNat % 16)]
  else [c]

/-- The literal of a text. A string without a text is written as half a surrogate pair. -/
def quote : Text → String
  | some text => String.ofList ('"' :: text.toList.flatMap escapeChar ++ ['"'])
  | none => "\"\\ud800\""

end InterfaceHeader.Json
