import InterfaceHeader.Declaration.Dump
import InterfaceHeader.Declaration.Source
import InterfaceHeader.Files.Access
import InterfaceHeader.Log

/-!
# Loading headers

A header is loaded from the contents of a file: the bytes have to be text, and the text has to
spell a header under a configuration. An error names the file; on the way the log is told what was
found. Loading finds what `Header.ofSource?` finds (`loadText_result`), and a failure of one is a
failure of the other.
-/

namespace InterfaceHeader

/-- Why no header could be loaded from a file, or a file could not be written. -/
inductive FileError where
  | reading (path : String) (failure : ReadFailure)
  /-- The directives of the text cannot be followed. -/
  | preprocessing (path : String) (error : DirectiveError)
  /-- The flat text spells no header. -/
  | parsing (path : String) (error : HeaderError)
  | writing (path : String)
deriving DecidableEq

/-- The text of the error, which names the file. -/
def FileError.message : FileError → String
  | .reading path failure => "error reading " ++ path ++ ": " ++ failure.message
  | .preprocessing path error => "error preprocessing " ++ path ++ ": " ++ error.message
  | .parsing path error => "error parsing " ++ path ++ ": " ++ error.message
  | .writing path => "error writing " ++ path

/-- The error of a header's text as an error of the file that holds it. -/
def HeaderError.inFile (path : String) : HeaderError → FileError
  | .directive error => .preprocessing path error
  | error => .parsing path error

/-- A result, and what the log was told on the way to it. -/
structure Logged (α : Type) where
  log : List LogEntry
  result : α

namespace Header

/-- The log entry about a text that was read. -/
def readEntry (path : String) (size : Nat) : LogEntry :=
  ⟨.detail, .program, "read " ++ Decimal.count size ++ " bytes from " ++ path⟩

/-- The log entry about a decision between branches. -/
def decisionEntry (decision : Decision) : LogEntry :=
  ⟨.detail, .directives, decision.describe⟩

/-- The log entry about the tokens of a flat text. -/
def tokensEntry (tokens : List Token) : LogEntry :=
  ⟨.detail, .program, "lexed " ++ Decimal.count tokens.length ++ " tokens"⟩

/-- The log entry about the declarations of a header. -/
def declarationsEntry (h : Header) : LogEntry :=
  ⟨.detail, .reader, "parsed " ++ Decimal.count h.declarations.length ++ " top-level expressions"⟩

/-- Loads the header that flat text spells. -/
def loadFlat (path flat : String) : Logged (Except FileError Header) :=
  match tokensOf? flat with
  | .error error => ⟨[], .error (error.inFile path)⟩
  | .ok tokens =>
    match Header.ofTokens? tokens with
    | .error error => ⟨[tokensEntry tokens], .error (.parsing path (.grammatical error))⟩
    | .ok h => ⟨[tokensEntry tokens, declarationsEntry h], .ok h⟩

/-- Loads the header that a text spells under a configuration. -/
def loadText (path text : String) (config : Configuration) : Logged (Except FileError Header) :=
  match outlineOf? text.toList with
  | .error error => ⟨[], .error (.preprocessing path error)⟩
  | .ok nodes =>
    let loaded := loadFlat path (flatten nodes config)
    ⟨(decisions (eventsOf nodes config.symbols)).map decisionEntry ++ loaded.log, loaded.result⟩

/-- Loads a header from the contents of a file, or from the failure to read them. -/
def load (path : String) (contents : Except ReadFailure ByteArray) (config : Configuration) :
    Logged (Except FileError Header) :=
  match contents with
  | .error failure => ⟨[], .error (.reading path failure)⟩
  | .ok bytes =>
    match String.fromUTF8? bytes with
    | none => ⟨[], .error (.reading path .notText)⟩
    | some text =>
      let loaded := loadText path text config
      ⟨readEntry path bytes.size :: loaded.log, loaded.result⟩

theorem loadFlat_result (path flat : String) :
    (loadFlat path flat).result = (Header.ofText? flat).mapError (HeaderError.inFile path) := by
  unfold loadFlat Header.ofText?
  cases tokensOf? flat with
  | error error => rfl
  | ok tokens =>
      simp only [bind, Except.bind]
      cases Header.ofTokens? tokens with
      | error error => rfl
      | ok h => rfl

/-- What loading finds in a text is the header that the text spells. -/
theorem loadText_result (path text : String) (config : Configuration) :
    (loadText path text config).result =
      (Header.ofSource? text config).mapError (HeaderError.inFile path) := by
  unfold loadText Header.ofSource? preprocess
  cases outlineOf? text.toList with
  | error error => rfl
  | ok nodes => exact loadFlat_result path (flatten nodes config)

end Header

end InterfaceHeader
