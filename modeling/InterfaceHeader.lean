import InterfaceHeader.Association
import InterfaceHeader.Command.Arguments
import InterfaceHeader.Command.Options
import InterfaceHeader.Command.Run
import InterfaceHeader.Condition.Basic
import InterfaceHeader.Condition.Reader
import InterfaceHeader.Condition.Word
import InterfaceHeader.Declaration.Basic
import InterfaceHeader.Declaration.Choice
import InterfaceHeader.Declaration.Cursor
import InterfaceHeader.Declaration.Dump
import InterfaceHeader.Declaration.Reader
import InterfaceHeader.Declaration.Signatures
import InterfaceHeader.Declaration.Source
import InterfaceHeader.Declaration.Spelling
import InterfaceHeader.Declaration.SyntaxError
import InterfaceHeader.Declaration.TypeReader
import InterfaceHeader.Declaration.View
import InterfaceHeader.Directive.Basic
import InterfaceHeader.Directive.Comment
import InterfaceHeader.Directive.Line
import InterfaceHeader.Files.Access
import InterfaceHeader.Files.Path
import InterfaceHeader.Files.Tree
import InterfaceHeader.Json.Lexeme
import InterfaceHeader.Json.Number
import InterfaceHeader.Json.Quoting
import InterfaceHeader.Json.Reader
import InterfaceHeader.Json.Value
import InterfaceHeader.Json.Writer
import InterfaceHeader.Loading
import InterfaceHeader.Log
import InterfaceHeader.Main
import InterfaceHeader.Outline.Draft
import InterfaceHeader.Outline.Flatten
import InterfaceHeader.Outline.Node
import InterfaceHeader.Proofs.Canonical.Repeats
import InterfaceHeader.Proofs.Canonical.RoundTrip
import InterfaceHeader.Proofs.Canonical.TypeSpelling
import InterfaceHeader.Proofs.Choice.Furthest
import InterfaceHeader.Proofs.Choice.Tracking
import InterfaceHeader.Proofs.Command.DefinitionLines
import InterfaceHeader.Proofs.Command.FileChanges
import InterfaceHeader.Proofs.Condition.Printing
import InterfaceHeader.Proofs.Conditional.BlankedComments
import InterfaceHeader.Proofs.Conditional.Composition
import InterfaceHeader.Proofs.Conditional.Definitions
import InterfaceHeader.Proofs.Conditional.Idempotence
import InterfaceHeader.Proofs.Conditional.Nesting
import InterfaceHeader.Proofs.Conditional.Refusal
import InterfaceHeader.Proofs.Conditional.TestedSymbols
import InterfaceHeader.Proofs.Diagnosis.Declarations
import InterfaceHeader.Proofs.Dump.RoundTrip
import InterfaceHeader.Proofs.Grammar.Derivation
import InterfaceHeader.Proofs.Reading.Comments
import InterfaceHeader.Proofs.Reading.Placed
import InterfaceHeader.Proofs.Reading.Relaid
import InterfaceHeader.Proofs.Source.Concatenation
import InterfaceHeader.Proofs.Source.ErrorPlaces
import InterfaceHeader.Proofs.Source.PreservedLines
import InterfaceHeader.Proofs.Token.MaximalMunch
import InterfaceHeader.Proofs.Token.Spread
import InterfaceHeader.SymbolTable
import InterfaceHeader.Text.Blank
import InterfaceHeader.Text.Decimal
import InterfaceHeader.Text.Hidden
import InterfaceHeader.Text.Identifier
import InterfaceHeader.Text.Lines
import InterfaceHeader.Text.Pieces
import InterfaceHeader.Text.Position
import InterfaceHeader.Text.Quoted
import InterfaceHeader.Text.Terminal
import InterfaceHeader.Token.Basic
import InterfaceHeader.Token.Rule
import InterfaceHeader.Token.Scanner
