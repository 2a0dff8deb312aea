import RazenLint.Completion
import RazenLint.Main
import RazenLint.Text.Offset
import RazenLint.Wire.Config
import RazenLint.Proofs.Edit.Replacement
import RazenLint.Proofs.Text.Line
import RazenLint.Proofs.Edit.Applied
import RazenLint.Proofs.Text.Ident
import RazenLint.Proofs.Text.Literal
import RazenLint.Proofs.Event.CallHead
import RazenLint.Proofs.Event.Statement
import RazenLint.Proofs.Diagnostic
import RazenLint.Proofs.Text.Bracket
import RazenLint.Proofs.Text.Group
import RazenLint.Proofs.Text.Offset
import RazenLint.Proofs.Event.Reading
import RazenLint.Proofs.Symbol.Occurrence
import RazenLint.Proofs.Event.Match
import RazenLint.Proofs.Symbol.Match
import RazenLint.Proofs.Text.Outline
import RazenLint.Proofs.Shape
import RazenLint.Proofs.LiteralContents
import RazenLint.Proofs.LiteralPattern
import RazenLint.Proofs.Fix.All
import RazenLint.Proofs.Event.Matcher
import RazenLint.Proofs.Event.Block
import RazenLint.Proofs.Event.CallSpan
import RazenLint.Proofs.Session.Command
import RazenLint.Proofs.Session.History
import RazenLint.Proofs.Session.Interleaving
import RazenLint.Proofs.Json.Print
import RazenLint.Proofs.Session.Request
import RazenLint.Proofs.Session.Serve
import RazenLint.Proofs.Event.Shift
import RazenLint.Proofs.Locality
import RazenLint.Proofs.Event.Placed
import RazenLint.Proofs.Text.MaskBytes
import RazenLint.Proofs.Event.MaskBytes
import RazenLint.Proofs.Event.Bytes
import RazenLint.Proofs.Faithful
import RazenLint.Proofs.Symbol.Word
import RazenLint.Proofs.Symbol.Name
import RazenLint.Proofs.Symbol.Passes
import RazenLint.Proofs.Symbol.References
import RazenLint.Proofs.Symbol.Redeclaration
import RazenLint.Proofs.Symbol.Places
import RazenLint.Proofs.Token
import RazenLint.Proofs.Session.Atomicity
import RazenLint.Proofs.Wire.RoundTrip
import RazenLint.Proofs.Session.Echo
import RazenLint.Proofs.Fix.Reported
import RazenLint.Proofs.Symbol.Keyword
import RazenLint.Proofs.Event.StatementSpan
import RazenLint.Proofs.KeywordExchange
import RazenLint.Proofs.LibraryCase
import RazenLint.Proofs.Completion.Cursor
import RazenLint.Proofs.Completion.Literal
import RazenLint.Proofs.Check.Collect
import RazenLint.Proofs.Check.Result
import RazenLint.Proofs.Report.Agreement
import RazenLint.Proofs.Report.Location
import RazenLint.Proofs.CommandLine.Check
import RazenLint.Proofs.CommandLine.Fix
