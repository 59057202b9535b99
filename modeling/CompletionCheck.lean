import CompletionCheck.Candidate
import CompletionCheck.CommandLine
import CompletionCheck.Config.Basic
import CompletionCheck.Config.Load
import CompletionCheck.Decimal.Shortest
import CompletionCheck.Dialect
import CompletionCheck.Files.Tree
import CompletionCheck.Fixture.Case
import CompletionCheck.Fixture.Cursor
import CompletionCheck.Fixture.Expectations
import CompletionCheck.Fixture.Line
import CompletionCheck.Fixture.Payload
import CompletionCheck.Fixture.SymbolSet
import CompletionCheck.IoKind
import CompletionCheck.Json.Basic
import CompletionCheck.Json.Number
import CompletionCheck.Json.Parser
import CompletionCheck.Json.Printer
import CompletionCheck.Json.Shape
import CompletionCheck.Lsp.Client
import CompletionCheck.Lsp.Frame
import CompletionCheck.Lsp.Item
import CompletionCheck.Lsp.LineTable
import CompletionCheck.Lsp.Message
import CompletionCheck.Lsp.NameField
import CompletionCheck.Lsp.Peer
import CompletionCheck.Lsp.Position
import CompletionCheck.Lsp.Reader
import CompletionCheck.Lsp.Rehearsal
import CompletionCheck.Lsp.Session
import CompletionCheck.Lsp.Uri
import CompletionCheck.Lsp.Wire
import CompletionCheck.Main
import CompletionCheck.Notice
import CompletionCheck.Path
import CompletionCheck.Program
import CompletionCheck.Service.Basic
import CompletionCheck.Service.Error
import CompletionCheck.Service.Run
import CompletionCheck.Service.Scripted
import CompletionCheck.Suite.Basic
import CompletionCheck.Suite.Report
import CompletionCheck.Suite.Run
import CompletionCheck.Suite.Scan
import CompletionCheck.Text.Blank
import CompletionCheck.Text.Find
import CompletionCheck.Text.Printable
import CompletionCheck.Text.Quoted
import CompletionCheck.Text.Utf8
import CompletionCheck.Time.Duration
import CompletionCheck.Toml.Document
import CompletionCheck.Toml.Moment
import CompletionCheck.Toml.Number
import CompletionCheck.Toml.Parser
import CompletionCheck.Toml.Table
import CompletionCheck.Toml.Text
import CompletionCheck.Toml.Value
import CompletionCheck.Validation
import CompletionCheck.Proofs.Fixture.Lines
import CompletionCheck.Proofs.Fixture.Extraction
import CompletionCheck.Proofs.Fixture.Locality
import CompletionCheck.Proofs.Json.Members
import CompletionCheck.Proofs.Json.Numerals
import CompletionCheck.Proofs.Json.RoundTrip
import CompletionCheck.Proofs.Lsp.Position
import CompletionCheck.Proofs.Lsp.LineTable
import CompletionCheck.Proofs.Lsp.Conversion
import CompletionCheck.Proofs.Lsp.Feeding
import CompletionCheck.Proofs.Lsp.HeaderLines
import CompletionCheck.Proofs.Lsp.FrameGrammar
import CompletionCheck.Proofs.Lsp.Framing
import CompletionCheck.Proofs.Lsp.Intake
import CompletionCheck.Proofs.Lsp.Operations
import CompletionCheck.Proofs.Lsp.ClientRun
import CompletionCheck.Proofs.Lsp.Answering
import CompletionCheck.Proofs.Lsp.Correlation
import CompletionCheck.Proofs.Lsp.Passing
import CompletionCheck.Proofs.Lsp.Keeping
import CompletionCheck.Proofs.Lsp.PassedOver
import CompletionCheck.Proofs.Lsp.Recovery
import CompletionCheck.Proofs.Lsp.SessionSteps
import CompletionCheck.Proofs.Lsp.DocumentSync
import CompletionCheck.Proofs.Lsp.Readiness
import CompletionCheck.Proofs.Lsp.LostReadiness
import CompletionCheck.Proofs.Lsp.Server
import CompletionCheck.Proofs.Lsp.Contact
import CompletionCheck.Proofs.Lsp.Refinement
import CompletionCheck.Proofs.Lsp.Lifecycle
import CompletionCheck.Proofs.Suite.Accounting
import CompletionCheck.Proofs.Suite.Independence
import CompletionCheck.Proofs.Text.ByteOrder
import CompletionCheck.Proofs.Validation.FirstViolation
import CompletionCheck.Proofs.Validation.Padding
import CompletionCheck.Fixture.Grammar
import CompletionCheck.Proofs.Fixture.Derivation
import CompletionCheck.Proofs.Fixture.Splitting
import CompletionCheck.Proofs.Validation.Satisfiability
import CompletionCheck.Proofs.Lsp.DeadServer
import CompletionCheck.Proofs.Files.Listing
import CompletionCheck.Proofs.Fixture.Drafts
import CompletionCheck.Proofs.Suite.CheckNames
import CompletionCheck.Proofs.Suite.Scanning
import CompletionCheck.Proofs.Text.Spans
import CompletionCheck.Proofs.Fixture.Tiling
import CompletionCheck.Proofs.Lsp.Candidates
import CompletionCheck.Proofs.Lsp.DocumentUris
import CompletionCheck.Proofs.Suite.Reporting
import CompletionCheck.Proofs.Lsp.BodyLengths
import CompletionCheck.Proofs.Lsp.NameFields
