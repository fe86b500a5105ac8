import RobotsTxt.Text.Quoted
import RobotsTxt.Text.Case
import RobotsTxt.Text.Space
import RobotsTxt.Document.Grammar
import RobotsTxt.Canonical
import RobotsTxt.Category
import RobotsTxt.Change
import RobotsTxt.Highlight
import RobotsTxt.Number.Numeral
import RobotsTxt.Number.Shortest
import RobotsTxt.Url
import RobotsTxt.Analyzer.Builtin
import RobotsTxt.Dispatch
import RobotsTxt.Config.Read
import RobotsTxt.Session
import RobotsTxt.ContentChange
import RobotsTxt.Json.Basic
import RobotsTxt.LogLevel
import RobotsTxt.Files
import RobotsTxt.Settings.Decode
import RobotsTxt.Uri
import RobotsTxt.Editor.Marker
import RobotsTxt.Editor.TextEdit
import RobotsTxt.Editor.SemanticTokens
import RobotsTxt.Editor.Hover
import RobotsTxt.Editor.Completion
import RobotsTxt.Editor.Outline
import RobotsTxt.Editor.Links
import RobotsTxt.Server.Fault
import RobotsTxt.Server.VersionQueue
import RobotsTxt.Server.Basic
import RobotsTxt.Server.Publication
import RobotsTxt.Server.Operation
import RobotsTxt.Server.Documents
import RobotsTxt.Server.Request
import RobotsTxt.Server.Reply
import RobotsTxt.Server.Query
import RobotsTxt.Server.Handle
import RobotsTxt.Server.Connection
import RobotsTxt.Overwrite
import RobotsTxt.Command.Flags
import RobotsTxt.Command.Invocation
import RobotsTxt.Json.Render
import RobotsTxt.Json.Read
import RobotsTxt.Wire
import RobotsTxt.Command.Check
import RobotsTxt.Command.Format
import RobotsTxt.Command.Run
import RobotsTxt.Server.Delivery
import RobotsTxt.Main
import RobotsTxt.Proofs.Text.Blank
import RobotsTxt.Proofs.Document.Layout
import RobotsTxt.Proofs.Document.Runs
import RobotsTxt.Proofs.Document.PhysicalLines
import RobotsTxt.Proofs.Document.Relocation
import RobotsTxt.Proofs.Document.Shift
import RobotsTxt.Proofs.Document.Places
import RobotsTxt.Proofs.Document.Order
import RobotsTxt.Proofs.Change.Script
import RobotsTxt.Proofs.Change.Impact
import RobotsTxt.Proofs.Session.Cache
import RobotsTxt.Proofs.Session.Listeners
import RobotsTxt.Proofs.Server.Coherence
import RobotsTxt.Proofs.Server.Operations
import RobotsTxt.Proofs.Server.Moves
import RobotsTxt.Proofs.Server.Answers
import RobotsTxt.Proofs.Text.Space
import RobotsTxt.Proofs.Canonical.Line
import RobotsTxt.Proofs.Canonical.Runs
import RobotsTxt.Proofs.Canonical.Document
import RobotsTxt.Proofs.Canonical.Shape
import RobotsTxt.Proofs.Document.Tokens
import RobotsTxt.Proofs.Document.WellFormed
import RobotsTxt.Proofs.Document.Coverage
import RobotsTxt.Proofs.Document.Highlights
import RobotsTxt.Proofs.Server.Reports
import RobotsTxt.Proofs.Server.Delivery
import RobotsTxt.Proofs.Document.Grammar
import RobotsTxt.Proofs.Analyzer.Dispatch
import RobotsTxt.Proofs.Text.Seam
import RobotsTxt.Proofs.Text.Position
import RobotsTxt.Proofs.Document.Edges
import RobotsTxt.Proofs.Document.Carets
import RobotsTxt.Proofs.Editor.SemanticTokens
import RobotsTxt.Proofs.Editor.Formatting
import RobotsTxt.Proofs.Analyzer.Relocation
import RobotsTxt.Proofs.Analyzer.Agents
import RobotsTxt.Proofs.Analyzer.Groups
import RobotsTxt.Proofs.Change.Alignment
import RobotsTxt.Proofs.Change.Carrying
import RobotsTxt.Proofs.Change.Diagnostics
import RobotsTxt.Proofs.Change.Content
import RobotsTxt.Proofs.Editor.Completion
import RobotsTxt.Proofs.Editor.Ranges
import RobotsTxt.Proofs.Change.Points
import RobotsTxt.Proofs.Change.Precision
import RobotsTxt.Proofs.Server.Announcements
import RobotsTxt.Proofs.Server.Notices
import RobotsTxt.Proofs.Server.Commitments
import RobotsTxt.Proofs.Server.Publications
import RobotsTxt.Proofs.Server.Convergence
import RobotsTxt.Proofs.Analyzer.Config
import RobotsTxt.Proofs.Analyzer.Safety
import RobotsTxt.Proofs.Canonical.Diagnostics
import RobotsTxt.Proofs.Document.Breaks
import RobotsTxt.Proofs.Canonical.Breaks
import RobotsTxt.Proofs.Server.Settings
import RobotsTxt.Proofs.Editor.Outline
import RobotsTxt.Proofs.Editor.Links
import RobotsTxt.Proofs.Text.Case
import RobotsTxt.Proofs.Document.SameNames
import RobotsTxt.Proofs.Lookup
import RobotsTxt.Proofs.Change.Shortest
import RobotsTxt.Proofs.Server.Waits
import RobotsTxt.Proofs.Files.Tree
import RobotsTxt.Proofs.Files.Overwrite
