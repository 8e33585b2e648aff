import MoveWorkbench.Calendar
import MoveWorkbench.Design.Basic
import MoveWorkbench.Design.Diagram
import MoveWorkbench.Design.Document
import MoveWorkbench.Design.Edit
import MoveWorkbench.Design.Mermaid
import MoveWorkbench.Design.MoveModule
import MoveWorkbench.Design.PlantUml
import MoveWorkbench.Design.Validation
import MoveWorkbench.Fault
import MoveWorkbench.Gas.Analysis
import MoveWorkbench.Gas.Breakdown
import MoveWorkbench.Gas.Estimate
import MoveWorkbench.Gas.Finding
import MoveWorkbench.Gas.Report
import MoveWorkbench.Graph
import MoveWorkbench.Graph.Search
import MoveWorkbench.Http.Body
import MoveWorkbench.Http.Endpoint
import MoveWorkbench.Http.Framework
import MoveWorkbench.Http.Ledger
import MoveWorkbench.Http.Route
import MoveWorkbench.Http.Server
import MoveWorkbench.Json.Basic
import MoveWorkbench.Json.Display
import MoveWorkbench.Json.Equality
import MoveWorkbench.Json.Reader
import MoveWorkbench.Json.Writer
import MoveWorkbench.Number.Binary64
import MoveWorkbench.Number.Decimal
import MoveWorkbench.Ordered
import MoveWorkbench.Settings
import MoveWorkbench.Source.Bracket
import MoveWorkbench.Source.Declaration
import MoveWorkbench.Source.Phrase
import MoveWorkbench.Store
import MoveWorkbench.Store.Sweeper
import MoveWorkbench.Text.Blank
import MoveWorkbench.Text.Case
import MoveWorkbench.Text.Charset
import MoveWorkbench.Text.Digit
import MoveWorkbench.Text.Encoding
import MoveWorkbench.Text.Leading
import MoveWorkbench.Text.Lines
import MoveWorkbench.Text.Printable
import MoveWorkbench.Text.Utf16
import MoveWorkbench.Text.Word
import MoveWorkbench.Workspace.Analyses
import MoveWorkbench.Workspace.Basic
import MoveWorkbench.Workspace.Call
import MoveWorkbench.Workspace.Designs
import MoveWorkbench.Workspace.Session
import MoveWorkbench.Workspace.Studio
import MoveWorkbench.Proofs.Graph
import MoveWorkbench.Proofs.Graph.Search
import MoveWorkbench.Proofs.Number.Integer
import MoveWorkbench.Proofs.Number.Rounding
import MoveWorkbench.Proofs.Number.Shortest
import MoveWorkbench.Proofs.Number.Size
import MoveWorkbench.Proofs.Json.Numeral
import MoveWorkbench.Proofs.Json.DoubleText
import MoveWorkbench.Proofs.Json.EscapedText
import MoveWorkbench.Proofs.Json.RoundTrip
import MoveWorkbench.Proofs.Workspace.Ids
import MoveWorkbench.Proofs.Workspace.Run
import MoveWorkbench.Proofs.Design.Exportable
import MoveWorkbench.Proofs.Design.Cycles
import MoveWorkbench.Proofs.Design.Document
import MoveWorkbench.Proofs.Design.Import
import MoveWorkbench.Proofs.Workspace.Export
import MoveWorkbench.Proofs.Workspace.Atomic
import MoveWorkbench.Proofs.Source.Bracket
import MoveWorkbench.Proofs.Source.Head
import MoveWorkbench.Proofs.Source.Printed
import MoveWorkbench.Proofs.Design.Problems
import MoveWorkbench.Proofs.Design.Sound
import MoveWorkbench.Proofs.Workspace.Linked
import MoveWorkbench.Proofs.Http.Route
import MoveWorkbench.Proofs.Http.Server
import MoveWorkbench.Proofs.Http.Served
import MoveWorkbench.Proofs.Http.Validation
import MoveWorkbench.Proofs.Workspace.Outcome
import MoveWorkbench.Proofs.Workspace.Objects
import MoveWorkbench.Proofs.Workspace.Studio
import MoveWorkbench.Proofs.Workspace.Local
import MoveWorkbench.Proofs.Workspace.Removal
import MoveWorkbench.Proofs.Workspace.Session
import MoveWorkbench.Proofs.Workspace.Retention
import MoveWorkbench.Proofs.Design.MoveCode
import MoveWorkbench.Proofs.Design.ReadBack
import MoveWorkbench.Proofs.Design.LinkHistory
import MoveWorkbench.Proofs.Workspace.ObjectLinks
import MoveWorkbench.Proofs.Workspace.Links
import MoveWorkbench.Proofs.Workspace.Offered
import MoveWorkbench.Proofs.Design.Renderable
import MoveWorkbench.Proofs.Workspace.Import
import MoveWorkbench.Proofs.Http.Import
import MoveWorkbench.Proofs.Workspace.ComponentIds
import MoveWorkbench.Proofs.Http.Refusal
import MoveWorkbench.Proofs.Http.Written
import MoveWorkbench.Proofs.Design.NameClash
import MoveWorkbench.Proofs.Workspace.NameClash
import MoveWorkbench.Proofs.Source.PhraseCount
import MoveWorkbench.Proofs.Source.Bodies
import MoveWorkbench.Proofs.Store.History
import MoveWorkbench.Proofs.Workspace.Creation
import MoveWorkbench.Proofs.Http.Creation
import MoveWorkbench.Proofs.Workspace.Interleaving
import MoveWorkbench.Proofs.Gas.Scaling
import MoveWorkbench.Proofs.Gas.Comparison
import MoveWorkbench.Proofs.Design.DiagramEdges
import MoveWorkbench.Proofs.Source.Depth
import MoveWorkbench.Proofs.Source.HeadShape
import MoveWorkbench.Proofs.Source.Slices
import MoveWorkbench.Proofs.Gas.Breakdown
import MoveWorkbench.Proofs.Http.Examined
import MoveWorkbench.Proofs.Workspace.Cleanup
import MoveWorkbench.Proofs.Design.Repeated
import MoveWorkbench.Proofs.Workspace.Validation
import MoveWorkbench.Proofs.Number.Monotone
import MoveWorkbench.Proofs.Source.PhrasePlace
import MoveWorkbench.Proofs.Gas.Growth
import MoveWorkbench.Proofs.Gas.Places
import MoveWorkbench.Proofs.Gas.Findings
import MoveWorkbench.Proofs.Gas.WholeText
import MoveWorkbench.Proofs.Number.Average
import MoveWorkbench.Proofs.Gas.Summary
import MoveWorkbench.Proofs.Gas.Savings
import MoveWorkbench.Proofs.Design.StructFields
import MoveWorkbench.Proofs.Gas.Percentage
import MoveWorkbench.Proofs.Design.DiagramNodes
import MoveWorkbench.Proofs.Design.DiagramLines
import MoveWorkbench.Proofs.Design.FieldRules
import MoveWorkbench.Proofs.Workspace.Acceptance
import MoveWorkbench.Proofs.Design.MadeAgain
import MoveWorkbench.Proofs.Workspace.Reimport
import MoveWorkbench.Proofs.Store.Sweeps
import MoveWorkbench.Proofs.Store.Sweeper
import MoveWorkbench.Proofs.Design.Merge
import MoveWorkbench.Proofs.Workspace.Merge
import MoveWorkbench.Proofs.Text.LetterCase
import MoveWorkbench.Proofs.Gas.LetterCase
import MoveWorkbench.Proofs.Source.Partner
import MoveWorkbench.Proofs.Number.NearestInteger
