import Scriptlet.Bytes
import Scriptlet.Cli.Command
import Scriptlet.Cli.Flags
import Scriptlet.Cli.Invocation
import Scriptlet.Cli.Log
import Scriptlet.Console.Basic
import Scriptlet.Console.Completion
import Scriptlet.Console.Entry
import Scriptlet.Console.InputField
import Scriptlet.Console.InputLine
import Scriptlet.Console.Screen
import Scriptlet.Decimal.Binary
import Scriptlet.Decimal.Integer
import Scriptlet.Decimal.Shortest
import Scriptlet.Decimal.Style
import Scriptlet.Files.Sources
import Scriptlet.Files.Tree
import Scriptlet.Json.Basic
import Scriptlet.Json.Reader
import Scriptlet.Layout
import Scriptlet.Lint
import Scriptlet.Main
import Scriptlet.Proofs.Layout.Reflow
import Scriptlet.Proofs.Layout.Texts
import Scriptlet.Proofs.Lint
import Scriptlet.Proofs.Parsing.Attempts
import Scriptlet.Proofs.Parsing.Completeness
import Scriptlet.Proofs.Parsing.Expected
import Scriptlet.Proofs.Parsing.Reading
import Scriptlet.Proofs.Parsing.Soundness
import Scriptlet.Proofs.Parsing.Spelling
import Scriptlet.Proofs.Running.Adequacy
import Scriptlet.Proofs.Running.Basic
import Scriptlet.Proofs.Running.Interruption
import Scriptlet.Proofs.Running.Operations
import Scriptlet.Proofs.Running.Rounds
import Scriptlet.Proofs.Running.Semantics
import Scriptlet.Proofs.Running.Simulation
import Scriptlet.Proofs.Running.Stops
import Scriptlet.Proofs.Running.Termination
import Scriptlet.Proofs.Session
import Scriptlet.Proofs.Tree
import Scriptlet.Run.Engine
import Scriptlet.Run.Eval
import Scriptlet.Run.Fault
import Scriptlet.Run.Iteration
import Scriptlet.Run.Limits
import Scriptlet.Run.Operation
import Scriptlet.Run.Report
import Scriptlet.Run.Session
import Scriptlet.Script.Expectation
import Scriptlet.Script.Grammar
import Scriptlet.Script.Parser
import Scriptlet.Script.Tree
import Scriptlet.Server.Diagnostics
import Scriptlet.Server.Documents
import Scriptlet.Server.Message
import Scriptlet.Server.Stream
import Scriptlet.Server.Word
import Scriptlet.Source.CodeFrame
import Scriptlet.Source.Position
import Scriptlet.Table
import Scriptlet.Text.Base64
import Scriptlet.Text.Blank
import Scriptlet.Text.BreakClass
import Scriptlet.Text.CellWidth
import Scriptlet.Text.Cluster
import Scriptlet.Text.CodeRange
import Scriptlet.Text.Glyph
import Scriptlet.Text.Packed
import Scriptlet.Text.Printable
import Scriptlet.Text.Quoted
import Scriptlet.Text.Utf16
import Scriptlet.Value.Basic
import Scriptlet.Value.Json
import Scriptlet.Value.Output
import Scriptlet.Yaml.Document
import Scriptlet.Yaml.Meaning
import Scriptlet.Yaml.Scalar
import Scriptlet.Yaml.Timestamp
import Scriptlet.Proofs.Running.Depth
import Scriptlet.Proofs.Running.Stack
import Scriptlet.Proofs.Server.Documents
import Scriptlet.Proofs.Server.Wire
import Scriptlet.Proofs.Console
import Scriptlet.Proofs.Running.Congruence
import Scriptlet.Proofs.Running.Isolation
import Scriptlet.Proofs.Parsing.Lines
import Scriptlet.Proofs.Lint.Alarms
import Scriptlet.Proofs.Running.Returns
import Scriptlet.Proofs.Lint.Unreachable
import Scriptlet.Proofs.Running.Scopes
import Scriptlet.Proofs.Running.Confinement
import Scriptlet.Proofs.Running.Traces
import Scriptlet.Proofs.Server.Replies
import Scriptlet.Proofs.Text.Columns
import Scriptlet.Proofs.Parsing.Footholds
import Scriptlet.Proofs.Parsing.Joining
import Scriptlet.Proofs.Parsing.Placement
import Scriptlet.Proofs.Text.Positions
import Scriptlet.Proofs.Server.Words
import Scriptlet.Proofs.Server.Diagnostics
import Scriptlet.Proofs.CodeFrames
import Scriptlet.Proofs.Table
import Scriptlet.Proofs.Value.Equality
import Scriptlet.Proofs.Completion
import Scriptlet.Proofs.Text.Carets
import Scriptlet.Proofs.Running.CallTree
import Scriptlet.Proofs.Running.Events
import Scriptlet.Proofs.Running.Indices
import Scriptlet.Proofs.Running.Records
import Scriptlet.Proofs.Running.Validity
import Scriptlet.Proofs.Running.Assignments
import Scriptlet.Proofs.Entries
import Scriptlet.Proofs.Running.Names
import Scriptlet.Proofs.Text.Lines
import Scriptlet.Proofs.Layout.Canonical
import Scriptlet.Proofs.Files.Tree
import Scriptlet.Proofs.Files.Sources
import Scriptlet.Proofs.Files.Formatting
import Scriptlet.Proofs.Decimal.Shortest
import Scriptlet.Proofs.Decimal.Writing
import Scriptlet.Proofs.Text.Utf16
import Scriptlet.Proofs.Text.Utf8
import Scriptlet.Proofs.Text.Quoted
import Scriptlet.Proofs.Value.Showing
