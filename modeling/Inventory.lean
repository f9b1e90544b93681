import Inventory.CommandLine.Command
import Inventory.CommandLine.Option
import Inventory.CommandLine.Program
import Inventory.Component.Basic
import Inventory.Component.Collection
import Inventory.Component.Detected
import Inventory.Component.Development
import Inventory.Component.Ecosystem
import Inventory.Component.Scope
import Inventory.Decimal
import Inventory.Detector.Basic
import Inventory.Detector.Cargo
import Inventory.Detector.Category
import Inventory.Detector.GoMod
import Inventory.Detector.Manifest
import Inventory.Detector.Npm
import Inventory.Detector.Pip
import Inventory.Detector.Registry
import Inventory.Detector.Shared
import Inventory.Document.Component
import Inventory.Document.Detected
import Inventory.Document.Result
import Inventory.Duration
import Inventory.Error
import Inventory.Exclusion
import Inventory.FileTree
import Inventory.Glob.Pattern
import Inventory.Glob.Regular
import Inventory.Graph.Ancestry
import Inventory.Graph.Basic
import Inventory.Graph.Shared
import Inventory.Instant
import Inventory.Json.Basic
import Inventory.Json.Decode
import Inventory.Json.Printer
import Inventory.Json.Reader
import Inventory.LogFormat
import Inventory.Main
import Inventory.Outcome
import Inventory.Path
import Inventory.Proofs.Component.Ambiguity
import Inventory.Proofs.Component.Batches
import Inventory.Proofs.Component.Growth
import Inventory.Proofs.Component.Identity
import Inventory.Proofs.Component.Merging
import Inventory.Proofs.Component.Order
import Inventory.Proofs.Decimal
import Inventory.Proofs.Detector.Atomic
import Inventory.Proofs.Detector.Bounds
import Inventory.Proofs.Detector.BuiltIn
import Inventory.Proofs.Detector.Cargo.LockFile
import Inventory.Proofs.Detector.Cargo.Resolution
import Inventory.Proofs.Detector.Decomposition
import Inventory.Proofs.Detector.Finding
import Inventory.Proofs.Detector.GoMod
import Inventory.Proofs.Detector.Lines
import Inventory.Proofs.Detector.Manifest
import Inventory.Proofs.Detector.Npm.InstallPath
import Inventory.Proofs.Detector.Npm.LockFile
import Inventory.Proofs.Detector.Npm.Resolution
import Inventory.Proofs.Detector.Pip
import Inventory.Proofs.Detector.Script
import Inventory.Proofs.Detector.Shared
import Inventory.Proofs.Document.Component
import Inventory.Proofs.Document.Result
import Inventory.Proofs.Exclusion
import Inventory.Proofs.FileTree.Content
import Inventory.Proofs.FileTree.Place
import Inventory.Proofs.FileTree.Walk
import Inventory.Proofs.FileTree.Write
import Inventory.Proofs.Glob.Complete
import Inventory.Proofs.Graph.Ancestors
import Inventory.Proofs.Graph.Automatic
import Inventory.Proofs.Graph.Edges
import Inventory.Proofs.Graph.Growth
import Inventory.Proofs.Graph.Order
import Inventory.Proofs.Graph.Roots
import Inventory.Proofs.Graph.Search
import Inventory.Proofs.Graph.Shared
import Inventory.Proofs.Instant.Calendar
import Inventory.Proofs.Instant.Text
import Inventory.Proofs.Json.Decode
import Inventory.Proofs.Json.Number
import Inventory.Proofs.Json.RoundTrip
import Inventory.Proofs.Json.Text
import Inventory.Proofs.Path
import Inventory.Proofs.Recorder.Agreement
import Inventory.Proofs.Recorder.Filled
import Inventory.Proofs.Recorder.Flattening
import Inventory.Proofs.Recorder.Growth
import Inventory.Proofs.Recorder.History
import Inventory.Proofs.Recorder.Order
import Inventory.Proofs.Recorder.Passes
import Inventory.Proofs.Recorder.Views
import Inventory.Proofs.Scan.Accounting
import Inventory.Proofs.Scan.Assembly
import Inventory.Proofs.Scan.Development
import Inventory.Proofs.Scan.Enabling
import Inventory.Proofs.Scan.Ignored
import Inventory.Proofs.Scan.Integrity
import Inventory.Proofs.Scan.Isolation
import Inventory.Proofs.Scan.Location
import Inventory.Proofs.Scan.Order
import Inventory.Proofs.Scan.Projection
import Inventory.Proofs.Scan.Refusal
import Inventory.Proofs.Scan.Restriction
import Inventory.Proofs.Scan.Selection
import Inventory.Proofs.Scan.Summary
import Inventory.Proofs.Settings
import Inventory.Proofs.Shared
import Inventory.Proofs.SortedMap
import Inventory.Proofs.Telemetry.Delivery
import Inventory.Proofs.Text.Cut
import Inventory.Proofs.Text.Lowercase
import Inventory.Proofs.Text.Slice
import Inventory.Proofs.Text.Spaced
import Inventory.Proofs.Text.Split
import Inventory.Proofs.Text.Trim
import Inventory.Proofs.Text.Utf8
import Inventory.Proofs.Text.Words
import Inventory.Proofs.Toml.Line
import Inventory.Proofs.Toml.Number
import Inventory.Proofs.Toml.Quote
import Inventory.Proofs.Toml.RoundTrip
import Inventory.Proofs.Toml.Text
import Inventory.Proofs.Wildcard
import Inventory.Proofs.Wildcard.Bytes
import Inventory.Recorder.Basic
import Inventory.Recorder.Shared
import Inventory.Recorder.Views
import Inventory.Report.Format
import Inventory.Report.Grid
import Inventory.Report.Listing
import Inventory.Report.Timing
import Inventory.Scan.Arguments
import Inventory.Scan.Assembly
import Inventory.Scan.Execution
import Inventory.Scan.Location
import Inventory.Scan.Restriction
import Inventory.Scan.Result
import Inventory.Scan.Run
import Inventory.Scan.Shared
import Inventory.Settings
import Inventory.Shared
import Inventory.SortedMap
import Inventory.Telemetry.Delivery
import Inventory.Telemetry.Record
import Inventory.Telemetry.Relay
import Inventory.Text.Blank
import Inventory.Text.CaseTable
import Inventory.Text.Lowercase
import Inventory.Text.Quoted
import Inventory.Text.Split
import Inventory.Text.Width
import Inventory.Text.WidthTable
import Inventory.Toml.Basic
import Inventory.Toml.Decode
import Inventory.Toml.Lexeme
import Inventory.Toml.Numeral
import Inventory.Toml.Printer
import Inventory.Toml.Reader
import Inventory.Wildcard
import Inventory.Word
