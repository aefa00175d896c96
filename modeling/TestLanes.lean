import TestLanes.CommandLine.Arguments
import TestLanes.CommandLine.Colour
import TestLanes.CommandLine.Environment
import TestLanes.CommandLine.Invocation
import TestLanes.CommandLine.LogFilter
import TestLanes.CommandLine.Run
import TestLanes.Decimal.Binary64
import TestLanes.Decimal.Reader
import TestLanes.Entity.Basic
import TestLanes.Entity.Map
import TestLanes.Estimate.Glob
import TestLanes.Estimate.Listing
import TestLanes.Estimate.SourceKey
import TestLanes.Estimate.Workspace
import TestLanes.Files.Change
import TestLanes.Files.Path
import TestLanes.Files.Tree
import TestLanes.Granularity.Basic
import TestLanes.Granularity.Extract
import TestLanes.History.Build
import TestLanes.History.Locator
import TestLanes.History.Memory
import TestLanes.History.Store
import TestLanes.Json.Decode
import TestLanes.Json.Reader
import TestLanes.Json.Token
import TestLanes.Json.Value
import TestLanes.Json.Writer
import TestLanes.Log
import TestLanes.Main
import TestLanes.Markup.Event
import TestLanes.Markup.Reference
import TestLanes.Markup.Scan
import TestLanes.Markup.Tag
import TestLanes.Millis
import TestLanes.Output.Directory
import TestLanes.Parallelism.Basic
import TestLanes.Parallelism.Given
import TestLanes.Partition.Basic
import TestLanes.Partition.Stats
import TestLanes.Pipeline.Decode
import TestLanes.Pipeline.Graph
import TestLanes.Plan.Basic
import TestLanes.Plan.Make
import TestLanes.Plan.Text
import TestLanes.Proofs.Buckets
import TestLanes.Proofs.CommandLine.Outcome
import TestLanes.Proofs.CommandLine.Setup
import TestLanes.Proofs.Entity.Gather
import TestLanes.Proofs.Entity.Patterns
import TestLanes.Proofs.Estimate.Globs
import TestLanes.Proofs.Estimate.Sources
import TestLanes.Proofs.Files.Join
import TestLanes.Proofs.Files.Tree
import TestLanes.Proofs.Granularity.Extract
import TestLanes.Proofs.Granularity.Time
import TestLanes.Proofs.History.BuildDirectory
import TestLanes.Proofs.History.Chain
import TestLanes.Proofs.History.Narrowing
import TestLanes.Proofs.History.Reorder
import TestLanes.Proofs.History.Results
import TestLanes.Proofs.History.Walk
import TestLanes.Proofs.Json.Range
import TestLanes.Proofs.Json.RoundTrip
import TestLanes.Proofs.Markup.Elements
import TestLanes.Proofs.Markup.Front
import TestLanes.Proofs.Output.Directory
import TestLanes.Proofs.Output.Interruption
import TestLanes.Proofs.Output.Lines
import TestLanes.Proofs.Output.Paths
import TestLanes.Proofs.Parallelism.Budget
import TestLanes.Proofs.Parallelism.Spelling
import TestLanes.Proofs.Partition.Approximation
import TestLanes.Proofs.Partition.Balance
import TestLanes.Proofs.Partition.Exactness
import TestLanes.Proofs.Partition.ExtremeTimes
import TestLanes.Proofs.Partition.Greedy
import TestLanes.Proofs.Partition.IdleLanes
import TestLanes.Proofs.Partition.Scan
import TestLanes.Proofs.Partition.Shares
import TestLanes.Proofs.Partition.Statistics
import TestLanes.Proofs.Pipeline.Search
import TestLanes.Proofs.Plan.Order
import TestLanes.Proofs.Plan.Shape
import TestLanes.Proofs.Plan.Stage
import TestLanes.Proofs.Report.CaseElement
import TestLanes.Proofs.Report.ClassName
import TestLanes.Proofs.Report.Fields
import TestLanes.Proofs.Report.Grouping
import TestLanes.Proofs.Report.Merging
import TestLanes.Proofs.Report.Reading
import TestLanes.Proofs.Report.SameClass
import TestLanes.Proofs.Report.Truncation
import TestLanes.Proofs.Selection.Coverage
import TestLanes.Proofs.Selection.Overlap
import TestLanes.Proofs.Settings.Acceptance
import TestLanes.Proofs.Settings.FailingKey
import TestLanes.Proofs.Settings.Merge
import TestLanes.Proofs.Settings.Resolve
import TestLanes.Proofs.Settings.UnknownKeys
import TestLanes.Proofs.Settings.Without
import TestLanes.Proofs.Steps
import TestLanes.Proofs.Sum
import TestLanes.Proofs.Summary.RoundTrip
import TestLanes.Proofs.Text.ByteOrder
import TestLanes.Proofs.Text.Numeral
import TestLanes.Proofs.Text.Pieces
import TestLanes.Report.Case
import TestLanes.Report.ClassName
import TestLanes.Report.Duration
import TestLanes.Report.Reader
import TestLanes.Report.Seconds
import TestLanes.Report.Tree
import TestLanes.Selection
import TestLanes.Settings.Decode
import TestLanes.Settings.Layer
import TestLanes.Settings.Load
import TestLanes.Settings.Profile
import TestLanes.Settings.Value
import TestLanes.Sum
import TestLanes.Summary.Basic
import TestLanes.Summary.Decode
import TestLanes.Text.Blank
import TestLanes.Text.Lossy
import TestLanes.Text.Numeral
import TestLanes.Toml.Reader
import TestLanes.Toml.Scalar
import TestLanes.Toml.Text
import TestLanes.Toml.Tree
import TestLanes.Toml.Value
