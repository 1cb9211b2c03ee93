import ChunkTree.Chunk
import ChunkTree.Command.Arguments
import ChunkTree.Command.Directory
import ChunkTree.Command.Plan
import ChunkTree.Command.Run
import ChunkTree.Config.Basic
import ChunkTree.Config.Error
import ChunkTree.Decimal.Double
import ChunkTree.Decimal.Fixed
import ChunkTree.Decimal.Shortest
import ChunkTree.Json.Number
import ChunkTree.Json.Reader
import ChunkTree.Json.Value
import ChunkTree.Json.Writer
import ChunkTree.Main
import ChunkTree.Model.Chunk
import ChunkTree.Model.Config
import ChunkTree.Model.Record
import ChunkTree.Model.Report
import ChunkTree.Model.Span
import ChunkTree.Model.Statement
import ChunkTree.Model.Stats
import ChunkTree.Oracle.Basic
import ChunkTree.Oracle.Metric
import ChunkTree.Oracle.Truncation
import ChunkTree.Proofs.Command.Inputs
import ChunkTree.Proofs.Model.Record
import ChunkTree.Proofs.Model.Trees
import ChunkTree.Proofs.Model.Values
import ChunkTree.Proofs.Oracle.Longest
import ChunkTree.Proofs.Oracle.Loops
import ChunkTree.Proofs.Oracle.Truncation
import ChunkTree.Proofs.Oracle.WordBoundary
import ChunkTree.Proofs.Split.Accounts
import ChunkTree.Proofs.Split.Agenda
import ChunkTree.Proofs.Split.Bare
import ChunkTree.Proofs.Split.Batches
import ChunkTree.Proofs.Split.Budget
import ChunkTree.Proofs.Split.Completeness
import ChunkTree.Proofs.Split.Consumption
import ChunkTree.Proofs.Split.Decisions
import ChunkTree.Proofs.Split.Exact
import ChunkTree.Proofs.Split.Front
import ChunkTree.Proofs.Split.Places
import ChunkTree.Proofs.Split.Production
import ChunkTree.Proofs.Split.Reconstruction
import ChunkTree.Proofs.Split.Recursion
import ChunkTree.Proofs.Split.Reports
import ChunkTree.Proofs.Split.Returning
import ChunkTree.Proofs.Split.Room
import ChunkTree.Proofs.Split.Settling
import ChunkTree.Proofs.Split.Trimming
import ChunkTree.Proofs.Statement.Bare
import ChunkTree.Proofs.Statement.Children
import ChunkTree.Proofs.Statement.Embedding
import ChunkTree.Proofs.Statement.Handlers
import ChunkTree.Proofs.Statement.Height
import ChunkTree.Proofs.Statement.Returns
import ChunkTree.Proofs.Text.Bytes
import ChunkTree.Proofs.Text.Greedy
import ChunkTree.Proofs.Text.Indent
import ChunkTree.Proofs.Text.Markers
import ChunkTree.Proofs.Text.Order
import ChunkTree.Proofs.Text.Words
import ChunkTree.Span
import ChunkTree.Split.Dissect
import ChunkTree.Split.Dissection
import ChunkTree.Split.Journal
import ChunkTree.Split.Settle
import ChunkTree.Statement.Basic
import ChunkTree.Statement.Render
import ChunkTree.Stats.Basic
import ChunkTree.Stats.Diagnostic
import ChunkTree.Stats.Summary
import ChunkTree.Text.Basic
import ChunkTree.Text.Blank
import ChunkTree.Text.Digits
import ChunkTree.Text.Flat
import ChunkTree.Text.Lines
import ChunkTree.Text.Quoted
import ChunkTree.Text.Search
import ChunkTree.Toml.Config
import ChunkTree.Toml.Numbers
import ChunkTree.Toml.Reader
import ChunkTree.Toml.Strings
import ChunkTree.Toml.Table
import ChunkTree.Proofs.Split.Guards
import ChunkTree.Proofs.Oracle.Budgets
import ChunkTree.Proofs.Text.Alike
import ChunkTree.Proofs.Text.Leading
import ChunkTree.Proofs.Statement.OneLine
import ChunkTree.Proofs.Split.Backstop
import ChunkTree.Proofs.Split.Legible
import ChunkTree.Proofs.Split.Overlap
import ChunkTree.Proofs.Text.Literal
import ChunkTree.Proofs.Text.Normal
import ChunkTree.Proofs.Command.Places
import ChunkTree.Proofs.Command.Saving
import ChunkTree.Proofs.Statement.Literal
import ChunkTree.Proofs.Text.Locate
import ChunkTree.Proofs.Split.Drafts
import ChunkTree.Proofs.Json.Numbers
import ChunkTree.Proofs.Json.Strings
import ChunkTree.Proofs.Json.Texts
import ChunkTree.Proofs.Split.Shedding
import ChunkTree.Proofs.Command.Reporting
import ChunkTree.Proofs.Command.Delivering
import ChunkTree.Proofs.Command.Running
import ChunkTree.Proofs.Command.Apart
import ChunkTree.Proofs.Command.Abandoned
import ChunkTree.Proofs.Command.Overrides
