import Upkeep.Audit.Headers
import Upkeep.Audit.History
import Upkeep.Audit.Landing
import Upkeep.Audit.Precompiled
import Upkeep.Audit.UniqueWords
import Upkeep.Bytes.Access
import Upkeep.Bytes.Crc32
import Upkeep.Bytes.Digest
import Upkeep.Bytes.Field
import Upkeep.Bytes.Inflate
import Upkeep.CommandLine.Completion
import Upkeep.CommandLine.Grammar
import Upkeep.CommandLine.Invocation
import Upkeep.CommandLine.Reading
import Upkeep.CommandLine.Run
import Upkeep.CommandLine.World
import Upkeep.Compile.Command
import Upkeep.Compile.Database
import Upkeep.Compile.Program
import Upkeep.Configuration.Basic
import Upkeep.Configuration.Fields
import Upkeep.Configuration.Load
import Upkeep.Configuration.Toml.Document
import Upkeep.Configuration.Toml.Printer
import Upkeep.Configuration.Toml.Scalar
import Upkeep.Configuration.Value
import Upkeep.Configuration.Yaml.Document
import Upkeep.Configuration.Yaml.Scalar
import Upkeep.Cpp.Includes
import Upkeep.Cpp.Lexeme
import Upkeep.Cpp.Plain
import Upkeep.Cpp.Source
import Upkeep.Cpp.Tree
import Upkeep.Cvar.Analysis
import Upkeep.Cvar.Finding
import Upkeep.Cvar.Flags
import Upkeep.Cvar.Globals
import Upkeep.Cvar.Ledger
import Upkeep.Cvar.Listing
import Upkeep.Cvar.Migration
import Upkeep.Cvar.Occurrence
import Upkeep.Cvar.Reads
import Upkeep.Cvar.Record
import Upkeep.Cvar.Settings
import Upkeep.Cvar.Shapes
import Upkeep.Cvar.SourceSet
import Upkeep.Cvar.TextScan
import Upkeep.Cvar.ValueType
import Upkeep.Cvar.Verdict
import Upkeep.Cvar.Walk
import Upkeep.Data.Binary64
import Upkeep.Data.Json
import Upkeep.Data.Ordered
import Upkeep.Diff.Compact
import Upkeep.Diff.Edit
import Upkeep.Diff.Group
import Upkeep.Diff.Hunk
import Upkeep.Diff.Reader
import Upkeep.Diff.Script
import Upkeep.Diff.Snake
import Upkeep.Diff.Unified
import Upkeep.Failure
import Upkeep.Files.Content
import Upkeep.Files.Disk
import Upkeep.Files.Walk
import Upkeep.Files.Workspace
import Upkeep.Main
import Upkeep.Pak.Archive
import Upkeep.Pak.Census
import Upkeep.Pak.Duplicates
import Upkeep.Pak.Entities
import Upkeep.Pak.Find
import Upkeep.Pak.MapFile
import Upkeep.Pak.Opened
import Upkeep.Pak.Script
import Upkeep.Patch.Basic
import Upkeep.Path.Basic
import Upkeep.Path.Glob
import Upkeep.Path.Normal
import Upkeep.Proofs.Audit.Headers
import Upkeep.Proofs.Audit.Precompiled
import Upkeep.Proofs.Audit.UniqueWords
import Upkeep.Proofs.Audit.Visits
import Upkeep.Proofs.Compile.Closure
import Upkeep.Proofs.Compile.IncludePath
import Upkeep.Proofs.Compile.Quoting
import Upkeep.Proofs.Compile.Units
import Upkeep.Proofs.Compile.Unquoted
import Upkeep.Proofs.Cpp.Diagnostics
import Upkeep.Proofs.Cpp.Directives
import Upkeep.Proofs.Cpp.Joined
import Upkeep.Proofs.Cpp.Literal
import Upkeep.Proofs.Cpp.Spots
import Upkeep.Proofs.Cvar.Accounts
import Upkeep.Proofs.Cvar.Analysis
import Upkeep.Proofs.Cvar.CallPlaces
import Upkeep.Proofs.Cvar.Clearing
import Upkeep.Proofs.Cvar.Declarations
import Upkeep.Proofs.Cvar.DisplayName
import Upkeep.Proofs.Cvar.Facts
import Upkeep.Proofs.Cvar.FindingLines
import Upkeep.Proofs.Cvar.Generated
import Upkeep.Proofs.Cvar.Ledger
import Upkeep.Proofs.Cvar.LineChanges
import Upkeep.Proofs.Cvar.Mentions
import Upkeep.Proofs.Cvar.MigrationEdits
import Upkeep.Proofs.Cvar.MigrationLines
import Upkeep.Proofs.Cvar.MigrationReads
import Upkeep.Proofs.Cvar.MigrationText
import Upkeep.Proofs.Cvar.Plans
import Upkeep.Proofs.Cvar.Reads
import Upkeep.Proofs.Cvar.ReadsGone
import Upkeep.Proofs.Cvar.Record
import Upkeep.Proofs.Cvar.RecordingOrder
import Upkeep.Proofs.Cvar.Removal
import Upkeep.Proofs.Cvar.RemovalCount
import Upkeep.Proofs.Cvar.Shadowing
import Upkeep.Proofs.Cvar.Snapshot
import Upkeep.Proofs.Cvar.Steps
import Upkeep.Proofs.Cvar.TableForms
import Upkeep.Proofs.Cvar.TableWords
import Upkeep.Proofs.Cvar.TextKeys
import Upkeep.Proofs.Cvar.TextScan
import Upkeep.Proofs.Cvar.TypeTexts
import Upkeep.Proofs.Cvar.Unrecognized
import Upkeep.Proofs.Cvar.Uses
import Upkeep.Proofs.Cvar.Verdict
import Upkeep.Proofs.Cvar.Walk
import Upkeep.Proofs.Cvar.Within
import Upkeep.Proofs.Cvar.Writes
import Upkeep.Proofs.Data.Members
import Upkeep.Proofs.Data.Ordered
import Upkeep.Proofs.Data.Outcome
import Upkeep.Proofs.Diff.Context
import Upkeep.Proofs.Diff.Hunk
import Upkeep.Proofs.Diff.Lines
import Upkeep.Proofs.Diff.Loose
import Upkeep.Proofs.Diff.ReadBack
import Upkeep.Proofs.Diff.Reading
import Upkeep.Proofs.Diff.RoundTrip
import Upkeep.Proofs.Diff.Script
import Upkeep.Proofs.Files.Disk
import Upkeep.Proofs.Files.Reading
import Upkeep.Proofs.Files.Walk
import Upkeep.Proofs.Files.Workspace
import Upkeep.Proofs.Pak.Braces
import Upkeep.Proofs.Pak.Census
import Upkeep.Proofs.Pak.Counts
import Upkeep.Proofs.Pak.Duplicates
import Upkeep.Proofs.Pak.Entities
import Upkeep.Proofs.Pak.MapFile
import Upkeep.Proofs.Pak.Script
import Upkeep.Proofs.Patch.Bytes
import Upkeep.Proofs.Patch.Comparison
import Upkeep.Proofs.Patch.Copies
import Upkeep.Proofs.Patch.Deletion
import Upkeep.Proofs.Patch.Dropped
import Upkeep.Proofs.Patch.Effect
import Upkeep.Proofs.Patch.Exchange
import Upkeep.Proofs.Patch.Failing
import Upkeep.Proofs.Patch.FirstReading
import Upkeep.Proofs.Patch.Frame
import Upkeep.Proofs.Patch.History
import Upkeep.Proofs.Patch.Lined
import Upkeep.Proofs.Patch.Reading
import Upkeep.Proofs.Patch.Stretch
import Upkeep.Proofs.Path.Normal
import Upkeep.Proofs.Path.Order
import Upkeep.Proofs.Path.Reduction
import Upkeep.Proofs.Review.Confined
import Upkeep.Proofs.Review.Course
import Upkeep.Proofs.Review.Dialogue
import Upkeep.Proofs.Review.Printing
import Upkeep.Proofs.Review.Transcript
import Upkeep.Proofs.Review.Widening
import Upkeep.Proofs.Text.ByteLines
import Upkeep.Proofs.Text.Search
import Upkeep.Proofs.Text.Stretches
import Upkeep.Proofs.Text.Utf8
import Upkeep.Proofs.Text.Words
import Upkeep.Review.Conflict
import Upkeep.Review.Desk
import Upkeep.Review.Dialogue
import Upkeep.Review.Report
import Upkeep.Text.Blank
import Upkeep.Text.CodePage
import Upkeep.Text.Fold
import Upkeep.Text.Integer
import Upkeep.Text.Lines
import Upkeep.Text.Lower
import Upkeep.Text.Paint
import Upkeep.Text.Quoted
import Upkeep.Text.Search
import Upkeep.Text.Utf8
import Upkeep.Text.Words
import Upkeep.Unicode.CaseTable
import Upkeep.Unicode.Classes
import Upkeep.Unicode.EscapeTable
import Upkeep.Unicode.WordTable
