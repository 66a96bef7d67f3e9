import StepPipeline.Command.Arguments
import StepPipeline.Command.Execute
import StepPipeline.Commit.Config
import StepPipeline.Commit.Identity
import StepPipeline.Commit.Repository
import StepPipeline.Commit.Schema
import StepPipeline.Commit.Step
import StepPipeline.Document.Cursor
import StepPipeline.Document.Decode
import StepPipeline.Document.Fault
import StepPipeline.Document.Node
import StepPipeline.Failure.Basic
import StepPipeline.Failure.Code
import StepPipeline.Failure.Envelope
import StepPipeline.Failure.Help
import StepPipeline.Files.Layout
import StepPipeline.Files.Path
import StepPipeline.Files.Sandbox
import StepPipeline.Files.Tree
import StepPipeline.Json.Basic
import StepPipeline.Json.Numeral
import StepPipeline.Json.Printer
import StepPipeline.Json.Reader
import StepPipeline.Main
import StepPipeline.Number.Basic
import StepPipeline.Number.Display
import StepPipeline.Number.Double
import StepPipeline.Number.Shortest
import StepPipeline.Pipeline.Action
import StepPipeline.Pipeline.Plan
import StepPipeline.Pipeline.Registry
import StepPipeline.Pipeline.Report
import StepPipeline.Pipeline.Run
import StepPipeline.Pipeline.Source
import StepPipeline.Pipeline.State
import StepPipeline.Pipeline.Step
import StepPipeline.Process.Command
import StepPipeline.Proofs.Files.Agreement
import StepPipeline.Proofs.Files.Confinement
import StepPipeline.Proofs.Files.PathText
import StepPipeline.Proofs.Files.Walk
import StepPipeline.Proofs.Pipeline.Aliases
import StepPipeline.Proofs.Pipeline.History
import StepPipeline.Rehearsal.Script
import StepPipeline.Rehearsal.Shell
import StepPipeline.Rehearsal.Stage
import StepPipeline.Rehearsal.Workshop
import StepPipeline.Schema.Basic
import StepPipeline.Schema.Check
import StepPipeline.Schema.Email
import StepPipeline.Schema.Fault
import StepPipeline.Settings
import StepPipeline.SettingsFile
import StepPipeline.Stamp.Instant
import StepPipeline.Stamp.Uuid
import StepPipeline.Text.Blank
import StepPipeline.Text.Printable
import StepPipeline.Text.Utf8
import StepPipeline.Yaml.Core
import StepPipeline.Yaml.Cursor
import StepPipeline.Yaml.Event
import StepPipeline.Yaml.Reader
import StepPipeline.Yaml.Scalar
import StepPipeline.Yaml.Token
import StepPipeline.Proofs.Pipeline.Outputs
import StepPipeline.Proofs.Pipeline.Halting
import StepPipeline.Proofs.Pipeline.Calls
import StepPipeline.Proofs.Pipeline.Preflight
import StepPipeline.Proofs.Pipeline.Cancellation
import StepPipeline.Proofs.Pipeline.Notes
import StepPipeline.Proofs.Commit.Protocol
import StepPipeline.Proofs.Commit.Guard
import StepPipeline.Proofs.Json.Ordered
import StepPipeline.Proofs.Document.Records
import StepPipeline.Proofs.Schema.Validity
import StepPipeline.Proofs.Commit.Configuration
import StepPipeline.Proofs.Pipeline.Invocations
import StepPipeline.Proofs.Pipeline.Prefixes
import StepPipeline.Proofs.Commit.Outcomes
import StepPipeline.Proofs.Commit.Ownership
import StepPipeline.Process.Watch
import StepPipeline.Proofs.Commit.Interruption
import StepPipeline.Proofs.Commit.Idempotence
import StepPipeline.Proofs.Document.Holds
import StepPipeline.Proofs.Json.Scanning
import StepPipeline.Proofs.Json.RoundTrip
import StepPipeline.Proofs.Pipeline.Persistence
import StepPipeline.Proofs.Pipeline.Merges
import StepPipeline.Proofs.Json.Layouts
import StepPipeline.Proofs.Json.Canonical
import StepPipeline.Proofs.Pipeline.DefinitionFiles
import StepPipeline.Proofs.Command.Courses
import StepPipeline.Proofs.Command.Printing
import StepPipeline.Proofs.Command.Answers
import StepPipeline.Proofs.Command.Foresight
import StepPipeline.Proofs.Commit.Messages
import StepPipeline.Proofs.Pipeline.Registrations
import StepPipeline.Proofs.Command.HaltedRuns
import StepPipeline.Proofs.Files.Acceptance
import StepPipeline.Proofs.Files.Stages
import StepPipeline.Proofs.Files.Linkless
import StepPipeline.Proofs.Document.Parts
import StepPipeline.Proofs.Commit.Identities
import StepPipeline.Proofs.Command.Precedence
import StepPipeline.Failure.Account
import StepPipeline.Proofs.Command.Accounts
import StepPipeline.Proofs.Files.Turns
import StepPipeline.Proofs.Pipeline.StateTexts
