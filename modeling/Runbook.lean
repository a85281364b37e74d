import Runbook.Text.Blank
import Runbook.Text.Cut
import Runbook.Decimal.Shortest
import Runbook.Json.Basic
import Runbook.Json.Printer
import Runbook.Json.Reader
import Runbook.Template.Basic
import Runbook.Template.Pieces
import Runbook.Template.Resolve
import Runbook.Json.Decode
import Runbook.Workflow.Basic
import Runbook.Workflow.Codec
import Runbook.Workflow.Binding
import Runbook.Workflow.Check
import Runbook.Workflow.Source
import Runbook.Config
import Runbook.Instant
import Runbook.Run.Outcome
import Runbook.Run.Record
import Runbook.Memory.Slice
import Runbook.Model.Basic
import Runbook.Decimal.Reading
import Runbook.Yaml.Cursor
import Runbook.Yaml.Token
import Runbook.Yaml.Token.Lexer
import Runbook.Yaml.Document
import Runbook.Dialogue
import Runbook.Memory.History
import Runbook.Memory.Recall
import Runbook.Memory.RowTable
import Runbook.Memory.RunTable
import Runbook.Run.Context
import Runbook.Run.Execution
import Runbook.Tool.Basic
import Runbook.Tool.Echo
import Runbook.Tool.FanOut
import Runbook.Tool.ModelCall
import Runbook.Tool.Registry
import Runbook.Schedule.Poll
import Runbook.Schedule.Dispatch
import Runbook.Secret.Basic
import Runbook.Secret.Chain
import Runbook.Secret.Environment
import Runbook.FileTree
import Runbook.Text.Bytes
import Runbook.Cipher.Block
import Runbook.Cipher.Counter
import Runbook.Cipher.Digest
import Runbook.Cipher.Password
import Runbook.Secret.Key
import Runbook.Secret.Vault
import Runbook.Engine.Basic
import Runbook.Engine.Session
import Runbook.Rehearsal.Approver
import Runbook.Rehearsal.Keeper
import Runbook.Rehearsal.Redaction
import Runbook.Rehearsal.Store
import Runbook.Rehearsal.Tool
import Runbook.Config.File
import Runbook.Http
import Runbook.Model.Endpoint
import Runbook.Workflow.Library
import Runbook.Config.Place
import Runbook.Console.Verbosity
import Runbook.Rehearsal.Scene
import Runbook.Text.Width
import Runbook.Console.Command
import Runbook.Console.Report
import Runbook.Console.Complaint
import Runbook.Console.Host
import Runbook.Console.Perform
import Runbook.Rehearsal.Console
import Runbook.Main
import Runbook.Proofs.Text
import Runbook.Proofs.Run.Exchange
import Runbook.Proofs.Run.StepCourse
import Runbook.Proofs.Run.Course
import Runbook.Proofs.Run.Results
import Runbook.Proofs.Run.Order
import Runbook.Proofs.Memory.Log
import Runbook.Proofs.Run.Served
import Runbook.Proofs.Run.Working
import Runbook.Proofs.Workflow.Accepted
import Runbook.Proofs.Engine.Succession
import Runbook.Proofs.Json.Numeral
import Runbook.Proofs.Json.Reread
import Runbook.Proofs.InstantText
import Runbook.Proofs.Memory.Readback
import Runbook.Proofs.Run.Fate
import Runbook.Proofs.Engine.TornRecords
import Runbook.Proofs.Run.Aborts
import Runbook.Proofs.Template.Lookup
import Runbook.Proofs.Template.Splits
import Runbook.Proofs.Run.Context
import Runbook.Proofs.Template.Reads
import Runbook.Proofs.Template.Splicing
import Runbook.Proofs.Workflow.References
import Runbook.Proofs.Run.References
import Runbook.Proofs.Engine.SingleRefusal
import Runbook.Proofs.Json.Lossless
import Runbook.Proofs.Json.Records
import Runbook.Proofs.Run.Outcome
import Runbook.Proofs.Engine.Inspection
import Runbook.Proofs.Run.Backing
import Runbook.Proofs.Engine.Traffic
import Runbook.Proofs.Engine.Histories
import Runbook.Proofs.Memory.Needs
import Runbook.Proofs.Memory.Bindings
import Runbook.Proofs.Engine.Recollection
import Runbook.Proofs.Schedule.Clients
import Runbook.Proofs.Schedule.Moments
import Runbook.Proofs.Engine.Account
import Runbook.Proofs.Engine.Turns
import Runbook.Proofs.Engine.Journey
import Runbook.Proofs.Run.Gates
import Runbook.Proofs.Engine.Gates
import Runbook.Proofs.Memory.Contention
import Runbook.Proofs.InstantOrder
import Runbook.Proofs.Memory.Ledger
import Runbook.Proofs.Memory.Rows
import Runbook.Proofs.Memory.LastRecords
import Runbook.Proofs.Memory.FailedReads
import Runbook.Proofs.Memory.Purge
import Runbook.Proofs.Memory.Scoped
import Runbook.Proofs.Engine.Apart
import Runbook.Proofs.Schedule.Footprint
import Runbook.Proofs.Tool.FanOut
import Runbook.Proofs.Schedule.Gathering
import Runbook.Proofs.Schedule.Interleaving
import Runbook.Proofs.Schedule.Moves
import Runbook.Proofs.Schedule.FanOut
import Runbook.Proofs.Schedule.Acts
import Runbook.Proofs.Schedule.Turns
import Runbook.Proofs.Tool.Checked
import Runbook.Proofs.Schedule.Tally
import Runbook.Proofs.Tool.Queries
import Runbook.Proofs.Tool.Accepted
import Runbook.Proofs.Schedule.Verdicts
import Runbook.Proofs.Schedule.Roots
import Runbook.Proofs.Engine.InFlight
import Runbook.Proofs.Workflow.Tools
import Runbook.Proofs.Run.ToolCalls
import Runbook.Proofs.Schedule.Conclusions
import Runbook.Proofs.Engine.Answers
import Runbook.Proofs.Engine.KnownTools
import Runbook.Proofs.Workflow.Needs
import Runbook.Proofs.Template.Shapes
import Runbook.Proofs.Workflow.Codec
import Runbook.Proofs.Run.Record
import Runbook.Proofs.FileTree
import Runbook.Proofs.Secret.Sealing
import Runbook.Proofs.Secret.Vault
import Runbook.Proofs.Secret.Listing
import Runbook.Proofs.Secret.Changes
import Runbook.Proofs.Workflow.Rules
import Runbook.Proofs.Schedule.Deeds
import Runbook.Proofs.Schedule.Doings
import Runbook.Proofs.Schedule.Aftermath
import Runbook.Proofs.Schedule.Beats
import Runbook.Proofs.Schedule.Calm
import Runbook.Proofs.Schedule.Halts
import Runbook.Proofs.Schedule.Deadlines
import Runbook.Proofs.Schedule.TimeUp
import Runbook.Proofs.Schedule.FailFast
import Runbook.Proofs.Schedule.Untimed
import Runbook.Proofs.Schedule.Returns
import Runbook.Proofs.Schedule.Lone
import Runbook.Proofs.Schedule.FirstClock
import Runbook.Proofs.Schedule.Answers
import Runbook.Proofs.Schedule.Nesting
import Runbook.Proofs.Template.Filling
import Runbook.Proofs.Workflow.Binding
import Runbook.Proofs.Workflow.Library
import Runbook.Proofs.Model.RetryAfter
import Runbook.Proofs.Run.Truncation
