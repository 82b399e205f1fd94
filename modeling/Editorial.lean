import Editorial.Data.Keyed
import Editorial.Desk.Basic
import Editorial.Desk.Call
import Editorial.Desk.Format
import Editorial.Event.Basic
import Editorial.Event.Format
import Editorial.Event.Log
import Editorial.Failure
import Editorial.Failure.Format
import Editorial.Folder
import Editorial.Handle
import Editorial.Hints.Basic
import Editorial.Hints.Format
import Editorial.Hints.Guard
import Editorial.Json.Basic
import Editorial.Json.Columns
import Editorial.Json.Double
import Editorial.Json.Reader
import Editorial.Json.Reread
import Editorial.Json.Shape
import Editorial.Json.Token
import Editorial.Json.Writer
import Editorial.Operation
import Editorial.Pipeline.Fire
import Editorial.Pipeline.Format
import Editorial.Pipeline.Table
import Editorial.Pipeline.Task
import Editorial.Pipeline.Work
import Editorial.Process
import Editorial.Proofs.Desk.Admitted
import Editorial.Proofs.Desk.AllOrNothing
import Editorial.Proofs.Desk.Alone
import Editorial.Proofs.Desk.Attempt
import Editorial.Proofs.Desk.Breaking
import Editorial.Proofs.Desk.Catalogue
import Editorial.Proofs.Desk.Commits
import Editorial.Proofs.Desk.Committing
import Editorial.Proofs.Desk.Contention
import Editorial.Proofs.Desk.Contents
import Editorial.Proofs.Desk.Dates
import Editorial.Proofs.Desk.Job
import Editorial.Proofs.Desk.Logging
import Editorial.Proofs.Desk.Race
import Editorial.Proofs.Desk.Replacing
import Editorial.Proofs.Desk.Returning
import Editorial.Proofs.Desk.Session
import Editorial.Proofs.Desk.Settling
import Editorial.Proofs.Desk.Unanswered
import Editorial.Proofs.Desk.Undisturbed
import Editorial.Proofs.Desk.Versions
import Editorial.Proofs.Event.Channels
import Editorial.Proofs.Hints.Agreement
import Editorial.Proofs.Hints.Allows
import Editorial.Proofs.Hints.Annotations
import Editorial.Proofs.Hints.Approval
import Editorial.Proofs.Hints.Copying
import Editorial.Proofs.Hints.Guards
import Editorial.Proofs.Hints.Lock
import Editorial.Proofs.Hints.Outline
import Editorial.Proofs.Hints.Pending
import Editorial.Proofs.Hints.Published
import Editorial.Proofs.Hints.Requests
import Editorial.Proofs.Json.Columns
import Editorial.Proofs.Json.Reread
import Editorial.Proofs.Json.Tokens
import Editorial.Proofs.Json.Values
import Editorial.Proofs.Office.Annotations
import Editorial.Proofs.Office.Backends
import Editorial.Proofs.Office.Basic
import Editorial.Proofs.Office.Changes
import Editorial.Proofs.Office.Conflicts
import Editorial.Proofs.Office.Current
import Editorial.Proofs.Office.Dates
import Editorial.Proofs.Office.Events
import Editorial.Proofs.Office.Footprint
import Editorial.Proofs.Office.History
import Editorial.Proofs.Office.Lock
import Editorial.Proofs.Office.Named
import Editorial.Proofs.Office.Order
import Editorial.Proofs.Office.Pending
import Editorial.Proofs.Office.Published
import Editorial.Proofs.Office.Quiet
import Editorial.Proofs.Office.Race
import Editorial.Proofs.Office.Requests
import Editorial.Proofs.Office.Returned
import Editorial.Proofs.Office.Serial
import Editorial.Proofs.Office.Sound
import Editorial.Proofs.Office.Times
import Editorial.Proofs.Pipeline.Act
import Editorial.Proofs.Pipeline.Careful
import Editorial.Proofs.Pipeline.Catalogue
import Editorial.Proofs.Pipeline.Contents
import Editorial.Proofs.Pipeline.Effect
import Editorial.Proofs.Pipeline.Failing
import Editorial.Proofs.Pipeline.Filing
import Editorial.Proofs.Pipeline.Fire
import Editorial.Proofs.Pipeline.History
import Editorial.Proofs.Pipeline.Nesting
import Editorial.Proofs.Pipeline.Noting
import Editorial.Proofs.Pipeline.Outcome
import Editorial.Proofs.Pipeline.Reads
import Editorial.Proofs.Pipeline.Restoring
import Editorial.Proofs.Pipeline.Task
import Editorial.Proofs.Pipeline.Timing
import Editorial.Proofs.Process.Path
import Editorial.Proofs.Record.Sound
import Editorial.Proofs.Retry.Loop
import Editorial.Proofs.Settings.Layers
import Editorial.Proofs.Settings.Loading
import Editorial.Proofs.Settings.Rendering
import Editorial.Proofs.Store.Agreement
import Editorial.Proofs.Store.Commit
import Editorial.Proofs.Store.Exact
import Editorial.Proofs.Store.Formats
import Editorial.Proofs.Store.Found
import Editorial.Proofs.Store.Nesting
import Editorial.Proofs.Store.Places
import Editorial.Proofs.Store.Reading
import Editorial.Proofs.Store.Revisions
import Editorial.Proofs.Store.Texts
import Editorial.Proofs.System.Answers
import Editorial.Proofs.System.Readings
import Editorial.Proofs.System.Surroundings
import Editorial.Proofs.Text.Alternatives
import Editorial.Proofs.Text.Digits
import Editorial.Proofs.Text.Numerals
import Editorial.Proofs.Time.Counting
import Editorial.Proofs.Time.Text
import Editorial.Proofs.Toml.Document
import Editorial.Proofs.Toml.Scalar
import Editorial.Record.Basic
import Editorial.Record.Format
import Editorial.Record.Request
import Editorial.Record.Snapshot
import Editorial.Record.Variant
import Editorial.Release
import Editorial.Retry
import Editorial.Settings.Basic
import Editorial.Settings.Environment
import Editorial.Settings.File
import Editorial.Settings.Format
import Editorial.Status
import Editorial.Status.Format
import Editorial.Store.Backend
import Editorial.Store.Basic
import Editorial.Store.Format
import Editorial.Store.Stepwise
import Editorial.Store.Whole
import Editorial.System
import Editorial.Text.Blank
import Editorial.Text.Scan
import Editorial.Time.Calendar
import Editorial.Time.Format
import Editorial.Time.Instant
import Editorial.Time.Text
import Editorial.Toml.Basic
import Editorial.Toml.Reader
import Editorial.Toml.Scalar
import Editorial.Toml.Writer
