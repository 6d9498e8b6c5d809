import Snapshots.Certificate
import Snapshots.Cli.Command
import Snapshots.Cli.Grammar
import Snapshots.Cli.Report
import Snapshots.Cli.Run
import Snapshots.Cluster.Basic
import Snapshots.Cluster.Configured
import Snapshots.Cluster.Endpoint
import Snapshots.Cluster.Fleet
import Snapshots.Cluster.Memory
import Snapshots.Config.Basic
import Snapshots.Config.Load
import Snapshots.Cron.Field
import Snapshots.Cron.Grammar
import Snapshots.Cron.Schedule
import Snapshots.Cron.Search
import Snapshots.Cron.Weekday
import Snapshots.Files.Content
import Snapshots.Files.Path
import Snapshots.Files.Tree
import Snapshots.Firing.Flight
import Snapshots.Firing.History
import Snapshots.Firing.Policy
import Snapshots.Firing.Record
import Snapshots.Firing.Target
import Snapshots.Json.Basic
import Snapshots.Json.Decode
import Snapshots.Json.Printer
import Snapshots.Json.Reading
import Snapshots.Main
import Snapshots.Number.Binary64
import Snapshots.Number.Shortest
import Snapshots.Rest.Message
import Snapshots.Service.Basic
import Snapshots.Service.Daemon
import Snapshots.Service.Error
import Snapshots.Service.Host
import Snapshots.Service.Preview
import Snapshots.Service.Run
import Snapshots.Service.Tasks
import Snapshots.Spec
import Snapshots.Store
import Snapshots.Table
import Snapshots.Task.Basic
import Snapshots.Task.Json
import Snapshots.Text.Base64
import Snapshots.Text.Blank
import Snapshots.Text.Decimal
import Snapshots.Text.Hex
import Snapshots.Text.Quoted
import Snapshots.Text.Shown
import Snapshots.Time.Date
import Snapshots.Time.Instant
import Snapshots.Time.Rfc3339
import Snapshots.Timer.Basic
import Snapshots.Timer.Engine
import Snapshots.Timer.Loop
import Snapshots.Timer.Manual
import Snapshots.Toml.Basic
import Snapshots.Toml.Document
import Snapshots.Toml.Scalar
import Snapshots.Url.Basic
import Snapshots.Url.Host
import Snapshots.Url.Percent
import Snapshots.Url.Punycode
import Snapshots.Proofs.Timer.Registry
import Snapshots.Proofs.Timer.Calls
import Snapshots.Proofs.Timer.Passes
import Snapshots.Proofs.Timer.Wakeups
import Snapshots.Proofs.Timer.Current
import Snapshots.Proofs.Timer.Agreement
import Snapshots.Proofs.Timer.Watch
import Snapshots.Proofs.Timer.Shared
import Snapshots.Proofs.Service.Deeds
import Snapshots.Proofs.Service.Lockstep
import Snapshots.Proofs.Service.Rollback
import Snapshots.Proofs.Service.Preview
import Snapshots.Proofs.Text.Decimal
import Snapshots.Proofs.Time.Calendar
import Snapshots.Proofs.Time.Year
import Snapshots.Proofs.Time.Span
import Snapshots.Proofs.Cron.Search
import Snapshots.Proofs.Cron.Spelling
import Snapshots.Proofs.Cron.Locality
import Snapshots.Proofs.Cron.Reading
import Snapshots.Proofs.Cron.Soundness
import Snapshots.Proofs.Cron.Fields
import Snapshots.Proofs.Cron.Exact
import Snapshots.Proofs.Cron.Adjoining
import Snapshots.Proofs.Time.Rfc3339
import Snapshots.Proofs.Json.Text
import Snapshots.Proofs.Json.Record
import Snapshots.Proofs.Task.Json
import Snapshots.Proofs.Task.Order
import Snapshots.Proofs.Files.Tree
import Snapshots.Proofs.Files.Spared
import Snapshots.Proofs.Store.RoundTrip
import Snapshots.Proofs.Files.Growth
import Snapshots.Proofs.Store.Attempt
import Snapshots.Proofs.Store.Failure
import Snapshots.Proofs.Service.Busy
import Snapshots.Proofs.Service.Orphans
import Snapshots.Proofs.Service.Mirror
import Snapshots.Proofs.Service.Replay
import Snapshots.Proofs.Service.Orderly
import Snapshots.Proofs.Service.Handout
import Snapshots.Proofs.Cluster.Memory
import Snapshots.Proofs.Service.Calls
import Snapshots.Proofs.Service.Restart
import Snapshots.Proofs.Service.Faithful
import Snapshots.Proofs.Service.Fired
import Snapshots.Proofs.Firing.Scatter
import Snapshots.Proofs.Firing.Gather
import Snapshots.Proofs.Service.Refused
import Snapshots.Proofs.Service.Succession
import Snapshots.Proofs.Service.Plain
import Snapshots.Proofs.Service.Naming
import Snapshots.Proofs.Firing.History
import Snapshots.Proofs.Service.LastFiring
import Snapshots.Proofs.Service.Creation
import Snapshots.Proofs.Service.Listing
import Snapshots.Proofs.Task.Label
import Snapshots.Proofs.Cron.Renumber
import Snapshots.Proofs.Cron.Weekday
import Snapshots.Proofs.Service.Identity
import Snapshots.Proofs.Service.Faults
import Snapshots.Proofs.Cluster.Configured
import Snapshots.Proofs.Cli.Options
import Snapshots.Proofs.Cli.Meaning
import Snapshots.Proofs.Cli.Update
import Snapshots.Proofs.Cli.Preview
import Snapshots.Proofs.Json.Members
import Snapshots.Proofs.Json.Rephrased
import Snapshots.Proofs.Task.Older
import Snapshots.Proofs.Url.Percent
import Snapshots.Proofs.Url.Path
import Snapshots.Proofs.Url.Segment
import Snapshots.Proofs.Url.Server
import Snapshots.Proofs.Cluster.Endpoint
