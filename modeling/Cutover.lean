import Cutover.Binary64
import Cutover.Binary64.Layout
import Cutover.Binary64.Shortest
import Cutover.CommandLine
import Cutover.Consumer
import Cutover.Database
import Cutover.Dialect
import Cutover.Dialogue
import Cutover.Duration
import Cutover.Error
import Cutover.Event
import Cutover.Event.Codec
import Cutover.Fixer
import Cutover.Http.Control
import Cutover.Http.MediaType
import Cutover.Http.Route
import Cutover.Identifier
import Cutover.Instant
import Cutover.Json.Fault
import Cutover.Json.Number
import Cutover.Json.Reader
import Cutover.Json.Record
import Cutover.Json.Skip
import Cutover.Json.Text
import Cutover.Keyword
import Cutover.Main
import Cutover.Net.SocketAddress
import Cutover.Phase
import Cutover.Pool
import Cutover.Record
import Cutover.Rehearsal.Attempts
import Cutover.Rehearsal.Clock
import Cutover.Rehearsal.Fault
import Cutover.Rehearsal.Replica
import Cutover.Rehearsal.Scene
import Cutover.Rehearsal.Script
import Cutover.Rehearsal.Stage
import Cutover.Rehearsal.World
import Cutover.Retry
import Cutover.Row
import Cutover.Scan
import Cutover.Scheduler
import Cutover.Settings
import Cutover.Sql.Command
import Cutover.Sql.Grammar
import Cutover.Sql.Parser
import Cutover.Sql.Token
import Cutover.Store
import Cutover.Table
import Cutover.TableSpec
import Cutover.Tally
import Cutover.Text.Blank
import Cutover.Text.Keyword
import Cutover.Text.Numeral
import Cutover.Topic
import Cutover.Value
import Cutover.Value.Document
import Cutover.Proofs.Sql.Token
import Cutover.Proofs.Sql.Reading
import Cutover.Proofs.Dialogue.Ensures
import Cutover.Proofs.Scan.Page
import Cutover.Proofs.Scan.Paging
import Cutover.Proofs.Table.Lookup
import Cutover.Proofs.Validation.Pass
import Cutover.Proofs.Validation.Report
import Cutover.Proofs.Validation.Unsteady
import Cutover.Proofs.Consumer.Handling
import Cutover.Proofs.Consumer.History
import Cutover.Proofs.Consumer.Order
import Cutover.Proofs.Event.Codec
import Cutover.Proofs.Repair.Converge
import Cutover.Proofs.Pool.Client
import Cutover.Proofs.Pool.Site
import Cutover.Proofs.Pool.Transparency
import Cutover.Proofs.Pool.DoubleWrite
import Cutover.Proofs.Pool.Routing
import Cutover.Proofs.Pool.Atomicity
import Cutover.Proofs.Dialogue.Asks
import Cutover.Proofs.Validation.Publishing
import Cutover.Proofs.Scheduler.Direction
import Cutover.Proofs.Repair.Race
import Cutover.Proofs.Repair.Meeting
import Cutover.Proofs.Repair.Insensitive
import Cutover.Proofs.Topic.Front
import Cutover.Proofs.Topic.Traffic
import Cutover.Proofs.Topic.Offsets
import Cutover.Proofs.Scheduler.Replacement
import Cutover.Proofs.Validation.Incremental
import Cutover.Proofs.Validation.Cancellation
import Cutover.Proofs.Table.Meaning
import Cutover.Proofs.Repair.Postcondition
import Cutover.Proofs.Validation.Recovery
import Cutover.Proofs.Validation.Lasting
import Cutover.Proofs.Validation.Books
import Cutover.Proofs.Retry.Outage
import Cutover.Proofs.Record.Comparison
import Cutover.Proofs.Repair.Copy
import Cutover.Proofs.Table.Template
import Cutover.Proofs.Http.Server
import Cutover.Proofs.Database.Masking
import Cutover.Proofs.Validation.Cutoff
import Cutover.Proofs.Value.Document
