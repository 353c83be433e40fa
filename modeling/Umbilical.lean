import Umbilical.Shared.SelfDelimiting
import Umbilical.Shared.Script
import Umbilical.Shared.Interleaving
import Umbilical.Shared.Keyed
import Umbilical.Shared.Lines
import Umbilical.Python.Text
import Umbilical.Python.Value
import Umbilical.Authority.Arguments
import Umbilical.Authority.Database
import Umbilical.Authority.Validation
import Umbilical.Authority.Ledger
import Umbilical.Authority.Storage
import Umbilical.Authority.Exactness
import Umbilical.Authority.Connection
import Umbilical.Authority.Operations
import Umbilical.Authority.Surfacing
import Umbilical.Authority.Requests
import Umbilical.Authority.Calm
import Umbilical.Authority.Service
import Umbilical.Authority.Refinement
import Umbilical.Authority.Cleanup
import Umbilical.Authority.Lifecycle
import Umbilical.Authority.Migrations
import Umbilical.Authority.Reopening
import Umbilical.Authority.History
import Umbilical.Execution.Framing
import Umbilical.Execution.ExecutionIdentity
import Umbilical.Execution.CommandSpec
import Umbilical.Execution.CommandEncoding
import Umbilical.Authority.System
import Umbilical.Authority.Transitions
import Umbilical.Locks.BaseLock
import Umbilical.Locks.Bookkeeping
import Umbilical.Locks.Wakeups
import Umbilical.Locks.Queues
import Umbilical.Locks.Guards
import Umbilical.Process.Acquisition
import Umbilical.Process.Waiting
import Umbilical.Process.Abandonment
import Umbilical.Process.Claims
import Umbilical.Process.Deadlock
import Umbilical.Process.Steps
import Umbilical.Process.Startup
import Umbilical.Logs.Chunks
import Umbilical.Logs.Reading
import Umbilical.Logs.Appending
import Umbilical.Logs.RoundTrip
import Umbilical.Logs.Compressing
import Umbilical.Logs.Regrouping
import Umbilical.Logs.Preservation
import Umbilical.Logs.Streaming
import Umbilical.Logs.Limits
import Umbilical.Requests.Severity
import Umbilical.Requests.Tables
import Umbilical.Requests.Claiming
import Umbilical.Requests.Buildsets
import Umbilical.Requests.Completion
import Umbilical.Requests.Compatibility
import Umbilical.Requests.Collapsing
import Umbilical.Mq.SimpleMQ
import Umbilical.Mq.Consumers
import Umbilical.Mq.Delivery
import Umbilical.Mq.ExactlyOnce
import Umbilical.Shared.StableSort
import Umbilical.Data.ResultSpec
import Umbilical.Data.Ordering
import Umbilical.Data.Equivalence
import Umbilical.Process.Distribution
import Umbilical.Process.Cancellation
import Umbilical.Process.Outcome
import Umbilical.Worker.Latent
import Umbilical.Worker.Moves
import Umbilical.Worker.Alternation
import Umbilical.Worker.Waiters
import Umbilical.Shared.Blocks
import Umbilical.Transfer.Manager
import Umbilical.Transfer.Download
import Umbilical.Transfer.Upload
import Umbilical.Msgpack.Protocol
import Umbilical.Schedulers.Dependent
import Umbilical.Schedulers.Classifications
import Umbilical.Schedulers.Accounting
import Umbilical.Schedulers.Timed
import Umbilical.Schedulers.Basic
import Umbilical.Schedulers.Tracker
import Umbilical.Schedulers.Canceller
import Umbilical.Schedulers.Triggerable
import Umbilical.Shared.WholeLines
import Umbilical.Logs.LineBoundaries
import Umbilical.Logs.StreamLog
import Umbilical.Logs.Pieces
import Umbilical.Shared.Replacing
import Umbilical.Process.Secrets
import Umbilical.Process.RemoteCommand
import Umbilical.Process.CommandOutput
import Umbilical.Process.Redaction
import Umbilical.Process.Twins
import Umbilical.Worker.LocksPerBuild
import Umbilical.Execution.Snapshot
import Umbilical.Authority.Escaping
import Umbilical.Locks.Overtaking
import Umbilical.Logs.FirstLine
import Umbilical.BuildbotWorker.LineBoundaryFinder
import Umbilical.BuildbotWorker.LineDelivery
import Umbilical.BuildbotWorker.BufferManager
import Umbilical.Shared.Refusals
import Umbilical.Data.QueryArguments
import Umbilical.Data.Honouring
import Umbilical.Shared.Dictionary
import Umbilical.Shared.JoinedRows
import Umbilical.Data.Collections
import Umbilical.Data.Pages
import Umbilical.Util.LRUCache
import Umbilical.Util.LeastRecentlyUsed
import Umbilical.Util.AsyncLRUCache
import Umbilical.Util.Fetching
import Umbilical.Util.Debouncer
import Umbilical.Util.Debouncing
import Umbilical.Schedulers.Base
import Umbilical.Schedulers.SourceStamps
import Umbilical.Schedulers.Precedence
import Umbilical.Python.Integers
import Umbilical.Shared.WeekField
import Umbilical.Schedulers.Cron
import Umbilical.Python.Json
import Umbilical.Shared.Base64
import Umbilical.Shared.Netstrings
import Umbilical.Schedulers.TryJobdir
import Umbilical.Schedulers.JobValues
import Umbilical.Schedulers.JobErrors
import Umbilical.Schedulers.JobRoundTrip
import Umbilical.Shared.Reactor
import Umbilical.Util.RepeatedActionHandler
import Umbilical.Util.NonRepeatedActionHandler
import Umbilical.Db.ObjectState
import Umbilical.BuildbotWorker.RunProcess
import Umbilical.BuildbotWorker.Ending
import Umbilical.BuildbotWorker.CommandRuns
import Umbilical.Authority.Durability
import Umbilical.Authority.AppendOnly
import Umbilical.Authority.Fencing
import Umbilical.Authority.Validity
import Umbilical.Authority.Migrating
import Umbilical.Authority.Launching
import Umbilical.Authority.Serving
import Umbilical.Authority.Truthful
import Umbilical.Shared.Programs
import Umbilical.WorkGraph.Surroundings
import Umbilical.WorkGraph.Target
import Umbilical.WorkGraph.Checkout
import Umbilical.WorkGraph.Client
import Umbilical.WorkGraph.Preparing
import Umbilical.WorkGraph.System
import Umbilical.WorkGraph.Publishing
import Umbilical.WorkGraph.Verdicts
import Umbilical.WorkGraph.Projection
import Umbilical.WorkGraph.Provenance
import Umbilical.WorkGraph.Checks
import Umbilical.WorkGraph.Spending
import Umbilical.WorkGraph.Conduct
import Umbilical.Logs.Chunking
import Umbilical.WorkGraph.Validation
