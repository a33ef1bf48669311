import EventStore.Query.Cache
import EventStore.Text.Quoted
import EventStore.Index.Basic
import EventStore.Time.Calendar
import EventStore.Time.Hour
import EventStore.Time.Timestamp
import EventStore.Time.InternetTime
import EventStore.Bytes.Block
import EventStore.Bytes.Checksum
import EventStore.Event.Basic
import EventStore.Event.Binary
import EventStore.Json.Reader
import EventStore.Json.Value
import EventStore.Event.Json
import EventStore.Store.Error
import EventStore.Store.Frame
import EventStore.Store.Memory
import EventStore.Store.Basic
import EventStore.Config.Basic
import EventStore.Engine.Activity
import EventStore.Engine.Error
import EventStore.Time.Range
import EventStore.Engine.Basic
import EventStore.Engine.Bucket
import EventStore.Engine.EventSet
import EventStore.Engine.Ingest
import EventStore.Engine.Paging
import EventStore.Engine.Service
import EventStore.Api.Body
import EventStore.Api.ContentType
import EventStore.Api.Error
import EventStore.Api.Target
import EventStore.Api.Server
import EventStore.Toml.Reader
import EventStore.Config.Document
import EventStore.Config.Backend
import EventStore.Config.Files
import EventStore.Store.Change
import EventStore.Text.Lowercase
import EventStore.Command.Arguments
import EventStore.Command.Span
import EventStore.Command.Report
import EventStore.Command.Run
import EventStore.Main
import EventStore.Proofs.Engine.Outcomes
import EventStore.Proofs.Event.Binary
import EventStore.Proofs.Store.View
import EventStore.Proofs.Bucket.Contents
import EventStore.Proofs.Query.Cache
import EventStore.Proofs.Query.Lowering
import EventStore.Proofs.Query.Satisfaction
import EventStore.Proofs.Query.Printing
import EventStore.Proofs.Query.Refusal
import EventStore.Proofs.Index.Meaning
import EventStore.Proofs.Bucket.Cell
import EventStore.Proofs.Bucket.Operations
import EventStore.Proofs.Bucket.Matching
import EventStore.Proofs.Bucket.Reading
import EventStore.Proofs.Bucket.Representation
import EventStore.Proofs.Bucket.Marks
import EventStore.Proofs.Engine.Seek
import EventStore.Proofs.Bucket.Search
import EventStore.Proofs.Bucket.Times
import EventStore.Proofs.Time.Key
import EventStore.Proofs.EventSet.State
import EventStore.Proofs.EventSet.Operations
import EventStore.Proofs.EventSet.History
import EventStore.Proofs.EventSet.Query
import EventStore.Proofs.EventSet.Pages
import EventStore.Proofs.Store.Frames
import EventStore.Proofs.Store.Recovery
import EventStore.Proofs.Store.Residue
import EventStore.Proofs.Store.Files
import EventStore.Proofs.Store.Alike
import EventStore.Proofs.Store.Leftovers
import EventStore.Proofs.Engine.Keeping
import EventStore.Proofs.Engine.Work
import EventStore.Proofs.Ingest.Report
import EventStore.Proofs.Ingest.Parts
import EventStore.Proofs.Ingest.Accounts
import EventStore.Proofs.Ingest.Balance
import EventStore.Proofs.Store.Sound
import EventStore.Proofs.Bucket.Undisturbed
import EventStore.Proofs.Bucket.Undropped
import EventStore.Proofs.Bucket.Dropped
import EventStore.Proofs.EventSet.Undisturbed
import EventStore.Proofs.EventSet.Restart
import EventStore.Proofs.EventSet.Counting
import EventStore.Proofs.Engine.Sharing
import EventStore.Proofs.EventSet.Hands
import EventStore.Proofs.EventSet.Additions
import EventStore.Proofs.EventSet.Reading
import EventStore.Proofs.EventSet.Convergence
import EventStore.Proofs.EventSet.Finding
import EventStore.Proofs.EventSet.Upkeep
import EventStore.Proofs.EventSet.Heedless
import EventStore.Proofs.Ingest.Order
import EventStore.Proofs.EventSet.Guard
import EventStore.Proofs.EventSet.Guarding
import EventStore.Proofs.Bucket.Batches
import EventStore.Proofs.Bucket.Ledger
import EventStore.Proofs.Engine.Mirroring
import EventStore.Proofs.Bucket.Snapshot
import EventStore.Proofs.EventSet.Protection
import EventStore.Proofs.Query.History
import EventStore.Proofs.Engine.Respecting
import EventStore.Proofs.EventSet.Caching
import EventStore.Proofs.Store.Oversize
import EventStore.Proofs.Engine.Proceeding
import EventStore.Proofs.EventSet.Waning
import EventStore.Proofs.EventSet.Evicted
import EventStore.Proofs.Ingest.Parties
import EventStore.Proofs.Ingest.Shutdown
import EventStore.Proofs.EventSet.Effects
import EventStore.Proofs.EventSet.Throughout
import EventStore.Proofs.EventSet.Bounded
import EventStore.Proofs.Engine.Halting
import EventStore.Proofs.EventSet.Halting
import EventStore.Proofs.EventSet.Batch
import EventStore.Proofs.Ingest.HandOvers
import EventStore.Proofs.Ingest.Lives
import EventStore.Proofs.EventSet.Overlooking
import EventStore.Proofs.EventSet.Accrual
import EventStore.Proofs.Ingest.Batching
import EventStore.Proofs.EventSet.Selection
import EventStore.Proofs.EventSet.Filing
import EventStore.Proofs.EventSet.Sweeping
import EventStore.Proofs.EventSet.Retention
import EventStore.Proofs.EventSet.Retrying
import EventStore.Proofs.Query.Precedence
import EventStore.Proofs.Bytes.Checksum
import EventStore.Proofs.Bytes.Block
import EventStore.Proofs.Store.Readable
import EventStore.Proofs.Store.Damage
import EventStore.Proofs.Store.Commits
import EventStore.Proofs.Time.Order
import EventStore.Proofs.EventSet.Routing
import EventStore.Proofs.Query.Position
import EventStore.Proofs.Query.Spacing
import EventStore.Proofs.Time.Shift
import EventStore.Proofs.Json.Reader
import EventStore.Proofs.Api.Search
import EventStore.Proofs.EventSet.Cutoff
