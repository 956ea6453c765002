import ChainFeed.Block
import ChainFeed.ForkGraph.Basic
import ChainFeed.ForkGraph.Ancestry
import ChainFeed.ForkGraph.Finality
import ChainFeed.Cursor
import ChainFeed.Text.Quoted
import ChainFeed.Text.Utf8
import ChainFeed.Text.Base64
import ChainFeed.Json.Value
import ChainFeed.Json.Writer
import ChainFeed.Disk.Device
import ChainFeed.Checkpoint.Store
import ChainFeed.Source.Basic
import ChainFeed.Sink.Console
import ChainFeed.Source.Retry
import ChainFeed.Feed.Run
import ChainFeed.Feed.Limit
import ChainFeed.Service.Basic
import ChainFeed.Service.Threads
import ChainFeed.Proofs.ForkGraph.Stored
import ChainFeed.Proofs.ForkGraph.Path
import ChainFeed.Proofs.ForkGraph.Segment
import ChainFeed.Proofs.ForkGraph.BlockTree
import ChainFeed.Proofs.Feed.Firing
import ChainFeed.Proofs.Feed.Record
import ChainFeed.Proofs.Feed.Iteration
import ChainFeed.Proofs.Feed.Request
import ChainFeed.Proofs.Feed.Beginning
import ChainFeed.Proofs.Feed.Turn
import ChainFeed.Proofs.Checkpoint.Restore
import ChainFeed.Proofs.Feed.Delivery
import ChainFeed.Proofs.Feed.Anchor
import ChainFeed.Proofs.Feed.Finality
import ChainFeed.Proofs.Text.Utf8
import ChainFeed.Proofs.Json.Written
import ChainFeed.Proofs.Checkpoint.RoundTrip
import ChainFeed.Proofs.Feed.Order
import ChainFeed.Proofs.Feed.Sessions
import ChainFeed.Proofs.Disk.Walk
import ChainFeed.Proofs.Checkpoint.Save
import ChainFeed.Proofs.Disk.Place
import ChainFeed.Proofs.Checkpoint.Atomic
import ChainFeed.Proofs.Feed.Resume
import ChainFeed.Proofs.BlockNum
import ChainFeed.Proofs.ForkGraph.Chain
import ChainFeed.Proofs.Feed.Served
import ChainFeed.Proofs.Feed.Sourced
import ChainFeed.Proofs.Feed.Succession
import ChainFeed.Proofs.Feed.Stranded
import ChainFeed.Proofs.Feed.StopBlock
import ChainFeed.Proofs.Feed.Convergence
import ChainFeed.Proofs.Feed.ForkFree
import ChainFeed.Proofs.Feed.Tally
import ChainFeed.Proofs.Feed.Relay
import ChainFeed.Proofs.Feed.Trail
import ChainFeed.Proofs.Feed.Completion
import ChainFeed.Proofs.Feed.Consistency
import ChainFeed.Proofs.Feed.Descent
import ChainFeed.Proofs.Feed.Reports
import ChainFeed.Proofs.Feed.Resumable
import ChainFeed.Proofs.Feed.Contiguity
import ChainFeed.Proofs.Feed.Branches
import ChainFeed.Proofs.Feed.Overflow
import ChainFeed.Proofs.Feed.Growth
import ChainFeed.Proofs.Feed.Events
import ChainFeed.Proofs.Service.Observers
import ChainFeed.Proofs.ForkGraph.Walk
import ChainFeed.Proofs.ForkGraph.Descending
import ChainFeed.Proofs.ForkGraph.Purge
import ChainFeed.Proofs.ForkGraph.CallHistory
import ChainFeed.Proofs.Feed.Batch
import ChainFeed.Proofs.Checkpoint.Inverse
import ChainFeed.Proofs.Feed.Snapshots
import ChainFeed.Proofs.Feed.Interruption
import ChainFeed.Proofs.ForkGraph.Arrival
import ChainFeed.Proofs.Text.Base64
import ChainFeed.Proofs.Sink.Lines
import ChainFeed.Proofs.Sink.Stream
import ChainFeed.Proofs.Source.Calls
