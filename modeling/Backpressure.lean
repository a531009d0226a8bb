import Backpressure.Lib.LittleEndian
import Backpressure.Core.Status
import Backpressure.Core.Ids
import Backpressure.Core.Fixed
import Backpressure.Core.Ratio
import Backpressure.Core.Digest
import Backpressure.Core.ByteIo
import Backpressure.Model.Generation
import Backpressure.Model.Policy
import Backpressure.Model.Signal
import Backpressure.Model.Fence
import Backpressure.Model.Topology
import Backpressure.Model.TopologyBuild
import Backpressure.Model.OutEdges
import Backpressure.Model.EdgeIds
import Backpressure.Model.OutIndex
import Backpressure.Model.Cycles
import Backpressure.Model.Decay
import Backpressure.Model.Custody
import Backpressure.Lib.PriorityQueue
import Backpressure.Lib.Turns
import Backpressure.Lib.Metered
import Backpressure.Lib.Window
import Backpressure.Lib.BestFirst
import Backpressure.Lib.Buckets
import Backpressure.Lib.Components
import Backpressure.Engine.Ledger
import Backpressure.Engine.Explain
import Backpressure.Engine.Traversal
import Backpressure.Engine.Propagate
import Backpressure.Engine.Machine
import Backpressure.Engine.Visits
import Backpressure.Engine.Outcome
import Backpressure.Engine.Probe
import Backpressure.Engine.NoIncrease
import Backpressure.Engine.Atomicity
import Backpressure.Engine.Receipt
import Backpressure.Engine.Refusals
import Backpressure.Engine.Delivery
import Backpressure.Engine.Records
import Backpressure.Engine.Budget
import Backpressure.Engine.Bounds
import Backpressure.Engine.Amplification
import Backpressure.Engine.Checkable
import Backpressure.Engine.Recover
import Backpressure.Engine.Tally
import Backpressure.Engine.Shares
import Backpressure.Engine.Ramp
import Backpressure.Engine.Paths
import Backpressure.Engine.Traces
import Backpressure.Engine.Frame
import Backpressure.Engine.Replay
import Backpressure.Engine.Removal
import Backpressure.Engine.Trust
import Backpressure.Engine.Recovery
import Backpressure.Engine.Justified
import Backpressure.Engine.Alone
import Backpressure.Store.Journal
import Backpressure.Store.Chunks
import Backpressure.Store.Replay
import Backpressure.Store.Holds
import Backpressure.Store.Acknowledged
import Backpressure.Store.Intact
import Backpressure.Store.DurableState
import Backpressure.Store.Rewrite
import Backpressure.Store.Codecs
import Backpressure.Store.Durable
import Backpressure.Store.Recovery
import Backpressure.Store.Rewritten
import Backpressure.Store.Repair
import Backpressure.Store.Mutators
import Backpressure.Store.Compaction
import Backpressure.Store.Healthy
import Backpressure.Store.Refinement
import Backpressure.Store.Refusal
import Backpressure.Runtime.Fabric
import Backpressure.Runtime.Books
import Backpressure.Runtime.Batch
import Backpressure.Lib.Records
import Backpressure.Lib.Recent
import Backpressure.Core.Words
import Backpressure.Model.Commitment
import Backpressure.Model.Lineage
import Backpressure.Engine.Evidence
import Backpressure.Engine.Fingerprint
import Backpressure.Store.Lasting
import Backpressure.Runtime.PolicyHistory
import Backpressure.Runtime.Registry
import Backpressure.Runtime.Reopen
import Backpressure.Runtime.Restart
import Backpressure.Runtime.FullJournal
import Backpressure.Runtime.Attempt
import Backpressure.Runtime.Effect
import Backpressure.Runtime.Refused
import Backpressure.Ipc.Frame
import Backpressure.Ipc.Connection
import Backpressure.Core.Checksum
import Backpressure.Ipc.Corruption
import Backpressure.Engine.Fates
import Backpressure.Engine.Accounts
import Backpressure.Engine.Cooldown
import Backpressure.Engine.Damping
import Backpressure.Engine.Crossable
import Backpressure.Engine.Pins
import Backpressure.Engine.MoreHops
import Backpressure.Engine.Strongest
import Backpressure.Lib.Dominated
import Backpressure.Engine.Wider
import Backpressure.Engine.Reorder
import Backpressure.Engine.Parents
import Backpressure.Engine.Descent
import Backpressure.Engine.Rehearsal
import Backpressure.Runtime.Agreement
import Backpressure.Engine.Truncation
import Backpressure.Runtime.Lineages
import Backpressure.Runtime.Pool
import Backpressure.Runtime.Tickets
import Backpressure.Runtime.TicketStore
import Backpressure.Runtime.Settled
import Backpressure.Runtime.Fences
import Backpressure.Store.Canonical
import Backpressure.Store.Damage
import Backpressure.Store.Appended
import Backpressure.Store.Readable
import Backpressure.Store.Reopening
import Backpressure.Store.Faultless
import Backpressure.Store.TornTail
import Backpressure.Lib.WriteAhead
import Backpressure.Store.Crash
import Backpressure.Store.Epochs
import Backpressure.Engine.Served
import Backpressure.Engine.Late
import Backpressure.Engine.Allowance
import Backpressure.Engine.Reported
import Backpressure.Runtime.Cancellation
import Backpressure.Runtime.Shutdown
import Backpressure.Runtime.Recorded
import Backpressure.Store.Course
import Backpressure.Store.Settings
import Backpressure.Runtime.Courses
import Backpressure.Runtime.Recover
import Backpressure.Runtime.Survival
import Backpressure.Runtime.Torn
import Backpressure.Runtime.AtMostOnce
