import Grommet.Core.Scheduler.Invariants
import Grommet.Core.Scheduler.Order
import Grommet.Core.Timer.Agenda
import Grommet.Runtime.Waiters.Model
import Grommet.Runtime.Waiters.Registry
import Grommet.Runtime.Waiters.Protocol
import Grommet.Core.Ring
import Grommet.Core.WakerSlot
import Grommet.Runtime.Mailbox.Model
import Grommet.Runtime.Mailbox.Closing
import Grommet.Core.Ring.Marks
import Grommet.Core.WakerSlot.Delivery
import Grommet.Core.Ring.Order
import Grommet.Runtime.Mailbox.History
import Grommet.Runtime.Mailbox.Conclusive
import Grommet.Runtime.Mailbox.Announcing
import Grommet.Core.Timer.Progress
import Grommet.Core.Timer.Diagnostics
import Grommet.Core.Timer.Handles
import Grommet.Runtime.Outstanding.Model
import Grommet.Runtime.Outstanding.Announced
import Grommet.Runtime.Outstanding.Taken
import Grommet.Runtime.Outstanding.Readiness
import Grommet.Runtime.Waiters.Admission
import Grommet.Runtime.Shard.Model
import Grommet.Runtime.Shard.Desk
import Grommet.Runtime.Shard.Works
import Grommet.Runtime.Shard.Custody
import Grommet.Runtime.Shard.Reactor
import Grommet.Core.Scheduler.Passing
import Grommet.Runtime.Shard.Stranding
import Grommet.Core.Scheduler.Spent
import Grommet.Runtime.Shard.Contract
import Grommet.Runtime.Shard.Shutdown
import Grommet.Runtime.Shard.Ages
import Grommet.Core.Scheduler.Conserving
import Grommet.Core.Scheduler.Idling
import Grommet.Core.Scheduler.Eviction
import Grommet.Core.Timer.Clock
import Grommet.Core.Timer.Single
import Grommet.Runtime.Shard.Ticking
import Grommet.Core.Scheduler.Arena
import Grommet.Runtime.Shard.Bounds
import Grommet.Runtime.Shard.Coalescing
import Grommet.Runtime.Outstanding.Slots
import Grommet.Runtime.Outstanding.Unwinding
import Grommet.Library.Circle
import Grommet.Runtime.Outstanding.Rotation
import Grommet.Runtime.Outstanding.Course
import Grommet.Runtime.Outstanding.Fairness
import Grommet.Runtime.Outstanding.Returning
import Grommet.Runtime.Outstanding.Clearing
import Grommet.Runtime.Outstanding.Circular
import Grommet.Library.Valued
import Grommet.Library.Mixing
import Grommet.Library.Program
import Grommet.Library.Duties
import Grommet.Runtime.Waiters.Calls
import Grommet.Runtime.Waiters.Fifo
import Grommet.Runtime.Waiters.Compacting
import Grommet.Runtime.Semaphore.Model
import Grommet.Runtime.Semaphore.Finality
import Grommet.Runtime.Semaphore.Counting
import Grommet.Offload.Pool
import Grommet.Runtime.Router.Placement
import Grommet.Runtime.Router.Model
import Grommet.Runtime.Router.Deferred
import Grommet.Runtime.Router.Traces
import Grommet.Runtime.Router.Announced
import Grommet.Runtime.Router.Batch
import Grommet.Runtime.Router.ReadOnce
import Grommet.Core.Ring.Fullness
import Grommet.Core.Ring.Stalled
import Grommet.Core.Scheduler.Checker
import Grommet.Core.Queue.Shared
import Grommet.Core.Ring.Words
import Grommet.Topology.Model
import Grommet.Topology.Apart
import Grommet.Core.Scheduler.Tally
import Grommet.Runtime.Shard.Counters
import Grommet.Runtime.Shard.Timing
import Grommet.Accounts.Service
import Grommet.Accounts.Hosting
import Grommet.Accounts.Positions
import Grommet.Testkit.Draining
import Grommet.Runtime.Doorbell.Refinement
import Grommet.Accounts.Production.Adapters
import Grommet.Accounts.Production.Reporting
