import Rpscc.Agent.Agent
import Rpscc.Agent.Blocks
import Rpscc.Agent.Chunks
import Rpscc.Agent.Partition
import Rpscc.Agent.Replies
import Rpscc.Agent.Routing
import Rpscc.Agent.Sorting
import Rpscc.Cluster.Backups
import Rpscc.Cluster.Capacity
import Rpscc.Cluster.Channel
import Rpscc.Cluster.DataParallel
import Rpscc.Cluster.Deployment
import Rpscc.Cluster.Failover
import Rpscc.Cluster.Heartbeats
import Rpscc.Cluster.Joined
import Rpscc.Cluster.Joining
import Rpscc.Cluster.MappedChannel
import Rpscc.Cluster.Ownership
import Rpscc.Cluster.Progress
import Rpscc.Cluster.Pulls
import Rpscc.Cluster.Sharding
import Rpscc.Cluster.SharedMemory
import Rpscc.Cluster.Signals
import Rpscc.Cluster.Synchrony
import Rpscc.Cluster.Takeover
import Rpscc.Cluster.Training
import Rpscc.Cluster.Versions
import Rpscc.Communication.AddressBook
import Rpscc.Communication.Communicator
import Rpscc.Communication.FifoRing
import Rpscc.Communication.Framing
import Rpscc.Communication.OneProducer
import Rpscc.Communication.Producers
import Rpscc.Communication.Receivers
import Rpscc.Communication.Transport
import Rpscc.Lib.Accumulate
import Rpscc.Lib.Arcs
import Rpscc.Lib.BoundedQueue
import Rpscc.Lib.Checked
import Rpscc.Lib.Circle
import Rpscc.Lib.Decimal
import Rpscc.Lib.Ledger
import Rpscc.Lib.Lists
import Rpscc.Lib.Rounds
import Rpscc.Lib.Snapshots
import Rpscc.Lib.Sorted
import Rpscc.Lib.SortedMap
import Rpscc.Lib.Staleness
import Rpscc.Lib.Wire
import Rpscc.Lib.Words
import Rpscc.Master.Addresses
import Rpscc.Master.Book
import Rpscc.Master.Delivery
import Rpscc.Master.Detection
import Rpscc.Master.MainLoop
import Rpscc.Master.Master
import Rpscc.Master.Registration
import Rpscc.Master.Removal
import Rpscc.Master.Roster
import Rpscc.Master.StartUp
import Rpscc.Master.TaskConfig
import Rpscc.Message
import Rpscc.Server.Basic
import Rpscc.Server.Cells
import Rpscc.Server.FlowControl
import Rpscc.Server.Merge
import Rpscc.Server.OrderIndependence
import Rpscc.Server.Ranges
import Rpscc.Server.Reconfigure
import Rpscc.Server.Requests
import Rpscc.Server.Runs
import Rpscc.Server.Serve
import Rpscc.Server.Simulation
import Rpscc.Server.Start
import Rpscc.Server.Workers
import Rpscc.Worker.Batches
import Rpscc.Worker.Descent
import Rpscc.Worker.LinearRegression
