import Aesd.Foundation.BoundedFifo
import Aesd.Foundation.Framing
import Aesd.Foundation.Memory
import Aesd.Foundation.LinkedList
import Aesd.Foundation.Positions
import Aesd.Foundation.Execution
import Aesd.Foundation.Mutex
import Aesd.Foundation.Delivery
import Aesd.Foundation.Linearization
import Aesd.Foundation.Reduction
import Aesd.Foundation.Fairness
import Aesd.Driver.CircularBuffer
import Aesd.Driver.RingFifo
import Aesd.Driver.Lookup
import Aesd.Driver.Device
import Aesd.Driver.Represents
import Aesd.Driver.Write
import Aesd.Driver.Read
import Aesd.Driver.System
import Aesd.Driver.Locking
import Aesd.Driver.WriteRuns
import Aesd.Driver.Seek
import Aesd.Driver.ReadRuns
import Aesd.Driver.Window
import Aesd.Driver.Ownership
import Aesd.Driver.Pending
import Aesd.Driver.Concurrent
import Aesd.Driver.Linearizable
import Aesd.Driver.Module
import Aesd.Server.CString
import Aesd.Server.Thread
import Aesd.Server.Receive
import Aesd.Server.Locking
import Aesd.Server.Decision
import Aesd.Server.Segmentation
import Aesd.Server.Bounds
import Aesd.Server.Finish
import Aesd.Server.Stopping
import Aesd.Server.Main
import Aesd.Server.Roster
import Aesd.Server.Walk
import Aesd.Server.Orderly
import Aesd.Server.Reaping
import Aesd.Server.Peers
import Aesd.Service.World
import Aesd.Service.Isolation
import Aesd.Service.Access
import Aesd.Service.Requests
import Aesd.Service.Sections
import Aesd.Service.Store
import Aesd.Service.Refinement
import Aesd.Service.OwnLine
import Aesd.Service.BackEnds
import Aesd.Service.Replies
import Aesd.Service.Descriptors
import Aesd.Service.Standstill
import Aesd.Service.Serial
import Aesd.Service.Process
import Aesd.Service.Clients
import Aesd.Service.Projection
import Aesd.Service.Delivery
import Aesd.Service.Progress
import Aesd.Service.Fairness
import Aesd.Service.Host
import Aesd.Service.Lives
import Aesd.Service.Startup
