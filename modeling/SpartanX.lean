import SpartanX.Global
import SpartanX.Lib.Counter
import SpartanX.Lib.Machine
import SpartanX.Object
import SpartanX.RefCount
import SpartanX.Server
import SpartanX.Connection.Block
import SpartanX.Connection.LifeCycle
import SpartanX.Connection.Stream
import SpartanX.Connection.Suspension
import SpartanX.Connection.Iteration
import SpartanX.Kqueue.Handling
import SpartanX.Agreement
import SpartanX.Lib.Parties
import SpartanX.Shared
import SpartanX.AcceptLoop
import SpartanX.Embedding
import SpartanX.Kqueue.Loop
import SpartanX.GuestLimit
import SpartanX.Lifetime
import SpartanX.ServerRequests
import SpartanX.Resumption
import SpartanX.Connection.Latch
import SpartanX.Rounds
import SpartanX.KeepAlive
import SpartanX.Teardown
import SpartanX.Lib.Exec
import SpartanX.Lib.CMemory
import SpartanX.Lib.Occurrences
import SpartanX.Vector
import SpartanX.Strings.Create
import SpartanX.Strings.Search
import SpartanX.Strings.Replace
import SpartanX.Strings.Split
import SpartanX.Strings.Edit
import SpartanX.Strings.Invariant
import SpartanX.Client.Loop
import SpartanX.Client.Exit
import SpartanX.Client.Delivery
import SpartanX.Client.Release
import SpartanX.Constructors
import SpartanX.DnsLookup
import SpartanX.Lib.Iterations
import SpartanX.Strings.Course
import SpartanX.Strings.Bounds
import SpartanX.Strings.Overrun
import SpartanX.Swift.RunExit
import SpartanX.Swift.RunLoop
import SpartanX.Swift.Segment
import SpartanX.Swift.StreamServer
import SpartanX.Swift.Tail
import SpartanX.Lib.Overlap
import SpartanX.Lib.Deletion
import SpartanX.Strings.Absent
import SpartanX.Strings.Contains
import SpartanX.Strings.Ranges
import SpartanX.Strings.Join
import SpartanX.Strings.Remove
import SpartanX.Strings.Unchanged
import SpartanX.Strings.EntryPoints
import SpartanX.VectorStorage
import SpartanX.VectorElements
import SpartanX.Lib.Follower
import SpartanX.Swift.Flags
import SpartanX.Strings.Location
import SpartanX.Strings.RoundTrip
import SpartanX.Proxy.Request
import SpartanX.Proxy.Bridge
import SpartanX.Unstoppable
import SpartanX.Lib.Multiplexer
import SpartanX.Kqueue.Move
import SpartanX.Kqueue.Descriptors
import SpartanX.Kqueue.Delivery
import SpartanX.Swift.Delivery
import SpartanX.Lib.DescriptorTable
import SpartanX.Descriptors
import SpartanX.Swift.Descriptors
import SpartanX.Swift.FindAll
import SpartanX.Swift.Proxy
import SpartanX.Swift.Tunnel
import SpartanX.Shutdown
import SpartanX.Swift.Shutdown
import SpartanX.Kqueue.Shutdown
