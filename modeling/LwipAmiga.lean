import LwipAmiga.Descriptor.Accept
import LwipAmiga.Descriptor.Dangling
import LwipAmiga.Descriptor.Handoff
import LwipAmiga.Heap.Attach
import LwipAmiga.Heap.Contract
import LwipAmiga.Multicast.Membership
import LwipAmiga.Multicast.Sync
import LwipAmiga.Netdev.HeaderCache
import LwipAmiga.Netdev.Lifecycle
import LwipAmiga.Netdev.Profile
import LwipAmiga.Netdev.Reclaim
import LwipAmiga.Netdev.References
import LwipAmiga.Netdev.RoundTrip
import LwipAmiga.Netif.Admission
import LwipAmiga.Netspeed.Graph
import LwipAmiga.Netspeed.Sample
import LwipAmiga.Resolver.Lookup
import LwipAmiga.Resolver.Query
import LwipAmiga.Resolver.Servers
import LwipAmiga.Rx.Launder
import LwipAmiga.Rx.Verdict
import LwipAmiga.Rx.Vlan
import LwipAmiga.Sana2.Parked
import LwipAmiga.Select.Contract
import LwipAmiga.Socket.Datagrams
import LwipAmiga.Socket.Events
import LwipAmiga.Socket.Gather
import LwipAmiga.Socket.RawSend
import LwipAmiga.Socket.Timeouts
import LwipAmiga.Stack.Clock
import LwipAmiga.Stack.Dns
import LwipAmiga.Stack.Handshake
import LwipAmiga.Stack.Mac
import LwipAmiga.Stack.Netnum
import LwipAmiga.Stack.Order
import LwipAmiga.Stack.Release
import LwipAmiga.Stack.Replies
import LwipAmiga.Tcp.FailedRead
import LwipAmiga.Tcp.Mark
import LwipAmiga.Tcp.Readable
import LwipAmiga.Tcp.Scatter
import LwipAmiga.Tcp.SendWake
import LwipAmiga.Tcp.Shutdown
import LwipAmiga.Tcp.Statistics
import LwipAmiga.Tcp.Urgent
import LwipAmiga.Wake.Sender
