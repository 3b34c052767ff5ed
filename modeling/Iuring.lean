import Iuring.Reactive.Callout
import Iuring.Reactive.Executor
import Iuring.Reactive.Environment
import Iuring.Reactive.SlotTable
import Iuring.Pool.FailStop
import Iuring.Pool.HighWater
import Iuring.Net.Storage
import Iuring.Net.Factory
import Iuring.Net.MacAddress
import Iuring.Net.PacketTail
import Iuring.Net.Text
import Iuring.Net.Multicast
import Iuring.Net.Adapter
import Iuring.Uring.BufferPool
import Iuring.Uring.Datagram
import Iuring.Uring.Failures
import Iuring.Uring.Peers
import Iuring.Uring.Pipeline
import Iuring.Uring.Features
import Iuring.Safety.Orphans
import Iuring.Safety.Rearm
import Iuring.Safety.Buffers
import Iuring.Safety.Status
import Iuring.Safety.Polls
import Iuring.Safety.Sends
import Iuring.Safety.Sending
import Iuring.Safety.Datagrams
import Iuring.Safety.Execution
import Iuring.Safety.Messages
import Iuring.Dns.Handlers
import Iuring.Dns.Lookups
import Iuring.Dns.Names
import Iuring.Dns.Literals
import Iuring.Dns.Fates
import Iuring.Dns.Memory
import Iuring.Programs.EchoServer
import Iuring.Programs.Ping
