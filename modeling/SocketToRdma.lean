import SocketToRdma.Lib.Run
import SocketToRdma.Table.Lookup
import SocketToRdma.Table.FdLayout
import SocketToRdma.Table.Locking
import SocketToRdma.Table.Spread
import SocketToRdma.Table.Entries
import SocketToRdma.Host.Hooks
import SocketToRdma.Host.Routing
import SocketToRdma.Host.Isolation
import SocketToRdma.Host.Multiplex
import SocketToRdma.Host.Result
import SocketToRdma.Host.ThreadExit
import SocketToRdma.Host.Connections
import SocketToRdma.Codec
import SocketToRdma.Server.Stability
import SocketToRdma.Server.Connection
import SocketToRdma.Server.Bounds
import SocketToRdma.Server.EpollTable
import SocketToRdma.Server.Disconnect
import SocketToRdma.Remote.Write
import SocketToRdma.Remote.Select
import SocketToRdma.Remote.Fcntl
import SocketToRdma.Remote.Sockname
import SocketToRdma.Remote.Port
import SocketToRdma.Remote.Credit
import SocketToRdma.Remote.Wakeup
import SocketToRdma.Remote.PostWrite
import SocketToRdma.Remote.Handshake
import SocketToRdma.Remote.CmEvents
import SocketToRdma.Remote.Completions
import SocketToRdma.RoundTrip
import SocketToRdma.Remote.EpollWait
import SocketToRdma.Remote.Poll
import SocketToRdma.Lib.Simulation
import SocketToRdma.Lib.Parallel
import SocketToRdma.Lib.Critical
import SocketToRdma.Remote.Progress
import SocketToRdma.Remote.Transparency
import SocketToRdma.Remote.Threads
import SocketToRdma.Table.Concurrent
import SocketToRdma.Table.Memory
import SocketToRdma.Table.Unlocked
import SocketToRdma.Remote.Resources
