import Netpp.Acceptor.Acceptor
import Netpp.Client.Disconnect
import Netpp.Connection.Callbacks
import Netpp.Connection.ChannelReader
import Netpp.Connection.Inbound
import Netpp.Connection.Pending
import Netpp.Connection.Shut
import Netpp.Connector.Connected
import Netpp.Copy.Copies
import Netpp.Dispatcher.OneLoop
import Netpp.Epoll.Mirror
import Netpp.Epoll.Poll
import Netpp.EventLoop.Dispatch
import Netpp.EventLoop.Reuse
import Netpp.Handlers.FunctorOrder
import Netpp.Socket.Sequential
import Netpp.Support.Barrier
import Netpp.Time.TimerImpl
import Netpp.Time.Timerfd
import Netpp.Socket.Completion
import Netpp.Connection.Writable
import Netpp.Http.HttpCode
import Netpp.Http.HttpRequest
import Netpp.Http.HttpParser
import Netpp.Http.RetryLoop
import Netpp.Socket.FirstNode
import Netpp.Http.Decoding
import Netpp.Http.Consume
import Netpp.Http.Layouts
import Netpp.Http.Spelling
import Netpp.Http.HttpPackage
import Netpp.Library.Scanner
import Netpp.Uri.InnerParseOut
import Netpp.Uri.Uri
import Netpp.Uri.RoundTrip
import Netpp.Library.DotSegments
import Netpp.Uri.Encoding
import Netpp.Uri.Path
import Netpp.Uri.Query
import Netpp.Uri.Components
import Netpp.Library.Reference
import Netpp.Uri.Resolve
import Netpp.Uri.Equality
import Netpp.Uri.Reparse
import Netpp.Library.Cursor
import Netpp.Uri.Pointers
import Netpp.Connection.Forward
import Netpp.Copy.Isolation
import Netpp.Uri.Segments
import Netpp.Buffer.Growth
import Netpp.Socket.ScatterView
import Netpp.Support.Shutdown
import Netpp.Signal.Delivery
import Netpp.Uri.Builder
import Netpp.Connection.Idle
import Netpp.EventLoop.Alone
import Netpp.EventLoop.IdleLoop
import Netpp.Library.LockOrder
import Netpp.Library.Serializable
import Netpp.Socket.Calls
import Netpp.Socket.Concurrent
import Netpp.Socket.SharedQueue
import Netpp.Acceptor.TcpServer
import Netpp.Dispatcher.Served
import Netpp.Support.Events
