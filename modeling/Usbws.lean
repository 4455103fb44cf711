import Usbws.Lts.Basic
import Usbws.Data.Framed
import Usbws.Data.Pieces
import Usbws.Data.Channel
import Usbws.Data.Ledger
import Usbws.Data.CString
import Usbws.Data.Linked
import Usbws.Data.Getopt
import Usbws.Data.Path
import Usbws.Sync.Monitor
import Usbws.Sync.Crowd
import Usbws.ListHead.Basic
import Usbws.ListHead.Traverse
import Usbws.Session.Basic
import Usbws.Session.Transmit
import Usbws.Session.Receive
import Usbws.Session.Callback
import Usbws.ListHead.Queue
import Usbws.Reader.Basic
import Usbws.Reader.Integrity
import Usbws.Reader.Bounds
import Usbws.Reader.Discontinue
import Usbws.Reader.Backlog
import Usbws.Reader.Cursor
import Usbws.Sender.Basic
import Usbws.Sender.Publish
import Usbws.Sender.Request
import Usbws.Ctx.Interval
import Usbws.Conn.Basic
import Usbws.Conn.PingPong
import Usbws.Conn.Incoming
import Usbws.Conn.Ping
import Usbws.Conn.Watch
import Usbws.Context.Basic
import Usbws.Context.Release
import Usbws.Context.Failure
import Usbws.Context.Exact
import Usbws.Context.Frames
import Usbws.Sender.Refine
import Usbws.Tunnel.Basic
import Usbws.Tunnel.Stream
import Usbws.Permit.Basic
import Usbws.Permit.Discipline
import Usbws.Permit.Poll
import Usbws.Wakeup.Basic
import Usbws.Wakeup.Signals
import Usbws.Wakeup.Refine
import Usbws.Daemon.Watch
import Usbws.Ctx.Basic
import Usbws.Ctx.Service
import Usbws.Ctx.Lifetime
import Usbws.Client.Target
import Usbws.Client.Proxy
import Usbws.Client.Stores
import Usbws.Client.Open
import Usbws.Client.Notes
import Usbws.Client.Verdict
import Usbws.Client.Await
import Usbws.Client.Release
import Usbws.Client.Held
import Usbws.Client.Reopen
import Usbws.Ctx.Sigint
import Usbws.Ctx.Shutdown
import Usbws.Wakeup.Teardown
import Usbws.Wakeup.Leave
import Usbws.Cli.Options
import Usbws.Cli.Commands
import Usbws.Cli.Main
import Usbws.Cli.Connection
import Usbws.Daemon.Options
import Usbws.Daemon.Main
import Usbws.Daemon.PidFile
