import Spnr.Lib.Argmax
import Spnr.Lib.Arith
import Spnr.Lib.Ascii
import Spnr.Lib.Checked
import Spnr.Lib.Crash
import Spnr.Lib.Encoding
import Spnr.Lib.HashMap
import Spnr.Lib.IndexMap
import Spnr.Lib.InsertOrder
import Spnr.Lib.Js
import Spnr.Lib.Json
import Spnr.Lib.JsonPretty
import Spnr.Lib.JsonPrint
import Spnr.Lib.JsonRead
import Spnr.Lib.JsonTree
import Spnr.Lib.Mpsc
import Spnr.Lib.Replace
import Spnr.Lib.Run
import Spnr.Lib.RunLengths
import Spnr.Lib.RustStd
import Spnr.Lib.Serde
import Spnr.Lib.SerdeJson
import Spnr.Lib.SwapOut
import Spnr.Lib.Unwinding
import Spnr.Lib.Utf16
import Spnr.Lib.Utf8
import Spnr.Proto.Chain
import Spnr.Proto.Crates
import Spnr.Proto.Event
import Spnr.Proto.Reference
import Spnr.Proto.Wire
import Spnr.Server.Accept
import Spnr.Server.Accepted
import Spnr.Server.Auth
import Spnr.Server.Body
import Spnr.Server.Capabilities
import Spnr.Server.Clicks
import Spnr.Server.Crash
import Spnr.Server.Credit
import Spnr.Server.Db
import Spnr.Server.Handlers
import Spnr.Server.Honest
import Spnr.Server.Isolation
import Spnr.Server.Ledger
import Spnr.Server.Money
import Spnr.Server.Operator
import Spnr.Server.Overflow
import Spnr.Server.Prefix
import Spnr.Server.Redeem
import Spnr.Server.Replays
import Spnr.Server.Reregister
import Spnr.Server.Rotation
import Spnr.Server.Runs
import Spnr.Server.Serve
import Spnr.Server.Signup
import Spnr.Server.Solvent
import Spnr.Server.State
import Spnr.Server.Stats
import Spnr.Server.Synced
import Spnr.Server.Telemetry
import Spnr.Server.Totals
import Spnr.Server.View
import Spnr.Daemon.Contiguous
import Spnr.Daemon.Creatives
import Spnr.Daemon.Daemon
import Spnr.Daemon.Emitted
import Spnr.Daemon.Engine
import Spnr.Daemon.Flush
import Spnr.Daemon.Gate
import Spnr.Daemon.Heartbeats
import Spnr.Daemon.Independence
import Spnr.Daemon.Overlap
import Spnr.Daemon.Paused
import Spnr.Daemon.Queue
import Spnr.Daemon.Rule
import Spnr.Daemon.Sessions
import Spnr.Daemon.Socket
import Spnr.Daemon.StatusLine
import Spnr.Daemon.Torn
import Spnr.Daemon.Turns
import Spnr.EndToEnd.Advertising
import Spnr.EndToEnd.Audited
import Spnr.EndToEnd.Binding
import Spnr.EndToEnd.Body
import Spnr.EndToEnd.Chain
import Spnr.EndToEnd.Delivery
import Spnr.EndToEnd.HotPath
import Spnr.EndToEnd.Interleaving
import Spnr.EndToEnd.Loss
import Spnr.EndToEnd.Registration
import Spnr.EndToEnd.Removed
import Spnr.Settings.Atomic
import Spnr.Settings.Files
import Spnr.Settings.Foreign
import Spnr.Settings.Object
import Spnr.Settings.Removal
import Spnr.Settings.Wired
import Spnr.Settings.Without
import Spnr.Cli.Audit
import Spnr.Cli.Commands
import Spnr.Cli.Crashes
import Spnr.Cli.Edits
import Spnr.Cli.Injection
import Spnr.Cli.KeyOrder
import Spnr.Cli.OwnCommands
import Spnr.Cli.Pristine
import Spnr.Cli.Processes
import Spnr.Cli.Readers
import Spnr.Cli.Resume
import Spnr.Cli.Uninstall
import Spnr.Cli.Writers
import Spnr.Scan.Bytes
import Spnr.Scan.Firewall
import Spnr.Scan.Members
import Spnr.Scan.SameName
import Spnr.Scan.Scanners
import Spnr.Scan.TopLevel
import Spnr.Scan.Values
import Spnr.Portal.Advertiser
import Spnr.Portal.Api
import Spnr.Portal.Auction
import Spnr.Portal.Counters
import Spnr.Portal.Grammar
import Spnr.Portal.History
import Spnr.Portal.Lint
import Spnr.Portal.Store
