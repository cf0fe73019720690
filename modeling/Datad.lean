import Datad.Json
import Datad.Lib.Transition
import Datad.Lib.Trace
import Datad.Lib.Pointwise
import Datad.Ops.Txn
import Datad.Ops.TxnControl
import Datad.Ops.TxnInvariant
import Datad.Ops.TxnConfirm
import Datad.Ops.Engine
import Datad.Ops.World
import Datad.Ops.Sections
import Datad.Ops.WorldInvariant
import Datad.Ops.Deeds
import Datad.Ops.Exclusion
import Datad.Ops.TaskPassage
import Datad.Ops.Writers
import Datad.Ops.WriteOnce
import Datad.Ops.WriteAhead
import Datad.Ops.Cancellation
import Datad.Hub.Block
import Datad.Hub.Publication
import Datad.Hub.Feed
import Datad.Hub.Revision
import Datad.Hub.Freshness
import Datad.Hub.Executor
import Datad.Lib.Ghost
import Datad.Lib.KeyedQueue
import Datad.Ops.Idempotence
import Datad.Ops.LegacyAccounting
import Datad.Ops.Resume
import Datad.Ops.Supersession
import Datad.Ops.Wakeup
import Datad.Server.Cargo
import Datad.Server.Flushing
import Datad.Server.LegacyWrites
import Datad.Server.Sessions
import Datad.Ubus.Client
import Datad.Ubus.Delivery
import Datad.Server.Capture
import Datad.Collect.Cache
import Datad.Collect.Health
import Datad.Collect.Invalidation
import Datad.Lib.Bytes
import Datad.Lib.Lines
import Datad.Ops.Deadline
import Datad.Ops.OpBlock
import Datad.Server.Cellular
import Datad.Server.LastWriter
import Datad.Ubus.BlobRoundTrip
import Datad.Ubus.Instances
import Datad.Uci.Accepted
import Datad.Uci.Show
import Datad.Uci.Addressed
import Datad.Lib.Ascending
import Datad.Lib.Brackets
import Datad.Lib.ByteLines
import Datad.Lib.Spacing
import Datad.Ops.Journal
import Datad.Ops.ProbePace
import Datad.Ops.Readings
import Datad.Ops.TxnClock
import Datad.Sms.ListAfter
import Datad.Ubus.Frames
import Datad.Collect.Coherence
import Datad.Executor.Machine
import Datad.Executor.Queue
import Datad.Executor.Marks
import Datad.Executor.Rotation
import Datad.Executor.Timeouts
import Datad.Lib.Trimmed
import Datad.Collect.CellWindow
import Datad.Lib.Finding
import Datad.Qos.External
import Datad.Lib.Ranked
import Datad.Qos.Bearers
import Datad.Lib.Codes
import Datad.JsonText
import Datad.Ops.Redact
import Datad.Ops.Record
import Datad.Ops.Ui
import Datad.Ops.DataPath
import Datad.Lib.Staging
import Datad.Server.WifiApply
import Datad.Lib.Decimals
import Datad.Hub.Signal
import Datad.Ops.JournalView
import Datad.Lib.Pairs
import Datad.Ops.Skips
import Datad.Ops.UndoViews
import Datad.Lib.Regroup
import Datad.Server.Base64
import Datad.Server.Auth
import Datad.Lib.Slots
import Datad.Executor.AtThreads
import Datad.Server.LegacyHits
import Datad.Ubus.Compare
import Datad.Lib.Checked
import Datad.Ubus.BlobBounds
import Datad.Uci.Reader
import Datad.Uci.LexerBounds
import Datad.Uci.ParserBounds
import Datad.Screen.Scalars
import Datad.Screen.Story
import Datad.Lib.Firsts
import Datad.Screen.Carriers
import Datad.Screen.CountedOnce
import Datad.Lib.Gregorian
import Datad.Ops.Civil
import Datad.Lib.Interaction
import Datad.Lib.Urlencoded
import Datad.Server.Actions
import Datad.Server.Messages
import Datad.Server.Permitted
import Datad.Server.Refused
import Datad.Server.ReadBack
import Datad.Executor.Gate
import Datad.Lib.Permit
import Datad.Executor.Waking
import Datad.Lib.CrashFs
import Datad.Ops.Pending
import Datad.Server.Access
import Datad.Ubus.Listen
import Datad.Server.Served
import Datad.Lib.EventStream
import Datad.Hub.Wire
import Datad.Executor.Watchdog
