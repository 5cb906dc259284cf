import MqttServer.Lib.Exec
import MqttServer.Codec.Msg
import MqttServer.Server.Framer
import MqttServer.Server.Segmentation
import MqttServer.Common.Mbuf
import MqttServer.Lib.Run
import MqttServer.Reactor.EventHandler
import MqttServer.Lib.USet
import MqttServer.Reactor.OutputStream
import MqttServer.Server.Session
import MqttServer.Server.Broker
import MqttServer.Server.Connection
import MqttServer.Server.Persist
import MqttServer.Server.DbFile
import MqttServer.Server.Poller
import MqttServer.Server.Bridge
import MqttServer.Lib.Codec
import MqttServer.Server.Packing
import MqttServer.Correctness.Trace
import MqttServer.Correctness.Refine
import MqttServer.Correctness.Events
import MqttServer.Correctness.Links
import MqttServer.Correctness.Restore
import MqttServer.Correctness.Sessions
import MqttServer.Correctness.Subscriptions
import MqttServer.Correctness.Lifecycle
import MqttServer.Correctness.Pending
import MqttServer.Correctness.Memory
import MqttServer.Correctness.Image
import MqttServer.Correctness.RoundTrip
import MqttServer.Codec.Wire
import MqttServer.Http.Request
import MqttServer.Http.Connection
import MqttServer.Http.Cuts
import MqttServer.Correctness.Notify
import MqttServer.Lib.Fair
import MqttServer.Reactor.Notify
import MqttServer.Correctness.Wakeup
import MqttServer.Correctness.Accept
import MqttServer.Correctness.Crash
import MqttServer.Correctness.Flush
import MqttServer.Correctness.Admission
import MqttServer.Correctness.Table
import MqttServer.Correctness.Closing
import MqttServer.Reactor.Interest
import MqttServer.Correctness.Connect
import MqttServer.Correctness.Refusal
import MqttServer.Correctness.FanOut
import MqttServer.Correctness.Forward
import MqttServer.Correctness.Framing
import MqttServer.Correctness.Idle
import MqttServer.Correctness.Wheel
import MqttServer.Correctness.Timers
import MqttServer.Correctness.Schedule
import MqttServer.Codec.Grammar
import MqttServer.Codec.Mismatch
import MqttServer.Http.Send
import MqttServer.Reactor.WriteN
import MqttServer.Correctness.Status
import MqttServer.Http.Lines
import MqttServer.Http.Methods
import MqttServer.Http.Range
import MqttServer.Correctness.Subscribing
import MqttServer.Correctness.Handles
import MqttServer.Correctness.Broadcast
import MqttServer.Correctness.Retained
import MqttServer.Correctness.Malformed
import MqttServer.Correctness.Stats
import MqttServer.Lib.Epoll
import MqttServer.Reactor.Epoll
import MqttServer.Reactor.Client
import MqttServer.Reactor.Shutdown
import MqttServer.Common.TimerFile
import MqttServer.Correctness.DbFormat
import MqttServer.Correctness.DbFile
import MqttServer.Codec.Ansi
import MqttServer.Codec.Agreement
import MqttServer.Codec.Bounds
import MqttServer.Lib.Calls
import MqttServer.Codec.Cursor
import MqttServer.Codec.Issued
import MqttServer.Correctness.Issued
import MqttServer.Common.MbufRun
import MqttServer.Correctness.PublishId
import MqttServer.Correctness.Resting
import MqttServer.Correctness.Numbering
import MqttServer.Correctness.Identifiers
import MqttServer.Common.Fifo
import MqttServer.Common.ThreadRecord
import MqttServer.Lib.Parts
import MqttServer.Correctness.BridgeClient
import MqttServer.Correctness.Delivery
