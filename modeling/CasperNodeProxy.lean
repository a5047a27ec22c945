import CasperNodeProxy.Binary.Budget
import CasperNodeProxy.Binary.Privacy
import CasperNodeProxy.Binary.Waiters
import CasperNodeProxy.Binary.Alignment
import CasperNodeProxy.Binary.Traces
import CasperNodeProxy.Events.Bus
import CasperNodeProxy.Events.Handlers
import CasperNodeProxy.Events.ApiVersion
import CasperNodeProxy.Events.Delivery
import CasperNodeProxy.Events.Order
import CasperNodeProxy.Events.Replay
import CasperNodeProxy.Events.Agreement
import CasperNodeProxy.Lib.Stutter
import CasperNodeProxy.Sse.Listener
import CasperNodeProxy.Sse.Repeats
import CasperNodeProxy.Sse.Resume
import CasperNodeProxy.Binary.Arrivals
import CasperNodeProxy.Binary.Forwarding
import CasperNodeProxy.Binary.Transparency
import CasperNodeProxy.Binary.Envelope
import CasperNodeProxy.Lib.Json
import CasperNodeProxy.Rpc.Allowlist
import CasperNodeProxy.Lib.JsonText
import CasperNodeProxy.Rpc.Status
import CasperNodeProxy.Events.Backlog
import CasperNodeProxy.Events.Producers
import CasperNodeProxy.Binary.Socket
import CasperNodeProxy.Binary.RateLimit
import CasperNodeProxy.Binary.Accounting
import CasperNodeProxy.Http.Router
import CasperNodeProxy.Http.Metrics
import CasperNodeProxy.Http.Attribution
import CasperNodeProxy.Binary.Marks
import CasperNodeProxy.Lib.Refinement
import CasperNodeProxy.Binary.SocketCalls
import CasperNodeProxy.Binary.Replies
import CasperNodeProxy.Binary.Completion
import CasperNodeProxy.Lib.EventStream
import CasperNodeProxy.Events.Frames
import CasperNodeProxy.Sse.Pipeline
import CasperNodeProxy.Http.Answers
import CasperNodeProxy.Http.Ledger
import CasperNodeProxy.Events.Sessions
import CasperNodeProxy.Events.Progress
import CasperNodeProxy.App.Startup
import CasperNodeProxy.App.System
import CasperNodeProxy.App.Service
import CasperNodeProxy.Binary.Arrivals
