import CasperNodeProxy.Binary.Socket
import CasperNodeProxy.Events.Handlers
import CasperNodeProxy.Http.Metrics
import CasperNodeProxy.Http.Router
import CasperNodeProxy.Rpc.Proxy

/-!
# The HTTP server

A request passes `track_http`, the rate limit and the router, in this order, and then its handler.
Any number of requests are handled at a time, and a client may go away at every await point.

* `Framework`: what is answered by code that is not part of the repository, as a parameter.
* `dispatch`: a request up to where its handler waits for an upstream; `serve`: a request that
  nothing interleaves with. `serve_rpc` connects it with `rpcProxy`.
* `Request`, `requestStep`, `serverProgram`: a request in steps, and all of them, interleaved.
* **`requestStep_cases`**: everything a step of a request can be.
-/

namespace CasperNodeProxy

open Wire

/-! ## `axum` and `tower_governor` as a parameter -/

/-- What is answered without a handler, or by an extractor. -/
structure Framework extends Axum where
  notFound : Response
  methodNotAllowed : Response
  /-- `Path<String>` without a value. -/
  pathRejected : Response
  /-- `Json` of a value that cannot be serialised. -/
  jsonFailure : Response
  /-- `on_upgrade`. -/
  upgraded : Response
  /-- The head of an event stream. -/
  eventStream : Response
  /-- `GovernorError::UnableToExtractKey`. -/
  unableToExtractKey : Response
  /-- `GovernorError::TooManyRequests`, with the wait in seconds. -/
  tooManyRequests : ℕ → Response

/-- The methods that a route is matched for; `get` answers `HEAD` too. -/
def MethodRouter.accepts : MethodRouter → String → Bool
  | .get _, method => method == "GET" || method == "HEAD"
  | .post _, method => method == "POST"

/-! ## Handlers -/

/-- A request as it comes in, with what its extractors make of it. -/
structure Incoming where
  request : HttpRequest
  /-- `Bytes`. -/
  body : Except Response Bytes
  /-- `Query<EventsQuery>`: its `start_from`. -/
  query : Except Response (Option ℕ)
  /-- `WebSocketUpgrade`. -/
  upgrade : Except Response Unit

/-- A network, as far as the handlers read it. -/
structure NetworkState where
  config : NetworkConfig

/-- The networks, under their names. -/
structure AppState where
  networks : List (String × NetworkState)

namespace AppState

/-- `get_network`, with all that the handlers read of a network. -/
def getNetwork (state : AppState) (name : String) : Except AppError NetworkState :=
  match state.networks.lookup name with
  | some network => .ok network
  | none => .error (.notFound ("unknown network: " ++ name))

/-- What `rpc_proxy` reads of the networks. -/
def configs (state : AppState) : List (String × NetworkConfig) :=
  state.networks.map fun p => (p.1, p.2.config)

theorem getNetwork_configs (state : AppState) (name : String) :
    CasperNodeProxy.getNetwork state.configs name = (state.getNetwork name).map (·.config) := by
  have hlookup : state.configs.lookup name = (state.networks.lookup name).map (·.config) :=
    Members.lookup_map _ _ _
  rw [CasperNodeProxy.getNetwork, getNetwork, hlookup]
  cases state.networks.lookup name <;> rfl

end AppState

variable (F : Framework) (S : SerdeJson)

/-- `Json`. -/
def jsonResponse (status : ℕ) (payload : Json S.Number) : Response :=
  match S.toVec payload with
  | .ok bytes => ⟨status, some applicationJson, bytes⟩
  | .error _ => F.jsonFailure

/-- `into_response`: the message of the error as JSON. -/
def AppError.intoResponse (err : AppError) : Response :=
  jsonResponse F S err.status (.object [("error", .string err.message)])

/-- What a handler that returned a result is answered with. -/
def intoResponse : Except AppError Response → Response
  | .ok response => response
  | .error err => err.intoResponse F S

/-- `network_root`; the fields are written in the order of `NetworkLinks`. -/
def networkRoot (state : AppState) (networkName : String) : Except AppError Response :=
  match state.getNetwork networkName with
  | .error err => .error err
  | .ok network => .ok (jsonResponse F S 200 (.object
      [("network_name", .string network.config.networkName),
        ("chain_name", .string network.config.chainName),
        ("rpc", .string ("/" ++ networkName ++ "/rpc")),
        ("events", .string ("/" ++ networkName ++ "/events")),
        ("binary", .string ("/" ++ networkName ++ "/binary"))]))

/-- A connection that goes on when its request is answered. -/
inductive Connection
  | events (networkName : String) (kind : Kind) (startFrom : Option ℕ)
  | binary (networkName : String)
  deriving DecidableEq

/-- What a handler comes to before it waits for an upstream. -/
inductive Dispatched
  | answer (response : Response) (opened : Option Connection)
  | post (networkName method url : String) (body : Bytes)

/-- `rpc_proxy`, up to the request that it posts. -/
def rpcBegin (state : AppState) (networkName : String) (body : Bytes) : Dispatched :=
  match state.getNetwork networkName with
  | .error err => .answer (err.intoResponse F S) none
  | .ok network =>
    match S.fromSlice body with
    | .error _ => .answer (jsonrpcErrorResponse S .null (-32700) "Parse error") none
    | .ok json =>
      match rpcMethod S json with
      | .error response => .answer response none
      | .ok method => .post networkName method network.config.rpc body

/-- `events_handler`. A request that is no upgrade gets an event stream. -/
def eventsHandler (state : AppState) (networkName : String) (startFrom : Option ℕ)
    (upgrade : Except Response Unit) : Dispatched :=
  match state.getNetwork networkName with
  | .error err => .answer (err.intoResponse F S) none
  | .ok _ =>
    match upgrade with
    | .ok () => .answer F.upgraded (some (.events networkName .websocket startFrom))
    | .error _ => .answer F.eventStream (some (.events networkName .sse startFrom))

/-- `binary_ws`, behind its extractors. -/
def binaryWs (state : AppState) (networkName : String) : Dispatched :=
  match state.getNetwork networkName with
  | .error err => .answer (err.intoResponse F S) none
  | .ok _ => .answer F.upgraded (some (.binary networkName))

/-- A handler behind its extractors, which are asked in the order of its arguments. -/
def callHandler (state : AppState) (a : Incoming) (networkName : String) : Handler → Dispatched
  | .networkRoot => .answer (intoResponse F S (networkRoot F S state networkName)) none
  | .rpcProxy =>
    match a.body with
    | .error rejection => .answer rejection none
    | .ok body => rpcBegin F S state networkName body
  | .eventsHandler =>
    match a.query with
    | .error rejection => .answer rejection none
    | .ok startFrom => eventsHandler F S state networkName startFrom a.upgrade
  | .binaryWs =>
    match a.upgrade with
    | .error rejection => .answer rejection none
    | .ok () => binaryWs F S state networkName

/-- The router, and the handler that it picks. -/
def dispatch (state : AppState) (a : Incoming) : Dispatched :=
  match F.findRoute routes a.request.path with
  | none => .answer F.notFound none
  | some (route, params) =>
    if route.accepts a.request.method then
      match F.extractPath params with
      | none => .answer F.pathRejected none
      | some networkName => callHandler F S state a networkName route.handler
    else .answer F.methodNotAllowed none

/-! ## A request on its own -/

/-- The statuses that `rpc_proxy` counts. -/
def nonSuccess (networkName : String) (status : ℕ) : List RpcCount :=
  if 200 ≤ status ∧ status < 300 then [] else [.rpcUpstreamNonSuccess networkName status]

/-- The end of `rpc_proxy`, from the head of a response on. -/
def relayBody (sanitizeStatus : Bool) (status : ℕ) (contentType : Option Bytes) :
    Except String Bytes → Except AppError Response
  | .error err => .error (.badGateway ("upstream body error: " ++ err))
  | .ok body =>
    match if sanitizeStatus then sanitizeInfoGetStatusResponse S body else .ok body with
    | .error err => .error err
    | .ok body => .ok ⟨status, contentType, body⟩

theorem relay_response (networkName : String) (sanitizeStatus : Bool) (status : ℕ)
    (contentType : Option Bytes) (body : Except String Bytes) :
    relay S networkName sanitizeStatus (.response status contentType body) =
      (nonSuccess networkName status, relayBody S sanitizeStatus status contentType body) := by
  unfold relay relayBody nonSuccess
  cases body with
  | error err => rfl
  | ok body =>
    dsimp only
    cases (if sanitizeStatus then sanitizeInfoGetStatusResponse S body else .ok body) <;> rfl

/-- What a request did behind the rate limit. -/
structure RequestRun where
  rpc : List RpcCount
  posted : Option (String × Bytes)
  opened : Option Connection
  response : Response

/-- What a request does when nothing comes between. -/
def serve (state : AppState) (upstream : String → Bytes → UpstreamReply) (a : Incoming) :
    RequestRun :=
  match dispatch F S state a with
  | .answer response opened => ⟨[], none, opened, response⟩
  | .post networkName method url body =>
    let reply := relay S networkName (method == "info_get_status") (upstream url body)
    ⟨.jsonrpcMethod networkName method :: reply.1, some (url, body), none,
      intoResponse F S reply.2⟩

/-- **A request for `/{network_name}/rpc`** is `rpc_proxy` on its own. -/
theorem serve_rpc {state : AppState} (upstream : String → Bytes → UpstreamReply) {a : Incoming}
    {networkName : String} {params : List (String × String)} {body : Bytes}
    (hroute : F.findRoute routes a.request.path = some (.post .rpcProxy, params))
    (hmethod : a.request.method = "POST") (hname : F.extractPath params = some networkName)
    (hbody : a.body = .ok body) :
    serve F S state upstream a =
      let run := rpcProxy S state.configs upstream networkName body
      ⟨run.counts, run.posted, none, intoResponse F S run.result⟩ := by
  have haccepts : (MethodRouter.post .rpcProxy).accepts a.request.method = true := by
    rw [hmethod]
    rfl
  have hdispatch : dispatch F S state a = rpcBegin F S state networkName body := by
    simp only [dispatch, hroute, haccepts, if_true, hname, MethodRouter.handler, callHandler,
      hbody]
  rw [serve, hdispatch]
  unfold rpcBegin rpcProxy
  rw [state.getNetwork_configs]
  cases state.getNetwork networkName with
  | error err => rfl
  | ok network =>
    simp only [Except.map]
    cases S.fromSlice body with
    | error err => rfl
    | ok json =>
      dsimp only
      cases rpcMethod S json with
      | error response => rfl
      | ok method => rfl

/-! ## A request in steps -/

/-- The await points of a request. -/
inductive RequestPc
  /-- In front of the rate limit. -/
  | limit
  /-- In front of the router, and its handler. -/
  | route
  /-- At `send()` to the upstream. -/
  | upstream (networkName method : String)
  /-- At `bytes()` of the response. -/
  | body (networkName method : String) (status : ℕ) (contentType : Option Bytes)
  | answered (response : Response)
  /-- The client has gone away. -/
  | dropped
  deriving DecidableEq

/-- A request, and how far it is; the rest are records for the proofs. -/
structure Request where
  incoming : Incoming
  pc : RequestPc
  /-- When the rate limit let it through. -/
  admittedAt : Option ℕ
  /-- The connection that was opened for it. -/
  opened : Option Connection
  /-- What was posted for it, and where. -/
  posted : Option (String × Bytes)
  /-- What the upstream replied, in full. -/
  reply : Option UpstreamReply
  /-- What it was counted as by `rpc_proxy`. -/
  rpc : List RpcCount

/-- A request that has just come in. -/
def Request.new (incoming : Incoming) : Request := ⟨incoming, .limit, none, none, none, none, []⟩

/-- The limiters, one for each client, and all counts so far, in order. -/
structure Server (G : Governor) where
  limiters : String → G.State
  http : List HttpCount
  rpc : List RpcCount
  /-- When the limiters were asked, for whom. -/
  checks : List (String × ℕ)
  /-- Who was let through, and when. -/
  admitted : List (String × ℕ)

/-- What can happen to a request. -/
inductive RequestAct
  /-- The rate limit; the clock is read for the check, and for the wait. -/
  | check (checkedAt now : ℕ)
  | route
  | sendError (err : String)
  | head (status : ℕ) (contentType : Option Bytes)
  | body (body : Except String Bytes)
  | disconnect

variable {G : Governor}

/-- `rate_limit_layer`. -/
def rateLimitLayer (G : Governor) (perMinute burstSize : ℕ) : Server G :=
  ⟨fun _ => G.direct (binaryQuota perMinute burstSize), [], [], [], []⟩

namespace Server

/-- The limiter of a client is asked. -/
def ask (s : Server G) (key : String) (checkedAt : ℕ) : Server G :=
  { s with
    limiters := Function.update s.limiters key (G.check (s.limiters key) checkedAt).2
    checks := s.checks ++ [(key, checkedAt)] }

/-- A client is let through. -/
def letThrough (s : Server G) (key : String) (checkedAt : ℕ) : Server G :=
  { s with admitted := s.admitted ++ [(key, checkedAt)] }

/-- Counts of `rpc_proxy`. -/
def count (s : Server G) (counts : List RpcCount) : Server G := { s with rpc := s.rpc ++ counts }

/-- `track_http` has the response. -/
def observe (s : Server G) (t : Request) (response : Response) : Server G :=
  { s with http := s.http ++ (trackHttp Response.status (fun _ => response) t.incoming.request).1 }

end Server

namespace Request

/-- Counts of `rpc_proxy`. -/
def count (t : Request) (counts : List RpcCount) : Request := { t with rpc := t.rpc ++ counts }

/-- The request is answered. -/
def answer (t : Request) (response : Response) : Request := { t with pc := .answered response }

/-- The handler goes on until it waits or returns. -/
def goOn (t : Request) (s : Server G) : Dispatched → Server G × Request
  | .answer response opened => (s.observe t response, { t.answer response with opened := opened })
  | .post networkName method url body =>
    (s.count [.jsonrpcMethod networkName method],
      { t.count [.jsonrpcMethod networkName method] with
        pc := .upstream networkName method
        posted := some (url, body) })

/-- `rpc_proxy` has the reply of the upstream in full, and returns. -/
def finish (t : Request) (s : Server G) (reply : UpstreamReply) (counts : List RpcCount)
    (result : Except AppError Response) : Server G × Request :=
  ((s.count counts).observe t (intoResponse F S result),
    ({ t.count counts with reply := some reply }).answer (intoResponse F S result))

end Request

/-- One step of a request. -/
def requestStep (state : AppState) (s : Server G) (t : Request) :
    RequestAct → Option (Server G × Request)
  | .check checkedAt now =>
    match t.pc with
    | .limit =>
      match t.incoming.request.clientIp with
      | none => some (s.observe t F.unableToExtractKey, t.answer F.unableToExtractKey)
      | some key =>
        match (G.check (s.limiters key) checkedAt).1 with
        | .error notUntil =>
          let response := F.tooManyRequests (G.waitTimeFrom notUntil now / nanosPerSec)
          some ((s.ask key checkedAt).observe t response, t.answer response)
        | .ok () => some ((s.ask key checkedAt).letThrough key checkedAt,
            { t with pc := .route, admittedAt := some checkedAt })
    | _ => none
  | .route =>
    match t.pc with
    | .route => some (t.goOn s (dispatch F S state t.incoming))
    | _ => none
  | .sendError err =>
    match t.pc with
    | .upstream networkName _ =>
      some (t.finish F S s (.sendError err) [.rpcUpstreamError networkName]
        (.error (.badGateway ("upstream RPC error: " ++ err))))
    | _ => none
  | .head status contentType =>
    match t.pc with
    | .upstream networkName method =>
      some (s.count (nonSuccess networkName status),
        { t.count (nonSuccess networkName status) with
          pc := .body networkName method status contentType })
    | _ => none
  | .body body =>
    match t.pc with
    | .body _ method status contentType =>
      some (t.finish F S s (.response status contentType body) []
        (relayBody S (method == "info_get_status") status contentType body))
    | _ => none
  | .disconnect =>
    match t.pc with
    | .answered _ | .dropped => none
    | _ => some (s, { t with pc := .dropped })

variable (G) in
/-- All requests; nothing else changes what they share. -/
def serverProgram (state : AppState) :
    Tasks.Program (Server G) Request RequestAct Empty Incoming where
  task _ := requestStep F S state
  env _ := nofun
  spawn := Request.new

variable (G) in
/-- What requests share, and all of them. -/
abbrev ServerConf := Tasks.Conf (Server G) Request

variable (G) in
/-- A step of the HTTP server. -/
abbrev serverStep (state : AppState) :
    ServerConf G → Tasks.Act RequestAct Empty Incoming → Option (ServerConf G) :=
  (serverProgram F S G state).step

variable (G) in
/-- The rate limit has let nobody through, and there is no request yet. -/
def serverInit (perMinute burstSize : ℕ) : ServerConf G :=
  ⟨rateLimitLayer G perMinute burstSize, []⟩

/-! ## What a step can be -/

variable {F S}

/-- The steps of a request. -/
inductive RequestStep (F : Framework) (S : SerdeJson) (state : AppState) (s : Server G)
    (t : Request) : Server G → Request → Prop
  | noKey (hpc : t.pc = .limit) (hip : t.incoming.request.clientIp = none) :
      RequestStep F S state s t (s.observe t F.unableToExtractKey) (t.answer F.unableToExtractKey)
  | limit {key checkedAt notUntil now} (hpc : t.pc = .limit)
      (hip : t.incoming.request.clientIp = some key)
      (hc : (G.check (s.limiters key) checkedAt).1 = .error notUntil) :
      RequestStep F S state s t
        ((s.ask key checkedAt).observe t
          (F.tooManyRequests (G.waitTimeFrom notUntil now / nanosPerSec)))
        (t.answer (F.tooManyRequests (G.waitTimeFrom notUntil now / nanosPerSec)))
  | pass {key checkedAt} (hpc : t.pc = .limit) (hip : t.incoming.request.clientIp = some key)
      (hc : (G.check (s.limiters key) checkedAt).1 = .ok ()) :
      RequestStep F S state s t ((s.ask key checkedAt).letThrough key checkedAt)
        { t with pc := .route, admittedAt := some checkedAt }
  | answer {response opened} (hpc : t.pc = .route)
      (hd : dispatch F S state t.incoming = .answer response opened) :
      RequestStep F S state s t (s.observe t response) { t.answer response with opened := opened }
  | post {networkName method url body} (hpc : t.pc = .route)
      (hd : dispatch F S state t.incoming = .post networkName method url body) :
      RequestStep F S state s t (s.count [.jsonrpcMethod networkName method])
        { t.count [.jsonrpcMethod networkName method] with
          pc := .upstream networkName method
          posted := some (url, body) }
  | sendError {networkName method err} (hpc : t.pc = .upstream networkName method) :
      RequestStep F S state s t
        (t.finish F S s (.sendError err) [.rpcUpstreamError networkName]
          (.error (.badGateway ("upstream RPC error: " ++ err)))).1
        (t.finish F S s (.sendError err) [.rpcUpstreamError networkName]
          (.error (.badGateway ("upstream RPC error: " ++ err)))).2
  | head {networkName method status contentType} (hpc : t.pc = .upstream networkName method) :
      RequestStep F S state s t (s.count (nonSuccess networkName status))
        { t.count (nonSuccess networkName status) with
          pc := .body networkName method status contentType }
  | body {networkName method status contentType body}
      (hpc : t.pc = .body networkName method status contentType) :
      RequestStep F S state s t
        (t.finish F S s (.response status contentType body) []
          (relayBody S (method == "info_get_status") status contentType body)).1
        (t.finish F S s (.response status contentType body) []
          (relayBody S (method == "info_get_status") status contentType body)).2
  | disconnect (hpc : ∀ response, t.pc ≠ .answered response) :
      RequestStep F S state s t s { t with pc := .dropped }

theorem goOn_cases {state : AppState} {s s' : Server G} {t t' : Request} (hpc : t.pc = .route)
    (h : t.goOn s (dispatch F S state t.incoming) = (s', t')) :
    RequestStep F S state s t s' t' := by
  cases hd : dispatch F S state t.incoming with
  | answer response opened =>
    rw [hd] at h
    cases h
    exact .answer hpc hd
  | post networkName method url body =>
    rw [hd] at h
    cases h
    exact .post hpc hd

/-- **What a step of a request can be.** -/
theorem requestStep_cases {state : AppState} {s s' : Server G} {t t' : Request} {a : RequestAct}
    (h : requestStep F S state s t a = some (s', t')) : RequestStep F S state s t s' t' := by
  cases a with
  | check checkedAt now =>
    simp only [requestStep] at h
    split at h
    · next hpc =>
      split at h
      · next hip =>
        cases h
        exact .noKey hpc hip
      · next key hip =>
        split at h
        · next notUntil hc =>
          cases h
          exact .limit hpc hip hc
        · next hc =>
          cases h
          exact .pass hpc hip hc
    · cases h
  | route =>
    simp only [requestStep] at h
    split at h
    · next hpc => exact goOn_cases hpc (Option.some.inj h)
    · cases h
  | sendError err =>
    simp only [requestStep] at h
    split at h
    · next networkName method hpc =>
      cases h
      exact .sendError hpc
    · cases h
  | head status contentType =>
    simp only [requestStep] at h
    split at h
    · next networkName method hpc =>
      cases h
      exact .head hpc
    · cases h
  | body body =>
    simp only [requestStep] at h
    split at h
    · next networkName method status contentType hpc =>
      cases h
      exact .body hpc
    · cases h
  | disconnect =>
    simp only [requestStep] at h
    split at h
    · cases h
    · cases h
    · next hans hdrop =>
      cases h
      exact .disconnect hans

end CasperNodeProxy
