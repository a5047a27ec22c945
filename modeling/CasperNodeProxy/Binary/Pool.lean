import CasperNodeProxy.Lib.Channel
import CasperNodeProxy.Lib.Tasks
import CasperNodeProxy.Binary.Stream
import CasperNodeProxy.Binary.Rewrite

/-!
# The connection pool

`BinaryPool::send` as a state machine. The state of a call says at which await point it stands and
what it owns there; one step runs from one await point to the next. Any number of calls run over
one pool, and any of them may be dropped at any await point.

* `BinaryPool`, `Pc`, `Call`, `sendStep`: the pool, a call, and its steps.
* `poolProgram`: all calls of one pool, interleaved.
* **`sendStep_cases`**: everything a step of a call can be.
* `sendStep_moves`: how a step moves permits between the semaphore, the idle pool and the call.
-/

namespace CasperNodeProxy

open Wire Channel

/-- `MAX_MESSAGE_SIZE_BYTES`. -/
def maxMessageSizeBytes : ℕ := 4 * 1024 * 1024

/-! ## State -/

/-- The values of the label `outcome`. -/
inductive Outcome
  | ok
  | error
  | rateLimited
  deriving DecidableEq, Repr

/-- The metrics that binary requests count. -/
structure BinaryMetrics where
  requests : ℕ
  ok : ℕ
  error : ℕ
  rateLimited : ℕ
  inflight : ℤ
  deriving DecidableEq, Repr

/-- `increment_binary_response`. -/
def BinaryMetrics.incrementBinaryResponse (m : BinaryMetrics) : Outcome → BinaryMetrics
  | .ok => { m with ok := m.ok + 1 }
  | .error => { m with error := m.error + 1 }
  | .rateLimited => { m with rateLimited := m.rateLimited + 1 }

/-- A stream with the permit it was opened under: owning the connection is owning the permit. -/
structure PooledConnection where
  stream : TcpStream
  deriving DecidableEq

/-- The pool of a network, with its metrics. -/
structure BinaryPool where
  semaphore : Semaphore
  /-- The idle connections, the last one pushed first. -/
  pool : List PooledConnection
  metrics : BinaryMetrics
  /-- The number of streams opened so far, which numbers the next one. -/
  opened : ℕ
  deriving DecidableEq

/-- `BinaryPool::new`; a limit of 0 is raised to 1. -/
def BinaryPool.new (maxConnections : ℕ) : BinaryPool :=
  ⟨.new (max maxConnections 1), [], ⟨0, 0, 0, 0, 0⟩, 0⟩

namespace BinaryPool

/-- The permit of a dropped connection, or of a call that is opening one. -/
def release (P : BinaryPool) : BinaryPool := { P with semaphore := P.semaphore.release }

/-- The in-flight guard is created. -/
def enter (P : BinaryPool) : BinaryPool :=
  { P with metrics := { P.metrics with inflight := P.metrics.inflight + 1 } }

/-- The in-flight guard is dropped. -/
def leave (P : BinaryPool) : BinaryPool :=
  { P with metrics := { P.metrics with inflight := P.metrics.inflight - 1 } }

/-- A response is counted under its outcome. -/
def count (P : BinaryPool) (o : Outcome) : BinaryPool :=
  { P with metrics := P.metrics.incrementBinaryResponse o }

end BinaryPool

/-- The two exchanges of a call: on the connection it got, and after a reconnect. -/
inductive Attempt
  | first
  | second
  deriving DecidableEq, Repr

/-- The state of `send_and_receive`: bytes still to be written, or bytes read so far. -/
inductive Io
  | write (left : Bytes)
  | readLength (buf : List (Answer × UInt8))
  | readResponse (len : ℕ) (head buf : List (Answer × UInt8))
  deriving DecidableEq

/-- The await points of `send`, with what the call owns there. -/
inductive Pc
  | start
  /-- `get_connection`, at the lock of the idle pool. -/
  | getConnection
  /-- `get_connection`, at the semaphore; the idle pool was empty. -/
  | acquire
  /-- `get_connection`, at `connect`, with a permit. -/
  | connect
  | exchange (attempt : Attempt) (connection : PooledConnection) (io : Io)
  | reconnect (connection : PooledConnection)
  /-- `return_connection`, at the lock of the idle pool. -/
  | returnConnection (connection : PooledConnection) (rewritten : Bytes)
  | finished (result : Except BinaryError Bytes)
  | cancelled
  deriving DecidableEq

/-- What a call did with streams, in order. -/
inductive StreamEvent
  | popped (stream : ℕ)
  | opened (stream : ℕ)
  | wrote (stream : ℕ)
  | failed (stream : ℕ) (kind : ErrorKind)
  | reply (stream : ℕ) (bytes : List (Answer × UInt8))
  deriving DecidableEq

/-- A call of `send`: its payload and its await point. -/
structure Call where
  payload : Bytes
  pc : Pc
  /-- A record for the proofs; no step depends on it. -/
  trace : List StreamEvent
  deriving DecidableEq

/-! ## Steps -/

/-- What can happen to a call. -/
inductive SendAct
  /-- The call runs up to its first await point. -/
  | begin
  | lock
  | acquire
  | connected
  | write (n : ℕ)
  | flush
  | read (n : ℕ)
  | ioError (kind : ErrorKind)
  | upstream (act : UpstreamAct)
  | cancel

/-- The permits a call owns. -/
def Pc.permits : Pc → ℕ
  | .connect | .exchange _ _ _ | .reconnect _ | .returnConnection _ _ => 1
  | _ => 0

/-- The call waits for a permit. -/
def Pc.waiting : Pc → ℕ
  | .acquire => 1
  | _ => 0

/-- The call is past the checks of its request and has not ended. -/
def Pc.inProgress : Pc → ℕ
  | .start | .finished _ | .cancelled => 0
  | _ => 1

/-- An error that a fresh connection may cure. -/
def ErrorKind.retryable : ErrorKind → Bool
  | .unexpectedEof | .connectionReset | .connectionAborted | .brokenPipe => true
  | .other => false

namespace Call

/-- A call that has not begun yet. -/
def new (payload : Bytes) : Call := ⟨payload, .start, []⟩

/-- The call returns. -/
def finish (c : Call) (result : Except BinaryError Bytes) : Call :=
  { c with pc := .finished result }

/-- `send_and_receive` begins on a connection. -/
def exchange (c : Call) (attempt : Attempt) (connection : PooledConnection) (event : StreamEvent) :
    Call :=
  { c with
    pc := .exchange attempt connection (.write (frame c.payload))
    trace := c.trace ++ [event] }

end Call

variable (K : BinaryPort)

/-- The checks before a connection is asked for. -/
def checkRequest (payload : Bytes) : Except (Except BinaryError Bytes) Unit :=
  match parseRequest K payload with
  | .error err => .error (buildErrorResponse K err.errorCode payload)
  | .ok parsed =>
    if maxMessageSizeBytes < payload.length then
      .error (.error (.requestTooLarge maxMessageSizeBytes payload.length))
    else if parsed.informationRequest = some .peers then
      .error (buildErrorResponse K .functionDisabled payload)
    else .ok ()

/-- What a call answers for a reply of the upstream. -/
def answerFor (payload response : Bytes) : Except BinaryError Bytes :=
  match rewriteResponseBytes K response with
  | .ok bytes => .ok bytes
  | .error err => buildErrorResponse K err.errorCode payload

/-- The error exits behind `get_connection`: a connection or a permit is dropped. -/
def failWith (P : BinaryPool) (c : Call) (err : BinaryError) : BinaryPool × Call :=
  ((P.count .error).release.leave, c.finish (.error err))

/-- The last byte of a response has been read. -/
def received (P : BinaryPool) (c : Call) (conn : PooledConnection)
    (head buf : List (Answer × UInt8)) : BinaryPool × Call :=
  let c := { c with trace := c.trace ++ [StreamEvent.reply conn.stream.id (head ++ buf)] }
  match answerFor K c.payload (buf.map Prod.snd) with
  | .ok rewritten => (P, { c with pc := .returnConnection conn rewritten })
  | .error err => (P.release.leave, c.finish (.error err))

/-- `read_exact` of the response goes on until all its bytes are there. -/
def readOn (P : BinaryPool) (c : Call) (attempt : Attempt) (conn : PooledConnection) (len : ℕ)
    (head buf : List (Answer × UInt8)) : BinaryPool × Call :=
  if buf.length = len then received K P c conn head buf
  else (P, { c with pc := .exchange attempt conn (.readResponse len head buf) })

/-- The steps of `send_and_receive` of call `i` that succeed. -/
def exchangeStep (i : ℕ) (P : BinaryPool) (c : Call) (attempt : Attempt) (conn : PooledConnection) :
    Io → SendAct → Option (BinaryPool × Call)
  | .write left, .write n =>
    if 0 < n ∧ n ≤ left.length then
      some (P, { c with
        pc := .exchange attempt ⟨conn.stream.write i (left.take n)⟩ (.write (left.drop n))
        trace := c.trace ++ if left = frame c.payload then [.wrote conn.stream.id] else [] })
    else none
  | .write [], .flush => some (P, { c with pc := .exchange attempt conn (.readLength []) })
  | .readLength buf, .read n =>
    if 0 < n ∧ buf.length + n ≤ 4 ∧ n ≤ conn.stream.outbox.length then
      let head := buf ++ conn.stream.outbox.take n
      let conn := ⟨conn.stream.skip n⟩
      if head.length = 4 then
        some (readOn K P c attempt conn (u32Of (head.map Prod.snd)) head [])
      else some (P, { c with pc := .exchange attempt conn (.readLength head) })
    else none
  | .readResponse len head buf, .read n =>
    if 0 < n ∧ buf.length + n ≤ len ∧ n ≤ conn.stream.outbox.length then
      some (readOn K P c attempt ⟨conn.stream.skip n⟩ len head (buf ++ conn.stream.outbox.take n))
    else none
  | _, _ => none

/-- An I/O error in `send_and_receive`: on the first attempt it may be worth a reconnect. -/
def exchangeError (P : BinaryPool) (c : Call) (attempt : Attempt) (conn : PooledConnection)
    (kind : ErrorKind) : BinaryPool × Call :=
  let c := { c with trace := c.trace ++ [StreamEvent.failed conn.stream.id kind] }
  if attempt = .first ∧ kind.retryable = true then (P, { c with pc := .reconnect conn })
  else failWith P c (.io kind)

/-- The future of the call is dropped, with all that it owns. -/
def cancelCall (P : BinaryPool) (c : Call) : Option (BinaryPool × Call) :=
  let cancelled := { c with pc := .cancelled }
  match c.pc with
  | .start => some (P, cancelled)
  | .getConnection | .acquire => some (P.leave, cancelled)
  | .connect | .exchange _ _ _ | .reconnect _ | .returnConnection _ _ =>
    some (P.release.leave, cancelled)
  | .finished _ | .cancelled => none

/-- One step of call `i` of `BinaryPool::send`. -/
def sendStep (i : ℕ) (P : BinaryPool) (c : Call) : SendAct → Option (BinaryPool × Call)
  | .begin =>
    match c.pc with
    | .start =>
      match checkRequest K c.payload with
      | .error result => some (((P.enter).count .error).leave, c.finish result)
      | .ok () => some (P.enter, { c with pc := .getConnection })
    | _ => none
  | .lock =>
    match c.pc with
    | .getConnection =>
      match P.pool with
      | conn :: rest =>
        some ({ P with pool := rest }, c.exchange .first conn (.popped conn.stream.id))
      | [] => some (P, { c with pc := .acquire })
    | .returnConnection conn rewritten =>
      some ((({ P with pool := conn :: P.pool }).count .ok).leave, c.finish (.ok rewritten))
    | _ => none
  | .acquire =>
    match c.pc with
    | .acquire =>
      match P.semaphore.acquire with
      | .ok s => some ({ P with semaphore := s }, { c with pc := .connect })
      | .closed => some ((P.count .error).leave, c.finish (.error .connectionUnavailable))
      | .pending => none
    | _ => none
  | .connected =>
    match c.pc with
    | .connect => some ({ P with opened := P.opened + 1 },
        c.exchange .first ⟨.connect P.opened⟩ (.opened P.opened))
    | .reconnect _ => some ({ P with opened := P.opened + 1 },
        c.exchange .second ⟨.connect P.opened⟩ (.opened P.opened))
    | _ => none
  | .ioError kind =>
    match c.pc with
    | .connect | .reconnect _ => some (failWith P c (.io kind))
    | .exchange attempt conn _ => some (exchangeError P c attempt conn kind)
    | _ => none
  | .upstream act =>
    match c.pc with
    | .exchange attempt conn io => (conn.stream.upstream act).map fun s =>
        (P, { c with pc := .exchange attempt ⟨s⟩ io })
    | .reconnect conn =>
      (conn.stream.upstream act).map fun s => (P, { c with pc := .reconnect ⟨s⟩ })
    | .returnConnection conn rewritten => (conn.stream.upstream act).map fun s =>
        (P, { c with pc := .returnConnection ⟨s⟩ rewritten })
    | _ => none
  | .cancel => cancelCall P c
  | act =>
    match c.pc with
    | .exchange attempt conn io => exchangeStep K i P c attempt conn io act
    | _ => none

/-- The upstream acts on an idle connection. -/
structure IdleAct where
  index : ℕ
  act : UpstreamAct

/-- What the upstream does on an idle connection. -/
def idleStep (P : BinaryPool) (a : IdleAct) : Option BinaryPool :=
  (P.pool[a.index]?).bind fun conn => (conn.stream.upstream a.act).map fun s =>
    { P with pool := P.pool.set a.index ⟨s⟩ }

/-- All calls of one pool. A call arrives with its payload. -/
def poolProgram : Tasks.Program BinaryPool Call SendAct IdleAct Bytes where
  task := sendStep K
  env := idleStep
  spawn := Call.new

/-- A pool and all calls of it. -/
abbrev PoolConf := Tasks.Conf BinaryPool Call

/-- A step of a call, of an idle connection, or the arrival of a call. -/
abbrev PoolAct := Tasks.Act SendAct IdleAct Bytes

/-- A new pool, and no call yet. -/
def poolInit (maxConnections : ℕ) : PoolConf := ⟨.new maxConnections, []⟩

/-- A step of a pool and its calls. -/
abbrev poolStep : PoolConf → PoolAct → Option PoolConf := (poolProgram K).step

/-! ## What a step can be -/

/-- Reading `n` bytes completes the length, or goes on with the response: `head` is then the length
and `buf` what there is of the response. -/
inductive Reads (s : TcpStream) (n : ℕ) : Io → ℕ → List (Answer × UInt8) →
    List (Answer × UInt8) → Prop
  | length {buf : List (Answer × UInt8)} (h : buf.length + n = 4) (hn : n ≤ s.outbox.length) :
      Reads s n (.readLength buf) (u32Of ((buf ++ s.outbox.take n).map Prod.snd))
        (buf ++ s.outbox.take n) []
  | response {len : ℕ} {head buf : List (Answer × UInt8)} (h : buf.length + n ≤ len)
      (hn : n ≤ s.outbox.length) :
      Reads s n (.readResponse len head buf) len head (buf ++ s.outbox.take n)

variable {K}

/-- The steps of a call, one constructor for each exit of an await point. -/
inductive SendStep (K : BinaryPort) (i : ℕ) (P : BinaryPool) (c : Call) :
    SendAct → BinaryPool → Call → Prop
  | reject {result} (hc : c.pc = .start) (h : checkRequest K c.payload = .error result) :
      SendStep K i P c .begin (((P.enter).count .error).leave) (c.finish result)
  | accept (hc : c.pc = .start) (h : checkRequest K c.payload = .ok ()) :
      SendStep K i P c .begin P.enter { c with pc := .getConnection }
  | pop {conn rest} (hc : c.pc = .getConnection) (hp : P.pool = conn :: rest) :
      SendStep K i P c .lock { P with pool := rest }
        (c.exchange .first conn (.popped conn.stream.id))
  | wait (hc : c.pc = .getConnection) (hp : P.pool = []) :
      SendStep K i P c .lock P { c with pc := .acquire }
  | putBack {conn rewritten} (hc : c.pc = .returnConnection conn rewritten) :
      SendStep K i P c .lock ((({ P with pool := conn :: P.pool }).count .ok).leave)
        (c.finish (.ok rewritten))
  | acquired {s} (hc : c.pc = .acquire) (hs : P.semaphore.acquire = .ok s) :
      SendStep K i P c .acquire { P with semaphore := s } { c with pc := .connect }
  | unavailable (hc : c.pc = .acquire) :
      SendStep K i P c .acquire ((P.count .error).leave) (c.finish (.error .connectionUnavailable))
  | connected (hc : c.pc = .connect) :
      SendStep K i P c .connected { P with opened := P.opened + 1 }
        (c.exchange .first ⟨.connect P.opened⟩ (.opened P.opened))
  | reconnected {conn} (hc : c.pc = .reconnect conn) :
      SendStep K i P c .connected { P with opened := P.opened + 1 }
        (c.exchange .second ⟨.connect P.opened⟩ (.opened P.opened))
  | connectFailed {kind} (hc : c.pc = .connect) :
      SendStep K i P c (.ioError kind) (failWith P c (.io kind)).1 (failWith P c (.io kind)).2
  | reconnectFailed {conn kind} (hc : c.pc = .reconnect conn) :
      SendStep K i P c (.ioError kind) (failWith P c (.io kind)).1 (failWith P c (.io kind)).2
  | retry {conn io kind} (hc : c.pc = .exchange .first conn io) (hk : kind.retryable = true) :
      SendStep K i P c (.ioError kind) P
        { c with pc := .reconnect conn, trace := c.trace ++ [.failed conn.stream.id kind] }
  | exchangeFailed {attempt conn io kind} (hc : c.pc = .exchange attempt conn io) :
      SendStep K i P c (.ioError kind) ((P.count .error).release.leave)
        { c with
          pc := .finished (.error (.io kind))
          trace := c.trace ++ [.failed conn.stream.id kind] }
  | write {attempt conn left n} (hc : c.pc = .exchange attempt conn (.write left)) (h0 : 0 < n)
      (hn : n ≤ left.length) :
      SendStep K i P c (.write n) P { c with
        pc := .exchange attempt ⟨conn.stream.write i (left.take n)⟩ (.write (left.drop n))
        trace := c.trace ++ if left = frame c.payload then [.wrote conn.stream.id] else [] }
  | flush {attempt conn} (hc : c.pc = .exchange attempt conn (.write [])) :
      SendStep K i P c .flush P { c with pc := .exchange attempt conn (.readLength []) }
  | readLength {attempt conn buf n} (hc : c.pc = .exchange attempt conn (.readLength buf))
      (h : buf.length + n < 4) (hn : n ≤ conn.stream.outbox.length) :
      SendStep K i P c (.read n) P { c with
        pc := .exchange attempt ⟨conn.stream.skip n⟩
          (.readLength (buf ++ conn.stream.outbox.take n)) }
  | readMore {attempt conn io n len head buf} (hc : c.pc = .exchange attempt conn io)
      (hr : Reads conn.stream n io len head buf) (hne : buf.length ≠ len) :
      SendStep K i P c (.read n) P
        { c with pc := .exchange attempt ⟨conn.stream.skip n⟩ (.readResponse len head buf) }
  | replied {attempt conn io n len head buf rewritten} (hc : c.pc = .exchange attempt conn io)
      (hr : Reads conn.stream n io len head buf) (hlen : buf.length = len)
      (ha : answerFor K c.payload (buf.map Prod.snd) = .ok rewritten) :
      SendStep K i P c (.read n) P { c with
        pc := .returnConnection ⟨conn.stream.skip n⟩ rewritten
        trace := c.trace ++ [.reply conn.stream.id (head ++ buf)] }
  | unanswerable {attempt conn io n len head buf err} (hc : c.pc = .exchange attempt conn io)
      (hr : Reads conn.stream n io len head buf) (hlen : buf.length = len)
      (ha : answerFor K c.payload (buf.map Prod.snd) = .error err) :
      SendStep K i P c (.read n) P.release.leave { c with
        pc := .finished (.error err)
        trace := c.trace ++ [.reply conn.stream.id (head ++ buf)] }
  | upstreamExchange {attempt conn io act s} (hc : c.pc = .exchange attempt conn io)
      (hs : conn.stream.upstream act = some s) :
      SendStep K i P c (.upstream act) P { c with pc := .exchange attempt ⟨s⟩ io }
  | upstreamReconnect {conn act s} (hc : c.pc = .reconnect conn)
      (hs : conn.stream.upstream act = some s) :
      SendStep K i P c (.upstream act) P { c with pc := .reconnect ⟨s⟩ }
  | upstreamReturn {conn rewritten act s} (hc : c.pc = .returnConnection conn rewritten)
      (hs : conn.stream.upstream act = some s) :
      SendStep K i P c (.upstream act) P { c with pc := .returnConnection ⟨s⟩ rewritten }
  | cancelStart (hc : c.pc = .start) : SendStep K i P c .cancel P { c with pc := .cancelled }
  | cancelBefore (hc : c.pc = .getConnection ∨ c.pc = .acquire) :
      SendStep K i P c .cancel P.leave { c with pc := .cancelled }
  | cancelHolding (hc : c.pc.permits = 1) :
      SendStep K i P c .cancel P.release.leave { c with pc := .cancelled }

theorem sendStep_readOn {i n len : ℕ} {P P' : BinaryPool} {c c' : Call} {attempt : Attempt}
    {conn : PooledConnection} {io : Io} {head buf : List (Answer × UInt8)}
    (hc : c.pc = .exchange attempt conn io) (hr : Reads conn.stream n io len head buf)
    (h : readOn K P c attempt ⟨conn.stream.skip n⟩ len head buf = (P', c')) :
    SendStep K i P c (.read n) P' c' := by
  unfold readOn at h
  split_ifs at h with hlen
  · simp only [received] at h
    split at h
    · next ha =>
      cases h
      exact .replied hc hr hlen ha
    · next ha =>
      cases h
      have hs := SendStep.unanswerable (i := i) (P := P) hc hr hlen ha
      exact hs
  · cases h
    exact .readMore hc hr hlen

theorem sendStep_exchange {i : ℕ} {P P' : BinaryPool} {c c' : Call} {attempt : Attempt}
    {conn : PooledConnection} {io : Io} {a : SendAct} (hc : c.pc = .exchange attempt conn io)
    (h : exchangeStep K i P c attempt conn io a = some (P', c')) : SendStep K i P c a P' c' := by
  unfold exchangeStep at h
  split at h
  · obtain ⟨hn, h⟩ := Option.ite_none_right_eq_some.mp h
    cases h
    exact .write hc hn.1 hn.2
  · cases h
    exact .flush hc
  · obtain ⟨hn, h⟩ := Option.ite_none_right_eq_some.mp h
    have hlen : ∀ b : List (Answer × UInt8), (b ++ conn.stream.outbox.take _).length = _ :=
      fun b => by rw [List.length_append, List.length_take_of_le hn.2.2]
    dsimp only at h
    split_ifs at h with h4
    · rw [hlen] at h4
      exact sendStep_readOn hc (.length h4 hn.2.2) (Option.some.inj h)
    · cases h
      rw [hlen] at h4
      exact .readLength hc (by omega) hn.2.2
  · obtain ⟨hn, h⟩ := Option.ite_none_right_eq_some.mp h
    exact sendStep_readOn hc (.response hn.2.1 hn.2.2) (Option.some.inj h)
  · cases h

theorem sendStep_cancel {i : ℕ} {P P' : BinaryPool} {c c' : Call}
    (h : cancelCall P c = some (P', c')) : SendStep K i P c .cancel P' c' := by
  unfold cancelCall at h
  dsimp only at h
  split at h
  · next hc => cases h; exact .cancelStart hc
  · next hc => cases h; exact .cancelBefore (.inl hc)
  · next hc => cases h; exact .cancelBefore (.inr hc)
  · next hc => cases h; exact .cancelHolding (by rw [hc]; rfl)
  · next hc => cases h; exact .cancelHolding (by rw [hc]; rfl)
  · next hc => cases h; exact .cancelHolding (by rw [hc]; rfl)
  · next hc => cases h; exact .cancelHolding (by rw [hc]; rfl)
  · cases h
  · cases h

/-- **What a step of `send` can be.** -/
theorem sendStep_cases {i : ℕ} {P P' : BinaryPool} {c c' : Call} {a : SendAct}
    (h : sendStep K i P c a = some (P', c')) : SendStep K i P c a P' c' := by
  unfold sendStep at h
  cases a with
  | begin =>
    dsimp only at h
    split at h
    · next hc =>
      split at h
      · next hr => cases h; exact .reject hc hr
      · next hr => cases h; exact .accept hc hr
    · cases h
  | lock =>
    dsimp only at h
    split at h
    · next hc =>
      split at h
      · next hp => cases h; exact .pop hc hp
      · next hp => cases h; exact .wait hc hp
    · next hc => cases h; exact .putBack hc
    · cases h
  | acquire =>
    dsimp only at h
    split at h
    · next hc =>
      split at h
      · next hs => cases h; exact .acquired hc hs
      · cases h; exact .unavailable hc
      · cases h
    · cases h
  | connected =>
    dsimp only at h
    split at h
    · next hc => cases h; exact .connected hc
    · next hc => cases h; exact .reconnected hc
    · cases h
  | ioError kind =>
    dsimp only at h
    split at h
    · next hc => cases h; exact .connectFailed hc
    · next hc => cases h; exact .reconnectFailed hc
    · next hc =>
      simp only [exchangeError] at h
      split_ifs at h with hk
      · cases h
        rw [hk.1] at hc
        exact .retry hc hk.2
      · cases h
        exact .exchangeFailed hc
    · cases h
  | upstream act =>
    dsimp only at h
    split at h
    · next hc =>
      obtain ⟨s, hs, he⟩ := Option.map_eq_some_iff.mp h
      cases he
      exact .upstreamExchange hc hs
    · next hc =>
      obtain ⟨s, hs, he⟩ := Option.map_eq_some_iff.mp h
      cases he
      exact .upstreamReconnect hc hs
    · next hc =>
      obtain ⟨s, hs, he⟩ := Option.map_eq_some_iff.mp h
      cases he
      exact .upstreamReturn hc hs
    · cases h
  | cancel => exact sendStep_cancel h
  | write n | flush | read n =>
    dsimp only at h
    split at h
    · next hc => exact sendStep_exchange hc h
    · cases h

theorem sendStep_payload {i : ℕ} {P P' : BinaryPool} {c c' : Call} {a : SendAct}
    (h : sendStep K i P c a = some (P', c')) : c'.payload = c.payload := by
  cases sendStep_cases h <;> rfl

theorem checkRequest_fits {payload : Bytes} (h : checkRequest K payload = .ok ()) :
    payload.length ≤ maxMessageSizeBytes := by
  unfold checkRequest at h
  split at h
  · cases h
  · split_ifs at h with hlen
    exact not_lt.mp hlen

/-! ## Where the permits are -/

/-- The permits that are free, in the idle pool and with the call, and whether the call waits. -/
structure Ledger where
  free : ℕ
  idle : ℕ
  held : ℕ
  waiting : ℕ
  deriving DecidableEq

/-- The permits, seen from one call. -/
def ledger (P : BinaryPool) (c : Call) : Ledger :=
  ⟨P.semaphore.permits, P.pool.length, c.pc.permits, c.pc.waiting⟩

/-- The call puts its connection back into the idle pool. -/
def Call.returns (c : Call) (a : SendAct) : Prop :=
  ∃ conn rewritten, c.pc = .returnConnection conn rewritten ∧ a = .lock

/-- What a step can do to the ledger; the last case is the return of a connection. -/
inductive Moves : Ledger → Ledger → Prop
  | stay (l : Ledger) : Moves l l
  /-- The call finds the idle pool empty. -/
  | wait (a : ℕ) : Moves ⟨a, 0, 0, 0⟩ ⟨a, 0, 0, 1⟩
  /-- It takes an idle connection. -/
  | pop (a n : ℕ) : Moves ⟨a, n + 1, 0, 0⟩ ⟨a, n, 1, 0⟩
  /-- It gets a permit. -/
  | acquire (a n : ℕ) : Moves ⟨a + 1, n, 0, 1⟩ ⟨a, n, 1, 0⟩
  /-- It fails or is cancelled with a permit. -/
  | drop (a n : ℕ) : Moves ⟨a, n, 1, 0⟩ ⟨a + 1, n, 0, 0⟩
  /-- It stops waiting without a permit. -/
  | giveUp (a n : ℕ) : Moves ⟨a, n, 0, 1⟩ ⟨a, n, 0, 0⟩

/-- The connection goes back into the idle pool, with its permit. -/
def Pushes (l l' : Ledger) : Prop := ∃ a n, l = ⟨a, n, 1, 0⟩ ∧ l' = ⟨a, n + 1, 0, 0⟩

theorem Pc.waiting_of_permits {pc : Pc} (h : pc.permits = 1) : pc.waiting = 0 := by
  cases pc <;> first | rfl | cases h

theorem moves_drop {P P' : BinaryPool} {c c' : Call} (hc : c.pc.permits = 1)
    (hs : P'.semaphore = P.semaphore.release) (hp : P'.pool = P.pool) (hc' : c'.pc.permits = 0)
    (hw : c'.pc.waiting = 0) : Moves (ledger P c) (ledger P' c') := by
  unfold ledger
  rw [hc, Pc.waiting_of_permits hc, hs, hp, hc', hw]
  exact .drop _ _

theorem moves_stay {P P' : BinaryPool} {c c' : Call} (hs : P'.semaphore = P.semaphore)
    (hp : P'.pool = P.pool) (hh : c'.pc.permits = c.pc.permits)
    (hw : c'.pc.waiting = c.pc.waiting) : Moves (ledger P c) (ledger P' c') := by
  unfold ledger
  rw [hs, hp, hh, hw]
  exact .stay _

/-- **What a step of `send` does to the permits.** -/
theorem sendStep_moves {i : ℕ} {P P' : BinaryPool} {c c' : Call} {a : SendAct}
    (h : sendStep K i P c a = some (P', c')) :
    (¬ c.returns a ∧ Moves (ledger P c) (ledger P' c')) ∨
      (c.returns a ∧ Pushes (ledger P c) (ledger P' c')) := by
  have hno : ∀ {b}, b ≠ .lock → ¬ c.returns b := fun hb ⟨_, _, _, hr⟩ => hb hr
  have hget : c.pc = .getConnection → ¬ c.returns a := fun hc ⟨_, _, hr, _⟩ => by
    rw [hc] at hr
    cases hr
  cases sendStep_cases h with
  | pop hc hp =>
    refine .inl ⟨hget hc, ?_⟩
    unfold ledger
    rw [hc, hp]
    exact .pop _ _
  | wait hc hp =>
    refine .inl ⟨hget hc, ?_⟩
    unfold ledger
    rw [hc, hp]
    exact .wait _
  | putBack hc =>
    refine .inr ⟨⟨_, _, hc, rfl⟩, _, _, ?_, rfl⟩
    unfold ledger
    rw [hc]
    rfl
  | acquired hc hs =>
    refine .inl ⟨hno nofun, ?_⟩
    unfold ledger
    rw [hc, acquire_ok hs]
    exact .acquire _ _
  | unavailable hc =>
    refine .inl ⟨hno nofun, ?_⟩
    unfold ledger
    rw [hc]
    exact .giveUp _ _
  | cancelBefore hc =>
    refine .inl ⟨hno nofun, ?_⟩
    unfold ledger
    rcases hc with hc | hc
    · rw [hc]; exact .stay _
    · rw [hc]; exact .giveUp _ _
  | cancelHolding hc => exact .inl ⟨hno nofun, moves_drop hc rfl rfl rfl rfl⟩
  | connectFailed hc | reconnectFailed hc | exchangeFailed hc | unanswerable hc =>
    exact .inl ⟨hno nofun, moves_drop (by rw [hc]; rfl) rfl rfl rfl rfl⟩
  | reject hc | accept hc | connected hc | reconnected hc | retry hc | write hc | flush hc
  | readLength hc | readMore hc | replied hc | upstreamExchange hc | upstreamReconnect hc
  | upstreamReturn hc | cancelStart hc =>
    exact .inl ⟨hno nofun, moves_stay rfl rfl (by rw [hc]; rfl) (by rw [hc]; rfl)⟩

end CasperNodeProxy
