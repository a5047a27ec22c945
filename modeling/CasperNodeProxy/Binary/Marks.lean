import CasperNodeProxy.Binary.Pool

/-!
# The marks on bytes

Every byte on a stream is marked with the call that wrote it. No step of a call depends on the
marks, nor on the metrics: when the marks are renamed and requests are counted elsewhere, every
step stays possible and does the same.

* `TcpStream.rename`, `Pc.rename`, `Call.rename`: the marks are renamed.
* `BinaryPool.seen`: so are those of a pool, and requests and rejections are added to its metrics.
* **`sendStep_seen`**, `idleStep_seen`: the steps of a call and of the upstream go along.
-/

namespace CasperNodeProxy

open Wire Channel

/-! ## Renaming -/

/-- An answer with its writers renamed. -/
def Answer.rename (f : ℕ → ℕ) (a : Answer) : Answer := { a with writers := a.writers.map f }

/-- Bytes that came from the upstream. -/
def renameRead (f : ℕ → ℕ) (buf : List (Answer × UInt8)) : List (Answer × UInt8) :=
  buf.map fun p => (p.1.rename f, p.2)

/-- A stream with the marks of both queues renamed. -/
def TcpStream.rename (f : ℕ → ℕ) (s : TcpStream) : TcpStream :=
  { s with inbox := s.inbox.map fun p => (f p.1, p.2), outbox := renameRead f s.outbox }

/-- A connection with its stream renamed. -/
def PooledConnection.rename (f : ℕ → ℕ) (conn : PooledConnection) : PooledConnection :=
  ⟨conn.stream.rename f⟩

/-- What was read so far, renamed. -/
def Io.rename (f : ℕ → ℕ) : Io → Io
  | .write left => .write left
  | .readLength buf => .readLength (renameRead f buf)
  | .readResponse len head buf => .readResponse len (renameRead f head) (renameRead f buf)

/-- An await point with its stream renamed. -/
def Pc.rename (f : ℕ → ℕ) : Pc → Pc
  | .exchange attempt conn io => .exchange attempt (conn.rename f) (io.rename f)
  | .reconnect conn => .reconnect (conn.rename f)
  | .returnConnection conn rewritten => .returnConnection (conn.rename f) rewritten
  | pc => pc

/-- An event of a trace, renamed. -/
def StreamEvent.rename (f : ℕ → ℕ) : StreamEvent → StreamEvent
  | .reply stream bytes => .reply stream (renameRead f bytes)
  | event => event

/-- A call with its stream and its trace renamed. -/
def Call.rename (f : ℕ → ℕ) (c : Call) : Call :=
  { c with pc := c.pc.rename f, trace := c.trace.map (StreamEvent.rename f) }

/-- A pool with other marks, over which `requests` messages were received and `limited` rejected. -/
def BinaryPool.seen (f : ℕ → ℕ) (requests limited : ℕ) (P : BinaryPool) : BinaryPool :=
  { P with
    pool := P.pool.map (PooledConnection.rename f)
    metrics := { P.metrics with
      requests := P.metrics.requests + requests
      rateLimited := P.metrics.rateLimited + limited } }

section Read

variable (f : ℕ → ℕ) (b c : List (Answer × UInt8)) (n : ℕ)

@[simp] theorem renameRead_snd : (renameRead f b).map Prod.snd = b.map Prod.snd := by
  simp [renameRead, Function.comp_def]

@[simp] theorem renameRead_length : (renameRead f b).length = b.length := List.length_map _

@[simp] theorem renameRead_append : renameRead f (b ++ c) = renameRead f b ++ renameRead f c :=
  List.map_append

@[simp] theorem renameRead_take : renameRead f (b.take n) = (renameRead f b).take n :=
  List.map_take

@[simp] theorem renameRead_nil : renameRead f [] = [] := rfl

end Read

/-! ## Streams -/

namespace TcpStream

variable (f : ℕ → ℕ) (s : TcpStream)

@[simp] theorem rename_id : (s.rename f).id = s.id := rfl

@[simp] theorem rename_outbox : (s.rename f).outbox = renameRead f s.outbox := rfl

@[simp] theorem rename_closed : (s.rename f).closed = s.closed := rfl

@[simp] theorem rename_connect (id : ℕ) : (connect id).rename f = connect id := rfl

theorem rename_write (i : ℕ) (b : Bytes) : (s.write i b).rename f = (s.rename f).write (f i) b := by
  simp [rename, write, mark, Function.comp_def]

theorem rename_skip (n : ℕ) : (s.skip n).rename f = (s.rename f).skip n := by
  simp [rename, skip, renameRead, List.map_drop]

theorem rename_answer (reply : Bytes) :
    (s.rename f).answer reply = (s.answer reply).map (rename f) := by
  have hbytes : (s.rename f).inbox.map Prod.snd = s.inbox.map Prod.snd := by
    simp [rename, Function.comp_def]
  have hmark : ∀ (a : Answer) (b : Bytes), renameRead f (mark a b) = mark (a.rename f) b := by
    intro a b
    simp [renameRead, mark, Function.comp_def]
  simp only [answer, hbytes, rename_closed]
  split
  · simp [rename, hmark, Answer.rename, List.map_take, List.map_drop, Function.comp_def]
  · rfl

theorem rename_upstream (act : UpstreamAct) :
    (s.rename f).upstream act = (s.upstream act).map (rename f) := by
  cases act with
  | answer reply => exact rename_answer f s reply
  | close kept => simp [upstream, close, rename]

end TcpStream

/-! ## Calls -/

section Pool

variable (f : ℕ → ℕ) (r l : ℕ) (P : BinaryPool)

theorem seen_leave : (P.seen f r l).leave = P.leave.seen f r l := rfl

theorem seen_release : (P.seen f r l).release = P.release.seen f r l := rfl

theorem seen_count {o : Outcome} (ho : o ≠ .rateLimited) :
    (P.seen f r l).count o = (P.count o).seen f r l := by
  cases o with
  | ok | error => rfl
  | rateLimited => exact absurd rfl ho

end Pool

/-- What a step leads to, with other marks. -/
def seenStep (f : ℕ → ℕ) (r l : ℕ) (x : BinaryPool × Call) : BinaryPool × Call :=
  (x.1.seen f r l, x.2.rename f)

variable (K : BinaryPort) (f : ℕ → ℕ) (r l : ℕ)

theorem received_seen (P : BinaryPool) (c : Call) (conn : PooledConnection)
    (head buf : List (Answer × UInt8)) :
    received K (P.seen f r l) (c.rename f) (conn.rename f) (renameRead f head) (renameRead f buf) =
      seenStep f r l (received K P c conn head buf) := by
  simp only [received, renameRead_snd, Call.rename]
  split
  · simp [seenStep, Call.rename, Pc.rename, StreamEvent.rename, PooledConnection.rename]
  · simp [seenStep, Call.rename, Call.finish, Pc.rename, StreamEvent.rename,
      PooledConnection.rename, seen_release, seen_leave]

theorem readOn_seen (P : BinaryPool) (c : Call) (attempt : Attempt) (conn : PooledConnection)
    (len : ℕ) (head buf : List (Answer × UInt8)) :
    readOn K (P.seen f r l) (c.rename f) attempt (conn.rename f) len (renameRead f head)
        (renameRead f buf) =
      seenStep f r l (readOn K P c attempt conn len head buf) := by
  simp only [readOn, renameRead_length]
  split
  · exact received_seen K f r l P c conn head buf
  · rfl

theorem exchangeStep_seen (i : ℕ) (P : BinaryPool) (c : Call) (attempt : Attempt)
    (conn : PooledConnection) (io : Io) (a : SendAct) :
    exchangeStep K (f i) (P.seen f r l) (c.rename f) attempt (conn.rename f) (io.rename f) a =
      (exchangeStep K i P c attempt conn io a).map (seenStep f r l) := by
  have hskip : ∀ n, (⟨(conn.rename f).stream.skip n⟩ : PooledConnection) =
      PooledConnection.rename f ⟨conn.stream.skip n⟩ := fun n =>
    congrArg PooledConnection.mk (conn.stream.rename_skip f n).symm
  have hout : (conn.rename f).stream.outbox = renameRead f conn.stream.outbox := rfl
  cases io with
  | write left =>
    cases a with
    | write n =>
      have htrace : (if left = frame (c.rename f).payload
          then [StreamEvent.wrote (conn.rename f).stream.id] else []) =
          (if left = frame c.payload then [StreamEvent.wrote conn.stream.id] else []).map
            (StreamEvent.rename f) := by
        change (if left = frame c.payload then _ else _) = _
        split <;> rfl
      simp only [Io.rename, exchangeStep, htrace]
      split
      · simp [seenStep, Call.rename, Pc.rename, Io.rename, PooledConnection.rename,
          TcpStream.rename_write]
      · rfl
    | flush => cases left <;> rfl
    | _ => rfl
  | readLength buf =>
    cases a with
    | read n =>
      simp only [Io.rename, exchangeStep, hout, renameRead_length, ← renameRead_take,
        ← renameRead_append, renameRead_snd, hskip]
      split
      · split
        · exact congrArg some (readOn_seen K f r l P c attempt _ _ _ [])
        · rfl
      · rfl
    | _ => rfl
  | readResponse len head buf =>
    cases a with
    | read n =>
      simp only [Io.rename, exchangeStep, hout, renameRead_length, ← renameRead_take,
        ← renameRead_append, hskip]
      split
      · exact congrArg some (readOn_seen K f r l P c attempt _ _ _ _)
      · rfl
    | _ => rfl

theorem exchangeError_seen (P : BinaryPool) (c : Call) (attempt : Attempt) (conn : PooledConnection)
    (kind : ErrorKind) :
    exchangeError (P.seen f r l) (c.rename f) attempt (conn.rename f) kind =
      seenStep f r l (exchangeError P c attempt conn kind) := by
  simp only [exchangeError]
  split
  · simp [seenStep, Call.rename, Pc.rename, StreamEvent.rename, PooledConnection.rename]
  · simp [failWith, seenStep, Call.rename, Call.finish, Pc.rename, StreamEvent.rename,
      PooledConnection.rename, seen_release, seen_leave, seen_count]

theorem cancelCall_seen (P : BinaryPool) (c : Call) :
    cancelCall (P.seen f r l) (c.rename f) = (cancelCall P c).map (seenStep f r l) := by
  obtain ⟨payload, pc, trace⟩ := c
  cases pc <;> rfl

/-- **No step of a call depends on the marks**, nor on what other metrics have counted. -/
theorem sendStep_seen (i : ℕ) (P : BinaryPool) (c : Call) (a : SendAct) :
    sendStep K (f i) (P.seen f r l) (c.rename f) a =
      (sendStep K i P c a).map (seenStep f r l) := by
  obtain ⟨payload, pc, trace⟩ := c
  cases a with
  | begin =>
    cases pc with
    | start =>
      simp only [sendStep, Call.rename, Pc.rename]
      split <;> rfl
    | _ => rfl
  | lock =>
    cases pc with
    | getConnection =>
      cases hp : P.pool with
      | nil => simp [sendStep, Call.rename, Pc.rename, BinaryPool.seen, hp, seenStep]
      | cons conn rest =>
        simp [sendStep, Call.rename, Pc.rename, BinaryPool.seen, hp, seenStep, Call.exchange,
          PooledConnection.rename, StreamEvent.rename, Io.rename]
    | _ => rfl
  | acquire =>
    cases pc with
    | acquire =>
      simp only [sendStep, Call.rename, Pc.rename]
      cases hs : P.semaphore.acquire with
      | _ => simp [BinaryPool.seen, hs, seenStep, Call.rename, Pc.rename, Call.finish,
          BinaryPool.count, BinaryPool.leave, BinaryMetrics.incrementBinaryResponse]
    | _ => rfl
  | connected =>
    cases pc with
    | connect | reconnect =>
      simp [sendStep, Call.rename, Pc.rename, BinaryPool.seen, seenStep, Call.exchange,
        PooledConnection.rename, StreamEvent.rename, Io.rename]
    | _ => rfl
  | ioError kind =>
    cases pc with
    | exchange attempt conn io =>
      exact congrArg some (exchangeError_seen f r l P _ attempt conn kind)
    | _ => rfl
  | upstream act =>
    cases pc with
    | exchange | reconnect | returnConnection =>
      simp [sendStep, Call.rename, Pc.rename, PooledConnection.rename, TcpStream.rename_upstream,
        Option.map_map, Function.comp_def, seenStep]
    | _ => rfl
  | cancel => exact cancelCall_seen f r l P _
  | write n | flush | read n =>
    cases pc with
    | exchange attempt conn io =>
      exact exchangeStep_seen K f r l i P ⟨payload, _, trace⟩ attempt conn io _
    | _ => rfl

theorem idleStep_seen (P : BinaryPool) (a : IdleAct) :
    idleStep (P.seen f r l) a = (idleStep P a).map (BinaryPool.seen f r l) := by
  have hget : (P.seen f r l).pool[a.index]? = (P.pool[a.index]?).map (PooledConnection.rename f) :=
    List.getElem?_map
  simp only [idleStep, hget]
  cases P.pool[a.index]? with
  | none => rfl
  | some conn =>
    simp [PooledConnection.rename, TcpStream.rename_upstream, Option.map_map, Function.comp_def,
      BinaryPool.seen, List.map_set]

end CasperNodeProxy
