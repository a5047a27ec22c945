import CasperNodeProxy.Binary.Pool
import CasperNodeProxy.Lib.Gcra

/-!
# The binary websocket

`handle_binary_socket` as a state machine: it takes one message after another, asks the limiter of
its connection, and sends the message through the pool, to the end, before it takes the next one.
Any number of sockets run over one pool.

* `Governor`, `Governor.Lawful`: the rate limiter, which is not part of the repository, as a
  parameter; `gcraGovernor`: an instance.
* `perMinuteToPeriod`, `binaryConnectionRateLimiter`: the limiter of a connection.
* `Socket`, `socketStep`, `socketProgram`: the loop, and all loops of one pool, interleaved.
* **`socketStep_cases`**: everything a step of the loop can be.
-/

namespace CasperNodeProxy

open Wire

/-! ## `governor` as a parameter -/

/-- What is used of `governor`. -/
structure Governor where
  State : Type
  NotUntil : Type
  /-- `RateLimiter::direct`. -/
  direct : Gcra.Quota → State
  /-- `check`, at a time of the clock in nanoseconds. -/
  check : State → ℕ → Except NotUntil Unit × State
  /-- `wait_time_from`, in nanoseconds. -/
  waitTimeFrom : NotUntil → ℕ → ℕ

namespace Governor

variable (G : Governor)

/-- A limiter after checks at these times. -/
def afterChecks (q : Gcra.Quota) (times : List ℕ) : G.State :=
  times.foldl (fun s t => (G.check s t).2) (G.direct q)

/-- Documented behaviour of `governor`: it admits by the generic cell rate algorithm, and
`wait_time_from` is the time until the next cell. -/
structure Lawful : Prop where
  admits : ∀ q times t, (G.check (G.afterChecks q times) t).1 = .ok () ↔
    Gcra.earliest q (Gcra.after q 0 times) ≤ t
  waits : ∀ q times t notUntil now, (G.check (G.afterChecks q times) t).1 = .error notUntil →
    G.waitTimeFrom notUntil now = Gcra.wait q (Gcra.after q 0 times) now

theorem afterChecks_snoc (q : Gcra.Quota) (times : List ℕ) (t : ℕ) :
    G.afterChecks q (times ++ [t]) = (G.check (G.afterChecks q times) t).2 := by
  rw [afterChecks, List.foldl_append]
  rfl

end Governor

/-- The generic cell rate algorithm as a limiter. -/
def gcraGovernor : Governor where
  State := Gcra.Quota × ℕ
  NotUntil := ℕ
  direct q := (q, 0)
  check s t :=
    (if Gcra.earliest s.1 s.2 ≤ t then .ok () else .error (Gcra.earliest s.1 s.2),
      (s.1, Gcra.arrive s.1 s.2 t))
  waitTimeFrom earliest now := earliest - now

theorem gcraGovernor_afterChecks (q : Gcra.Quota) (times : List ℕ) :
    gcraGovernor.afterChecks q times = (q, Gcra.after q 0 times) := by
  induction times using List.reverseRecOn with
  | nil => rfl
  | append_singleton times t ih =>
    rw [Governor.afterChecks_snoc, ih, Gcra.after_snoc]
    rfl

theorem gcraGovernor_lawful : gcraGovernor.Lawful := by
  refine ⟨fun q times t => ?_, fun q times t notUntil now h => ?_⟩
  · rw [gcraGovernor_afterChecks]
    simp only [gcraGovernor]
    split_ifs with ht
    · exact iff_of_true rfl ht
    · exact iff_of_false nofun ht
  · rw [gcraGovernor_afterChecks] at h
    simp only [gcraGovernor] at h
    split_ifs at h
    cases h
    rfl

/-! ## The limiter of a connection -/

/-- The nanoseconds of a millisecond. -/
def nanosPerMilli : ℕ := 1000000

/-- The nanoseconds of a second. -/
def nanosPerSec : ℕ := 1000000000

/-- `per_minute_to_period`, in nanoseconds. -/
def perMinuteToPeriod (perMinute : ℕ) : ℕ :=
  if perMinute = 0 then 60 * nanosPerSec
  else
    let millis := 60000 / perMinute
    max millis 1 * nanosPerMilli

/-- The quota of a limiter; a burst of 0 is raised to 1. -/
def binaryQuota (perMinute burstSize : ℕ) : Gcra.Quota :=
  ⟨perMinuteToPeriod perMinute, max burstSize 1⟩

/-- `binary_connection_rate_limiter`. -/
def binaryConnectionRateLimiter (G : Governor) (perMinute burstSize : ℕ) : G.State :=
  G.direct (binaryQuota perMinute burstSize)

theorem binaryQuota_pos (perMinute burstSize : ℕ) :
    0 < (binaryQuota perMinute burstSize).period ∧ 0 < (binaryQuota perMinute burstSize).burst := by
  have hmillis : 0 < nanosPerMilli := by decide
  have hsecs : 0 < 60 * nanosPerSec := by decide
  refine ⟨?_, lt_of_lt_of_le Nat.one_pos (le_max_right _ _)⟩
  unfold binaryQuota perMinuteToPeriod
  dsimp only
  split_ifs
  · exact hsecs
  · exact Nat.mul_pos (lt_of_lt_of_le Nat.one_pos (le_max_right _ _)) hmillis

/-! ## State -/

/-- `increment_binary_requests`. -/
def BinaryPool.request (P : BinaryPool) : BinaryPool :=
  { P with metrics := { P.metrics with requests := P.metrics.requests + 1 } }

/-- A frame that the handler sends to its client. -/
inductive Reply
  /-- The text `{"error": "rate limit exceeded", "retry_after_secs": …}`. -/
  | rateLimited (retryAfterSecs : ℕ)
  | binary (response : Bytes)
  /-- The text `{"error": …}`. -/
  | error (err : BinaryError)
  deriving DecidableEq

/-- The frame for what `pool.send` returned. -/
def replyOf : Except BinaryError Bytes → Reply
  | .ok response => .binary response
  | .error err => .error err

/-- The await points of the loop. -/
inductive SocketPc
  /-- At `receiver.next()`. -/
  | next
  /-- At `sender.send` of a rate-limit text. -/
  | limited
  /-- At `pool.send`. -/
  | sending (call : Call)
  /-- At `sender.send` of what `pool.send` returned, which was a response or not. -/
  | replying (isResponse : Bool)
  | closed
  deriving DecidableEq

/-- The limiter of a connection and the await point of its loop; the rest are records for the
proofs. -/
structure Socket (G : Governor) where
  pc : SocketPc
  limiter : G.State
  /-- The binary messages that were taken. -/
  messages : List Bytes
  /-- When the limiter was asked. -/
  checks : List ℕ
  /-- When a message was passed on to the pool. -/
  passed : List ℕ
  /-- The replies that the handler has begun to send, each with the message it was made for. -/
  replies : List (Bytes × Reply)

/-- What can happen to a socket. -/
inductive SocketAct
  /-- A binary message is taken; the clock is read for the check, and for the wait. -/
  | message (payload : Bytes) (checkedAt now : ℕ)
  /-- A text, ping or pong frame is taken. -/
  | other
  /-- A close frame, an error or the end of the stream. -/
  | close
  | send (act : SendAct)
  /-- `sender.send` returns; whether it has delivered the frame. -/
  | sent (delivered : Bool)

variable {G : Governor}

namespace Socket

/-- A socket that has taken no message yet. -/
def new (limiter : G.State) : Socket G := ⟨.next, limiter, [], [], [], []⟩

/-- A message is taken off the stream, and checked. -/
def take (s : Socket G) (payload : Bytes) (checkedAt : ℕ) : Socket G :=
  { s with
    limiter := (G.check s.limiter checkedAt).2
    messages := s.messages ++ [payload]
    checks := s.checks ++ [checkedAt] }

/-- The handler begins to send a reply. -/
def reply (s : Socket G) (payload : Bytes) (r : Reply) : Socket G :=
  { s with replies := s.replies ++ [(payload, r)] }

/-- The handler goes on after a step of its call. -/
def afterSend (s : Socket G) (call : Call) : Socket G :=
  match call.pc with
  | .finished result =>
    { s.reply call.payload (replyOf result) with pc := .replying result.isOk }
  | _ => { s with pc := .sending call }

end Socket

/-! ## Steps -/

variable (K : BinaryPort)

/-- One step of `handle_binary_socket`. The handler awaits each call of `send` to its end. -/
def socketStep (i : ℕ) (P : BinaryPool) (s : Socket G) : SocketAct → Option (BinaryPool × Socket G)
  | .message payload checkedAt now =>
    match s.pc with
    | .next =>
      match (G.check s.limiter checkedAt).1 with
      | .error notUntil =>
        let wait := G.waitTimeFrom notUntil now
        some (P.request, { (s.take payload checkedAt).reply payload
          (.rateLimited (wait / nanosPerSec)) with pc := .limited })
      | .ok () => some (P.request, { s.take payload checkedAt with
          pc := .sending (.new payload)
          passed := s.passed ++ [checkedAt] })
    | _ => none
  | .other =>
    match s.pc with
    | .next => some (P, s)
    | _ => none
  | .close =>
    match s.pc with
    | .next => some (P, { s with pc := .closed })
    | _ => none
  | .send .cancel => none
  | .send act =>
    match s.pc with
    | .sending call => (sendStep K i P call act).map fun r => (r.1, s.afterSend r.2)
    | _ => none
  | .sent delivered =>
    match s.pc with
    | .limited => some (P.count .rateLimited, { s with pc := .next })
    | .replying isResponse =>
      some (P, { s with pc := if isResponse && !delivered then .closed else .next })
    | _ => none

variable (G) in
/-- All binary websockets of one network; each is opened with a limiter of its own. -/
def socketProgram (perMinute burstSize : ℕ) :
    Tasks.Program BinaryPool (Socket G) SocketAct IdleAct Unit where
  task := socketStep K
  env := idleStep
  spawn _ := .new (binaryConnectionRateLimiter G perMinute burstSize)

variable (G) in
/-- A pool and all sockets over it. -/
abbrev SocketConf := Tasks.Conf BinaryPool (Socket G)

/-- A step of a socket or of an idle connection, or a new socket. -/
abbrev SocketsAct := Tasks.Act SocketAct IdleAct Unit

variable (G) in
/-- A new pool, and no socket yet. -/
def socketInit (maxConnections : ℕ) : SocketConf G := ⟨.new maxConnections, []⟩

variable (G) in
/-- A step of the sockets over one pool. -/
abbrev socketsStep (perMinute burstSize : ℕ) : SocketConf G → SocketsAct → Option (SocketConf G) :=
  (socketProgram G K perMinute burstSize).step

/-! ## What a step can be -/

variable {K}

/-- The steps of the loop. -/
inductive SocketStep (K : BinaryPort) (i : ℕ) (P : BinaryPool) (s : Socket G) :
    SocketAct → BinaryPool → Socket G → Prop
  | limit {payload checkedAt now notUntil} (hpc : s.pc = .next)
      (hc : (G.check s.limiter checkedAt).1 = .error notUntil) :
      SocketStep K i P s (.message payload checkedAt now) P.request
        { (s.take payload checkedAt).reply payload
          (.rateLimited (G.waitTimeFrom notUntil now / nanosPerSec)) with pc := .limited }
  | pass {payload checkedAt now} (hpc : s.pc = .next)
      (hc : (G.check s.limiter checkedAt).1 = .ok ()) :
      SocketStep K i P s (.message payload checkedAt now) P.request
        { s.take payload checkedAt with
          pc := .sending (.new payload)
          passed := s.passed ++ [checkedAt] }
  | other (hpc : s.pc = .next) : SocketStep K i P s .other P s
  | close (hpc : s.pc = .next) : SocketStep K i P s .close P { s with pc := .closed }
  | send {call call' P' act} (hpc : s.pc = .sending call) (ha : act ≠ .cancel)
      (hs : sendStep K i P call act = some (P', call'))
      (hf : ∀ result, call'.pc ≠ .finished result) :
      SocketStep K i P s (.send act) P' { s with pc := .sending call' }
  | finish {call call' P' act result} (hpc : s.pc = .sending call) (ha : act ≠ .cancel)
      (hs : sendStep K i P call act = some (P', call')) (hf : call'.pc = .finished result) :
      SocketStep K i P s (.send act) P'
        { s.reply call'.payload (replyOf result) with pc := .replying result.isOk }
  | counted {delivered} (hpc : s.pc = .limited) :
      SocketStep K i P s (.sent delivered) (P.count .rateLimited) { s with pc := .next }
  | replied {isResponse delivered} (hpc : s.pc = .replying isResponse) :
      SocketStep K i P s (.sent delivered) P
        { s with pc := if isResponse && !delivered then .closed else .next }

theorem socketStep_send {i : ℕ} {P P' : BinaryPool} {s s' : Socket G} {act : SendAct}
    (h : socketStep K i P s (.send act) = some (P', s')) :
    SocketStep K i P s (.send act) P' s' := by
  have hne : act ≠ .cancel := by
    rintro rfl
    cases h
  have hstep : ∃ call, s.pc = .sending call ∧
      (sendStep K i P call act).map (fun r => (r.1, s.afterSend r.2)) = some (P', s') := by
    unfold socketStep at h
    cases act with
    | cancel => exact absurd rfl hne
    | _ =>
      dsimp only at h
      split at h
      · next call hpc => exact ⟨call, hpc, h⟩
      · cases h
  obtain ⟨call, hpc, h⟩ := hstep
  obtain ⟨⟨P₁, call'⟩, hs, he⟩ := Option.map_eq_some_iff.mp h
  cases he
  unfold Socket.afterSend
  split
  · next result hf => exact .finish hpc hne hs hf
  · next hf => exact .send hpc hne hs hf

/-- **What a step of the loop can be.** -/
theorem socketStep_cases {i : ℕ} {P P' : BinaryPool} {s s' : Socket G} {a : SocketAct}
    (h : socketStep K i P s a = some (P', s')) : SocketStep K i P s a P' s' := by
  cases a with
  | send act => exact socketStep_send h
  | message payload checkedAt now =>
    simp only [socketStep] at h
    split at h
    · next hpc =>
      split at h
      · next hc =>
        cases h
        exact .limit hpc hc
      · next hc =>
        cases h
        exact .pass hpc hc
    · cases h
  | other =>
    simp only [socketStep] at h
    split at h
    · next hpc =>
      cases h
      exact .other hpc
    · cases h
  | close =>
    simp only [socketStep] at h
    split at h
    · next hpc =>
      cases h
      exact .close hpc
    · cases h
  | sent delivered =>
    simp only [socketStep] at h
    split at h
    · next hpc =>
      cases h
      exact .counted hpc
    · next hpc =>
      cases h
      exact .replied hpc
    · cases h

end CasperNodeProxy
