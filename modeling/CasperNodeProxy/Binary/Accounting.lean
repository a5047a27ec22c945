import CasperNodeProxy.Binary.Socket
import CasperNodeProxy.Binary.WireFormat

/-!
# Counting messages and replies

Every exit of the loop counts one outcome and begins to send one reply.

* `Underway`, **`sendStep_counts`**: what a step of a call does to the metrics.
* `Answered`: the replies of a socket, next to the messages that it has taken.
* `Socket.uncounted`, `Socket.inProgress`: what a socket adds to the balance of the metrics.
* **`binary_accounted`**: the balance of the metrics and the order of the replies, in every
  reachable state.
-/

namespace CasperNodeProxy

open Wire Run

variable {G : Governor} {K : BinaryPort}

/-! ## One call -/

/-- The call has not begun, or it has passed its checks and goes on. -/
def Underway (K : BinaryPort) (call : Call) : Prop :=
  call.pc = .start ∨ call.pc.inProgress = 1 ∧ checkRequest K call.payload = .ok ()

/-- All outcomes that were counted. -/
def BinaryMetrics.counted (m : BinaryMetrics) : ℕ := m.ok + m.error + m.rateLimited

@[simp] theorem counted_incrementBinaryResponse (m : BinaryMetrics) (o : Outcome) :
    (m.incrementBinaryResponse o).counted = m.counted + 1 := by
  cases o <;> simp only [BinaryMetrics.incrementBinaryResponse, BinaryMetrics.counted] <;> omega

@[simp] theorem requests_incrementBinaryResponse (m : BinaryMetrics) (o : Outcome) :
    (m.incrementBinaryResponse o).requests = m.requests := by
  cases o <;> rfl

/-- An error response to a payload of at most the maximal size can be encoded. -/
def ErrorsEncodeUpToMax (K : BinaryPort) : Prop :=
  ∀ payload : Bytes, payload.length ≤ maxMessageSizeBytes → ErrorsEncode K payload

/-- A reply of the upstream is always answered. -/
theorem answerFor_ok (hE : ErrorsEncodeUpToMax K) {payload response : Bytes} {err : BinaryError}
    (h : checkRequest K payload = .ok ()) : answerFor K payload response ≠ .error err := by
  unfold answerFor
  split
  · nofun
  · next e he =>
    obtain ⟨bytes, hb⟩ := hE payload (checkRequest_fits h) e.errorCode
    unfold buildErrorResponse
    rw [hb]
    nofun

/-- The metrics after a step of a call: an outcome is counted exactly when the call ends. -/
structure Counts (K : BinaryPort) (P P' : BinaryPool) (call call' : Call) : Prop where
  requests : P'.metrics.requests = P.metrics.requests
  inflight : P'.metrics.inflight + call.pc.inProgress = P.metrics.inflight + call'.pc.inProgress
  outcome : (Underway K call' ∧ P'.metrics.counted = P.metrics.counted) ∨
    ∃ result, call'.pc = .finished result ∧ P'.metrics.counted = P.metrics.counted + 1

theorem Underway.checked {call : Call} (h : Underway K call) (hpc : call.pc ≠ .start) :
    checkRequest K call.payload = .ok () := (h.resolve_left hpc).2

theorem Counts.goesOn {P P' : BinaryPool} {call call' : Call} (h : Counts K P P' call call')
    (hf : ∀ result, call'.pc ≠ .finished result) :
    Underway K call' ∧ P'.metrics.counted = P.metrics.counted := by
  rcases h.outcome with hsame | ⟨result, hfin, -⟩
  · exact hsame
  · exact absurd hfin (hf result)

theorem Counts.ends {P P' : BinaryPool} {call call' : Call} (h : Counts K P P' call call')
    {result : Except BinaryError Bytes} (hf : call'.pc = .finished result) :
    P'.metrics.counted = P.metrics.counted + 1 := by
  rcases h.outcome with ⟨hstart | ⟨hprog, -⟩, -⟩ | ⟨result, -, hone⟩
  · rw [hf] at hstart
    cases hstart
  · rw [hf] at hprog
    cases hprog
  · exact hone

theorem counts_goOn {P P' : BinaryPool} {call call' : Call} (hu : Underway K call)
    (hpc : call.pc ≠ .start) (hm : P'.metrics = P.metrics) (hp : call'.payload = call.payload)
    (hprog : call'.pc.inProgress = 1) : Counts K P P' call call' := by
  obtain ⟨hin, hok⟩ := hu.resolve_left hpc
  refine ⟨by rw [hm], by rw [hm, hin, hprog], .inl ⟨.inr ⟨hprog, hp ▸ hok⟩, by rw [hm]⟩⟩

theorem counts_end {P P' : BinaryPool} {call call' : Call} {o : Outcome}
    {result : Except BinaryError Bytes} (hu : Underway K call) (hpc : call.pc ≠ .start)
    (hm : P'.metrics = ((P.count o).leave).metrics) (hf : call'.pc = .finished result) :
    Counts K P P' call call' := by
  obtain ⟨hin, -⟩ := hu.resolve_left hpc
  refine ⟨?_, ?_, .inr ⟨result, hf, ?_⟩⟩
  · rw [hm]
    cases o <;> rfl
  · rw [hm, hin, hf]
    cases o <;> simp [BinaryPool.count, BinaryPool.leave, BinaryMetrics.incrementBinaryResponse,
      Pc.inProgress]
  · rw [hm, ← counted_incrementBinaryResponse P.metrics o]
    rfl

/-- **What a step of a call counts**, when the call is not dropped. -/
theorem sendStep_counts (hE : ErrorsEncodeUpToMax K) {i : ℕ} {P P' : BinaryPool} {call call' : Call}
    {a : SendAct} (hu : Underway K call) (ha : a ≠ .cancel)
    (h : sendStep K i P call a = some (P', call')) : Counts K P P' call call' := by
  cases sendStep_cases h with
  | cancelStart | cancelBefore | cancelHolding => exact absurd rfl ha
  | @reject result hc hr =>
    refine ⟨rfl, ?_, .inr ⟨result, rfl, ?_⟩⟩
    · rw [hc]
      simp [BinaryPool.enter, BinaryPool.count, BinaryPool.leave,
        BinaryMetrics.incrementBinaryResponse, Call.finish, Pc.inProgress]
    · exact counted_incrementBinaryResponse (P.enter).metrics .error
  | accept hc hok =>
    refine ⟨rfl, ?_, .inl ⟨.inr ⟨rfl, hok⟩, rfl⟩⟩
    rw [hc]
    simp [BinaryPool.enter, Pc.inProgress]
  | unanswerable hc hr hlen hans =>
    exact absurd hans (answerFor_ok hE (hu.checked (by rw [hc]; nofun)))
  | putBack hc => exact counts_end (o := .ok) hu (by rw [hc]; nofun) rfl rfl
  | unavailable hc => exact counts_end (o := .error) hu (by rw [hc]; nofun) rfl rfl
  | connectFailed hc => exact counts_end (o := .error) hu (by rw [hc]; nofun) rfl rfl
  | reconnectFailed hc => exact counts_end (o := .error) hu (by rw [hc]; nofun) rfl rfl
  | exchangeFailed hc => exact counts_end (o := .error) hu (by rw [hc]; nofun) rfl rfl
  | pop hc | wait hc | acquired hc | connected hc | reconnected hc | retry hc | write hc | flush hc
  | readLength hc | readMore hc | replied hc | upstreamExchange hc | upstreamReconnect hc
  | upstreamReturn hc =>
    exact counts_goOn hu (by rw [hc]; nofun) rfl rfl rfl

/-! ## One socket -/

/-- The messages that the replies were made for are the messages that were taken, in order; while a
call is going on, its message is the one that has no reply. -/
def Answered (K : BinaryPort) (s : Socket G) : Prop :=
  match s.pc with
  | .sending call =>
    Underway K call ∧ s.messages = s.replies.map Prod.fst ++ [call.payload]
  | _ => s.messages = s.replies.map Prod.fst

namespace Socket

/-- The messages whose outcome has not been counted. -/
def uncounted (s : Socket G) : ℕ :=
  match s.pc with
  | .limited | .sending _ => 1
  | _ => 0

/-- The calls of `send` in progress. -/
def inProgress (s : Socket G) : ℕ :=
  match s.pc with
  | .sending call => call.pc.inProgress
  | _ => 0

end Socket

theorem Answered.idle {s : Socket G} (h : Answered K s) (hpc : ∀ call, s.pc ≠ .sending call) :
    s.messages = s.replies.map Prod.fst := by
  unfold Answered at h
  split at h
  · next call hc => exact absurd hc (hpc call)
  · exact h

theorem Answered.sending {s : Socket G} (h : Answered K s) {call : Call}
    (hpc : s.pc = .sending call) :
    Underway K call ∧ s.messages = s.replies.map Prod.fst ++ [call.payload] := by
  unfold Answered at h
  rw [hpc] at h
  exact h

theorem answered_of_idle {s : Socket G} (hpc : ∀ call, s.pc ≠ .sending call)
    (h : s.messages = s.replies.map Prod.fst) : Answered K s := by
  unfold Answered
  split
  · next call hc => exact absurd hc (hpc call)
  · exact h

/-- What a step of a socket does to the metrics, and to what the socket adds to their balance. -/
structure Balanced (P P' : BinaryPool) (s s' : Socket G) : Prop where
  received : P'.metrics.requests + s.messages.length = P.metrics.requests + s'.messages.length
  requests : (P'.metrics.requests - P'.metrics.counted : ℤ) + s.uncounted =
    P.metrics.requests - P.metrics.counted + s'.uncounted
  inflight : P'.metrics.inflight + s.inProgress = P.metrics.inflight + s'.inProgress

theorem answered_step (hE : ErrorsEncodeUpToMax K) {i : ℕ} {P P' : BinaryPool} {s s' : Socket G}
    {a : SocketAct} (h : Answered K s) (hs : SocketStep K i P s a P' s') : Answered K s' := by
  cases hs with
  | limit hpc hc =>
    have hm := h.idle (by rw [hpc]; nofun)
    refine answered_of_idle nofun ?_
    simp [Socket.reply, Socket.take, hm]
  | pass hpc hc =>
    have hm := h.idle (by rw [hpc]; nofun)
    refine ⟨.inl rfl, ?_⟩
    simp [Socket.take, hm, Call.new]
  | other hpc => exact h
  | close hpc => exact answered_of_idle nofun (h.idle (by rw [hpc]; nofun))
  | counted hpc => exact answered_of_idle nofun (h.idle (by rw [hpc]; nofun))
  | @replied isResponse delivered hpc =>
    refine answered_of_idle (fun call => ?_) (h.idle (by rw [hpc]; nofun))
    dsimp only
    split_ifs <;> nofun
  | send hpc ha hr hf =>
    obtain ⟨hu, hm⟩ := h.sending hpc
    refine ⟨((sendStep_counts hE hu ha hr).goesOn hf).1, ?_⟩
    rw [sendStep_payload hr]
    exact hm
  | finish hpc ha hr hf =>
    obtain ⟨-, hm⟩ := h.sending hpc
    refine answered_of_idle nofun ?_
    simp [Socket.reply, hm, sendStep_payload hr]

theorem balanced_step (hE : ErrorsEncodeUpToMax K) {i : ℕ} {P P' : BinaryPool} {s s' : Socket G}
    {a : SocketAct} (h : Answered K s) (hs : SocketStep K i P s a P' s') :
    Balanced P P' s s' := by
  cases hs with
  | limit hpc hc =>
    constructor
    · simp [BinaryPool.request, Socket.reply, Socket.take]
      omega
    · simp [BinaryPool.request, BinaryMetrics.counted, Socket.uncounted, hpc]
      omega
    · simp [BinaryPool.request, Socket.inProgress, hpc]
  | pass hpc hc =>
    constructor
    · simp [BinaryPool.request, Socket.take]
      omega
    · simp [BinaryPool.request, BinaryMetrics.counted, Socket.uncounted, hpc]
      omega
    · simp [BinaryPool.request, Socket.inProgress, hpc, Call.new, Pc.inProgress]
  | other hpc => exact ⟨rfl, rfl, rfl⟩
  | close hpc => constructor <;> simp [Socket.uncounted, Socket.inProgress, hpc]
  | counted hpc =>
    constructor
    · simp [BinaryPool.count]
    · simp [Socket.uncounted, hpc, BinaryPool.count]
      omega
    · simp [Socket.inProgress, hpc, BinaryPool.count, BinaryMetrics.incrementBinaryResponse]
  | @replied isResponse delivered hpc =>
    cases isResponse <;> cases delivered <;>
      constructor <;> simp [Socket.uncounted, Socket.inProgress, hpc]
  | send hpc ha hr hf =>
    have hcounts := sendStep_counts hE (h.sending hpc).1 ha hr
    constructor
    · rw [hcounts.requests]
    · simp [Socket.uncounted, hpc, (hcounts.goesOn hf).2, hcounts.requests]
    · simpa [Socket.inProgress, hpc] using hcounts.inflight
  | finish hpc ha hr hf =>
    have hcounts := sendStep_counts hE (h.sending hpc).1 ha hr
    have hinflight := hcounts.inflight
    rw [hf] at hinflight
    constructor
    · rw [hcounts.requests]
      rfl
    · simp [Socket.uncounted, hpc, hcounts.ends hf, hcounts.requests]
      omega
    · simpa [Socket.inProgress, hpc, Pc.inProgress] using hinflight

/-! ## All sockets -/

variable {perMinute burstSize : ℕ}

theorem answered_invariant (hE : ErrorsEncodeUpToMax K) :
    Tasks.TaskInvariant (socketProgram G K perMinute burstSize) (Answered K) where
  task _ _ _ _ _ _ h hs := answered_step hE h (socketStep_cases hs)
  spawn _ := answered_of_idle nofun rfl

theorem idleStep_metrics {P P' : BinaryPool} {a : IdleAct} (h : idleStep P a = some P') :
    P'.metrics = P.metrics := by
  unfold idleStep at h
  obtain ⟨conn, -, h⟩ := Option.bind_eq_some_iff.mp h
  obtain ⟨s, -, rfl⟩ := Option.map_eq_some_iff.mp h
  rfl

/-- The balance of the metrics, and the replies of every socket. Every binary message is a request,
and every request has an outcome unless it is uncounted. -/
structure Accounted (c : SocketConf G) : Prop where
  received : c.shared.metrics.requests = (c.tasks.map fun s => s.messages.length).sum
  requests : c.shared.metrics.requests = c.shared.metrics.ok + c.shared.metrics.error +
    c.shared.metrics.rateLimited + (c.tasks.map Socket.uncounted).sum
  inflight : c.shared.metrics.inflight = (c.tasks.map Socket.inProgress).sum
  /-- The `k`-th reply was made for the `k`-th message. -/
  inOrder : ∀ (i : ℕ) (s : Socket G), c.tasks[i]? = some s →
    ∀ (k : ℕ) (message : Bytes) (r : Reply), s.replies[k]? = some (message, r) →
      s.messages[k]? = some message
  /-- Before a message is taken, each one before it has a reply. -/
  answered : ∀ (i : ℕ) (s : Socket G), c.tasks[i]? = some s → s.pc = .next →
    s.replies.length = s.messages.length

theorem Answered.prefixes {s : Socket G} (h : Answered K s) :
    s.replies.map Prod.fst <+: s.messages := by
  by_cases hpc : ∃ call, s.pc = .sending call
  · obtain ⟨call, hpc⟩ := hpc
    exact ⟨[call.payload], (h.sending hpc).2.symm⟩
  · have heq := h.idle fun call hc => hpc ⟨call, hc⟩
    exact ⟨[], by rw [List.append_nil, heq]⟩

/-- **Every binary message is counted once and answered once, in order.** -/
theorem binary_accounted (hE : ErrorsEncodeUpToMax K) {maxConnections : ℕ} {c : SocketConf G}
    (h : Reaches (socketsStep G K perMinute burstSize) (socketInit G maxConnections) c) :
    Accounted c := by
  have I : Tasks.TaskInvariant (socketProgram G K perMinute burstSize) (Answered K) :=
    answered_invariant hE
  have hanswered : ∀ i s, c.tasks[i]? = some s → Answered K s := fun _ _ hs => I.reaches h hs
  have hreceived : (c.shared.metrics.requests : ℤ) =
      (c.tasks.map fun s => s.messages.length).sum :=
    I.owned.sum (g := fun P => P.metrics.requests)
      (fun i P s a P' s' _ hs hr => by
        exact_mod_cast (balanced_step hE hs (socketStep_cases hr)).received)
      (fun P a P' hr => by simp only [idleStep_metrics hr]) (fun _ => rfl) Tasks.holds_nil rfl h
  have hrequests : (c.shared.metrics.requests - c.shared.metrics.counted : ℤ) =
      (c.tasks.map Socket.uncounted).sum :=
    I.owned.sum (g := fun P => P.metrics.requests - P.metrics.counted)
      (fun i P s a P' s' _ hs hr => (balanced_step hE hs (socketStep_cases hr)).requests)
      (fun P a P' hr => by simp only [idleStep_metrics hr]) (fun _ => rfl) Tasks.holds_nil rfl h
  have hinflight : c.shared.metrics.inflight = (c.tasks.map Socket.inProgress).sum :=
    I.owned.sum (g := fun P => P.metrics.inflight)
      (fun i P s a P' s' _ hs hr => (balanced_step hE hs (socketStep_cases hr)).inflight)
      (fun P a P' hr => by simp only [idleStep_metrics hr]) (fun _ => rfl) Tasks.holds_nil rfl h
  refine ⟨by exact_mod_cast hreceived, ?_, hinflight, fun i s hs k message r hk => ?_,
    fun i s hs hpc => ?_⟩
  · unfold BinaryMetrics.counted at hrequests
    omega
  · have hfst : (s.replies.map Prod.fst)[k]? = some message := by
      rw [List.getElem?_map, hk, Option.map_some]
    obtain ⟨rest, hrest⟩ := (hanswered i s hs).prefixes
    rw [← hrest, List.getElem?_append_left (List.getElem?_eq_some_iff.mp hfst).1]
    exact hfst
  · rw [(hanswered i s hs).idle (by rw [hpc]; nofun), List.length_map]

theorem wirePort_errorsEncode : ErrorsEncodeUpToMax wirePort := by
  intro payload h code
  have hlen : payload.length < 2 ^ 32 := by
    unfold maxMessageSizeBytes at h
    omega
  have hempty : (wirePort.newError code).payload.length < 2 ^ 32 := Nat.two_pow_pos 32
  exact ⟨_, binaryResponseAndRequestCodec_toBytes.mpr ⟨hlen, hempty, rfl⟩⟩

/-- One message is refused, one is rejected by the limiter, and one is at its call. -/
def countedRun : List SocketsAct :=
  [.spawn (), .task 0 (.message [] 0 0), .task 0 (.send .begin), .task 0 (.sent true),
    .task 0 (.message [1] 0 0), .task 0 (.sent true), .task 0 (.message [2] 2000000000 2000000000)]

theorem binary_accounted_counted :
    ∃ c, exec (socketsStep gcraGovernor wirePort 60 1) (socketInit gcraGovernor 1) countedRun =
        some c ∧ c.shared.metrics = ⟨3, 0, 1, 1, 0⟩ ∧ Accounted c := by
  have hrun : (exec (socketsStep gcraGovernor wirePort 60 1) (socketInit gcraGovernor 1)
      countedRun).map (fun c => c.shared.metrics) = some ⟨3, 0, 1, 1, 0⟩ := rfl
  obtain ⟨c, hc, hmetrics⟩ := Option.map_eq_some_iff.mp hrun
  exact ⟨c, hc, hmetrics, binary_accounted wirePort_errorsEncode ⟨_, hc⟩⟩

end CasperNodeProxy
