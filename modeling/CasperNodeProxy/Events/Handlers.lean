import CasperNodeProxy.Events.Bus
import CasperNodeProxy.Lib.Tasks

/-!
# The clients of the event bus

`remember_api_version`, `wait_for_api_version` and the two handlers of `/events`, as tasks over one
bus; each step is one access to what they share.

* `Setter`, `rememberStep`; `WaitPc`, `waitStep`.
* `Client`, `handleEventsSocketStep`, `sseStreamStep`: the websocket and the SSE handler.
* `eventProgram`: any number of producers, setters and clients, interleaved.
* **`clientStep_cases`**: everything a step of a client can be, for both handlers.
-/

namespace CasperNodeProxy

open Channel Run

variable {V : Type}

/-! ## The ApiVersion -/

/-- The atomic steps of `remember_api_version`. -/
inductive SetterPc
  | set
  | notify
  | returned (stored : Bool)
  deriving DecidableEq

/-- A call of `remember_api_version`. -/
structure Setter (V : Type) where
  data : V
  pc : SetterPc
  deriving DecidableEq

/-- One step of `remember_api_version`. -/
def rememberStep (b : EventBus V) (s : Setter V) : Option (EventBus V × Setter V) :=
  match s.pc with
  | .set =>
    let (b, stored) := b.setApiVersion s.data
    some (b, { s with pc := if stored then .notify else .returned false })
  | .notify => some (b.notifyWaiters, { s with pc := .returned true })
  | .returned _ => none

/-- The atomic steps of `wait_for_api_version`: create the future, read the cell, block. -/
inductive WaitPc (V : Type)
  | create
  | read (notified : Notified)
  | blocked (notified : Notified)
  | returned (data : V)
  deriving DecidableEq

/-- One step of `wait_for_api_version`. -/
def waitStep (b : EventBus V) : WaitPc V → Option (WaitPc V)
  | .create => some (.read b.apiVersionNotify.notified)
  | .read notified =>
    match b.apiVersion with
    | some data => some (.returned data)
    | none => some (.blocked notified)
  | .blocked notified => if b.apiVersionNotify.wakes notified then some .create else none
  | .returned _ => none

/-! ## Clients -/

/-- The two handlers of `/events`. -/
inductive Kind
  | websocket
  | sse
  deriving DecidableEq, Repr

/-- What a client is sent. -/
inductive Frame (V : Type)
  | apiVersion (data : V)
  | event (e : EventEnvelope V)
  deriving DecidableEq

/-- The await points of a handler. -/
inductive ClientPc (V : Type)
  | subscribe
  | wait (pc : WaitPc V)
  | snapshot
  | replay
  | live
  | closed
  deriving DecidableEq

/-- The variables of a handler, what it has sent, and some records for the proofs. -/
structure Client (V : Type) where
  kind : Kind
  startFrom : Option ℕ
  pc : ClientPc V
  liveRx : Receiver
  lastSentId : ℕ
  /-- What is left to be replayed. -/
  backlog : List (EventEnvelope V)
  frames : List (Frame V)
  /-- How many events had been sent when the client subscribed. -/
  joined : ℕ
  /-- How many events had been appended when the snapshot was taken. -/
  appendedAt : ℕ
  snapshot : List (EventEnvelope V)
  /-- The events that were reported as lagged. -/
  missed : List (EventEnvelope V)

namespace Client

/-- A client whose handler has not begun yet. -/
def new (kind : Kind) (startFrom : Option ℕ) : Client V :=
  ⟨kind, startFrom, .subscribe, ⟨0⟩, 0, [], [], 0, 0, [], []⟩

/-- The events that the client was sent. -/
def delivered (c : Client V) : List (EventEnvelope V) :=
  c.frames.filterMap fun
    | .event e => some e
    | .apiVersion _ => none

/-- `events.subscribe()`. -/
def subscribed (c : Client V) (h : Hub V) : Client V :=
  { c with liveRx := h.bus.subscribe, joined := h.sent.length }

/-- `events.snapshot_from(start_from)`. -/
def snapshotTaken (c : Client V) (h : Hub V) (startFrom : ℕ) : Client V :=
  { c with
    backlog := h.bus.snapshotFrom startFrom
    snapshot := h.bus.snapshotFrom startFrom
    appendedAt := h.appended.length }

/-- A frame is sent to the client. -/
def send (c : Client V) (f : Frame V) : Client V := { c with frames := c.frames ++ [f] }

end Client

/-- One round of the loop of either handler over the live queue. -/
def liveStep (h : Hub V) (c : Client V) : Option (Client V) :=
  match h.bus.sender.recv c.liveRx with
  | (.ok e, rx) =>
    if c.lastSentId < e.id then some ({ c with liveRx := rx, lastSentId := e.id }.send (.event e))
    else some { c with liveRx := rx }
  | (.lagged skipped, rx) => some { c with
      liveRx := rx
      missed := c.missed ++ (h.sent.drop c.liveRx.next).take skipped }
  | (.pending, _) => none

/-- `handle_events_socket`: the snapshot is taken after the ApiVersion has been sent. -/
def handleEventsSocketStep (h : Hub V) (c : Client V) : Option (Client V) :=
  match c.pc with
  | .subscribe => some { c.subscribed h with pc := .wait .create }
  | .wait (.returned data) => some { c.send (.apiVersion data) with pc := .snapshot }
  | .wait pc => (waitStep h.bus pc).map fun pc => { c with pc := .wait pc }
  | .snapshot =>
    match c.startFrom with
    | some startFrom => some { c.snapshotTaken h startFrom with pc := .replay }
    | none => some { c with pc := .live }
  | .replay =>
    match c.backlog with
    | e :: backlog => some ({ c with backlog := backlog, lastSentId := e.id }.send (.event e))
    | [] => some { c with pc := .live }
  | .live => liveStep h c
  | .closed => none

/-- The id of the last event, or what was there before. -/
def lastId (l : List (EventEnvelope V)) (previous : ℕ) : ℕ := (l.getLast?.map (·.id)).getD previous

/-- `sse_stream`: the snapshot is taken right after subscribing, the ApiVersion is awaited by the
first poll of the stream. -/
def sseStreamStep (h : Hub V) (c : Client V) : Option (Client V) :=
  match c.pc with
  | .subscribe => some { c.subscribed h with pc := .snapshot }
  | .snapshot =>
    match c.startFrom with
    | some startFrom => some { c.snapshotTaken h startFrom with
        lastSentId := lastId (h.bus.snapshotFrom startFrom) c.lastSentId
        pc := .wait .create }
    | none => some { c with pc := .wait .create }
  | .wait (.returned data) => some { c.send (.apiVersion data) with pc := .replay }
  | .wait pc => (waitStep h.bus pc).map fun pc => { c with pc := .wait pc }
  | .replay =>
    match c.backlog with
    | e :: backlog => some ({ c with backlog := backlog }.send (.event e))
    | [] => some { c with pc := .live }
  | .live => liveStep h c
  | .closed => none

/-- The handler goes on, or its connection is closed. -/
inductive TaskAct
  | run
  | close
  deriving DecidableEq, Repr

/-- One step of a handler. -/
def clientStep (h : Hub V) (c : Client V) : TaskAct → Option (Client V)
  | .run =>
    match c.kind with
    | .websocket => handleEventsSocketStep h c
    | .sse => sseStreamStep h c
  | .close =>
    match c.pc with
    | .closed => none
    | _ => some { c with pc := .closed }

/-! ## The program -/

/-- What runs over a bus. -/
inductive Task (V : Type)
  | setter (s : Setter V)
  | client (c : Client V)

/-- A call of `remember_api_version`, or a request for `/events`. -/
inductive Arrival (V : Type)
  | setter (data : V)
  | client (kind : Kind) (startFrom : Option ℕ)

/-- The task that arrives. -/
def Arrival.task : Arrival V → Task V
  | .setter data => .setter ⟨data, .set⟩
  | .client kind startFrom => .client (.new kind startFrom)

/-- One step of a task. -/
def taskStep (h : Hub V) : Task V → TaskAct → Option (Hub V × Task V)
  | .setter s, .run => (rememberStep h.bus s).map fun r => ({ h with bus := r.1 }, .setter r.2)
  | .setter _, .close => none
  | .client c, a => (clientStep h c a).map fun c => (h, .client c)

/-- All producers, setters and clients of one bus. -/
def eventProgram : Tasks.Program (Hub V) (Task V) TaskAct (ProducerAct V) (Arrival V) where
  task _ := taskStep
  env := producerStep
  spawn := Arrival.task

/-- A bus and all tasks over it. -/
abbrev EventConf (V : Type) := Tasks.Conf (Hub V) (Task V)

/-- A step of a task or a producer, or an arrival. -/
abbrev EventAct (V : Type) := Tasks.Act TaskAct (ProducerAct V) (Arrival V)

/-- A new bus with its producers, and nobody else yet. -/
def eventInit (producers backlogLimit broadcastCapacity : ℕ) (metrics : Bool) : EventConf V :=
  ⟨.init producers backlogLimit broadcastCapacity metrics, []⟩

/-- A step of a bus with all that runs over it. -/
abbrev eventStep : EventConf V → EventAct V → Option (EventConf V) := eventProgram.step

/-- The client among the tasks at position `i`. -/
def clientAt (c : EventConf V) (i : ℕ) : Option (Client V) :=
  match c.tasks[i]? with
  | some (.client d) => some d
  | _ => none

theorem clientAt_mem {c : EventConf V} {i : ℕ} {d : Client V} (h : clientAt c i = some d) :
    .client d ∈ c.tasks := by
  unfold clientAt at h
  split at h
  · next ht =>
    cases h
    exact List.mem_of_getElem? ht
  · cases h

/-! ## What a step can be -/

/-- What the two handlers do differently. -/
def Kind.select {α : Type} (k : Kind) (websocket sse : α) : α :=
  match k with
  | .websocket => websocket
  | .sse => sse

/-- The steps of a client. -/
inductive ClientStep (h : Hub V) (c : Client V) : Client V → Prop
  | subscribe (hpc : c.pc = .subscribe) :
      ClientStep h c { c.subscribed h with pc := c.kind.select (.wait .create) .snapshot }
  | wait {w w' : WaitPc V} (hpc : c.pc = .wait w) (hw : waitStep h.bus w = some w') :
      ClientStep h c { c with pc := .wait w' }
  | version {data : V} (hpc : c.pc = .wait (.returned data)) :
      ClientStep h c { c.send (.apiVersion data) with pc := c.kind.select .snapshot .replay }
  | snapshot {s : ℕ} (hpc : c.pc = .snapshot) (hs : c.startFrom = some s) :
      ClientStep h c { c.snapshotTaken h s with
        lastSentId := c.kind.select c.lastSentId (lastId (h.bus.snapshotFrom s) c.lastSentId)
        pc := c.kind.select .replay (.wait .create) }
  | noSnapshot (hpc : c.pc = .snapshot) (hs : c.startFrom = none) :
      ClientStep h c { c with pc := c.kind.select .live (.wait .create) }
  | replay {e : EventEnvelope V} {backlog : List (EventEnvelope V)} (hpc : c.pc = .replay)
      (hb : c.backlog = e :: backlog) :
      ClientStep h c ({ c with
        backlog := backlog
        lastSentId := c.kind.select e.id c.lastSentId }.send (.event e))
  | replayed (hpc : c.pc = .replay) (hb : c.backlog = []) : ClientStep h c { c with pc := .live }
  | deliver {e : EventEnvelope V} {rx : Receiver} (hpc : c.pc = .live)
      (hr : h.bus.sender.recv c.liveRx = (.ok e, rx)) (hid : c.lastSentId < e.id) :
      ClientStep h c ({ c with liveRx := rx, lastSentId := e.id }.send (.event e))
  | discard {e : EventEnvelope V} {rx : Receiver} (hpc : c.pc = .live)
      (hr : h.bus.sender.recv c.liveRx = (.ok e, rx)) (hid : ¬ c.lastSentId < e.id) :
      ClientStep h c { c with liveRx := rx }
  | lagged {skipped : ℕ} {rx : Receiver} (hpc : c.pc = .live)
      (hr : h.bus.sender.recv c.liveRx = (.lagged skipped, rx)) :
      ClientStep h c { c with
        liveRx := rx
        missed := c.missed ++ (h.sent.drop c.liveRx.next).take skipped }
  | close : ClientStep h c { c with pc := .closed }

theorem liveStep_cases {h : Hub V} {c c' : Client V} (hpc : c.pc = .live)
    (hs : liveStep h c = some c') : ClientStep h c c' := by
  unfold liveStep at hs
  split at hs
  · next hr =>
    split_ifs at hs with hid
    · cases hs
      exact .deliver hpc hr hid
    · cases hs
      exact .discard hpc hr hid
  · next hr =>
    cases hs
    exact .lagged hpc hr
  · cases hs

theorem handleEventsSocketStep_cases {h : Hub V} {c c' : Client V} (hk : c.kind = .websocket)
    (hs : handleEventsSocketStep h c = some c') : ClientStep h c c' := by
  obtain ⟨kind⟩ := c
  dsimp only at hk
  subst hk
  unfold handleEventsSocketStep at hs
  split at hs
  · next hpc => cases hs; exact .subscribe hpc
  · next hpc => cases hs; exact .version hpc
  · next hpc =>
    obtain ⟨w, hw, rfl⟩ := Option.map_eq_some_iff.mp hs
    exact .wait hpc hw
  · next hpc =>
    split at hs
    · next hst => cases hs; exact .snapshot hpc hst
    · next hst => cases hs; exact .noSnapshot hpc hst
  · next hpc =>
    split at hs
    · next hb => cases hs; exact .replay hpc hb
    · next hb => cases hs; exact .replayed hpc hb
  · next hpc => exact liveStep_cases hpc hs
  · cases hs

theorem sseStreamStep_cases {h : Hub V} {c c' : Client V} (hk : c.kind = .sse)
    (hs : sseStreamStep h c = some c') : ClientStep h c c' := by
  obtain ⟨kind⟩ := c
  dsimp only at hk
  subst hk
  unfold sseStreamStep at hs
  split at hs
  · next hpc => cases hs; exact .subscribe hpc
  · next hpc =>
    split at hs
    · next hst => cases hs; exact .snapshot hpc hst
    · next hst => cases hs; exact .noSnapshot hpc hst
  · next hpc => cases hs; exact .version hpc
  · next hpc =>
    obtain ⟨w, hw, rfl⟩ := Option.map_eq_some_iff.mp hs
    exact .wait hpc hw
  · next hpc =>
    split at hs
    · next hb => cases hs; exact .replay hpc hb
    · next hb => cases hs; exact .replayed hpc hb
  · next hpc => exact liveStep_cases hpc hs
  · cases hs

/-- **What a step of a client can be**, for both handlers. -/
theorem clientStep_cases {h : Hub V} {c c' : Client V} {a : TaskAct}
    (hs : clientStep h c a = some c') : ClientStep h c c' := by
  cases a with
  | run =>
    simp only [clientStep] at hs
    split at hs
    · next hk => exact handleEventsSocketStep_cases hk hs
    · next hk => exact sseStreamStep_cases hk hs
  | close =>
    simp only [clientStep] at hs
    split at hs
    · cases hs
    · cases hs
      exact .close

/-- The steps of a setter. -/
inductive RememberStep (b : EventBus V) (s : Setter V) : EventBus V → Setter V → Prop
  | set (hpc : s.pc = .set) (hb : b.apiVersion = none) :
      RememberStep b s { b with apiVersion := some s.data } { s with pc := .notify }
  | alreadySet {data : V} (hpc : s.pc = .set) (hb : b.apiVersion = some data) :
      RememberStep b s b { s with pc := .returned false }
  | notify (hpc : s.pc = .notify) : RememberStep b s b.notifyWaiters { s with pc := .returned true }

theorem rememberStep_cases {b b' : EventBus V} {s s' : Setter V}
    (hs : rememberStep b s = some (b', s')) : RememberStep b s b' s' := by
  unfold rememberStep at hs
  split at hs
  · next hpc =>
    unfold EventBus.setApiVersion at hs
    cases hb : b.apiVersion with
    | none =>
      rw [hb] at hs
      cases hs
      exact .set hpc hb
    | some data =>
      rw [hb] at hs
      cases hs
      exact .alreadySet hpc hb
  · next hpc =>
    cases hs
    exact .notify hpc
  · cases hs

/-- A step of a task is one of a setter, which only touches the ApiVersion, or one of a client,
which only touches its own variables. -/
theorem taskStep_cases {h h' : Hub V} {t t' : Task V} {a : TaskAct}
    (hs : taskStep h t a = some (h', t')) :
    (∃ s s' b', t = .setter s ∧ t' = .setter s' ∧ h' = { h with bus := b' } ∧
      RememberStep h.bus s b' s') ∨
    (∃ c c', t = .client c ∧ t' = .client c' ∧ h' = h ∧ ClientStep h c c') := by
  unfold taskStep at hs
  split at hs
  · obtain ⟨⟨b', s'⟩, hr, he⟩ := Option.map_eq_some_iff.mp hs
    cases he
    exact .inl ⟨_, s', b', rfl, rfl, rfl, rememberStep_cases hr⟩
  · cases hs
  · obtain ⟨c', hc, he⟩ := Option.map_eq_some_iff.mp hs
    cases he
    exact .inr ⟨_, c', rfl, rfl, rfl, clientStep_cases hc⟩

theorem rememberStep_grows {h : Hub V} {b' : EventBus V} {s s' : Setter V}
    (hs : RememberStep h.bus s b' s') : Grows h { h with bus := b' } := by
  have hp := List.prefix_refl h.pushed
  have ha := List.prefix_refl h.appended
  have hsent := List.prefix_refl h.sent
  cases hs with
  | set hpc hb =>
    refine ⟨hp, ha, hsent, rfl, fun v hv => ?_, le_rfl⟩
    rw [hb] at hv
    cases hv
  | alreadySet hpc hb => exact Grows.refl h
  | notify hpc => exact ⟨hp, ha, hsent, rfl, fun _ hv => hv, Nat.le_succ _⟩

theorem grows_taskStep {h h' : Hub V} {t t' : Task V} {a : TaskAct}
    (hs : taskStep h t a = some (h', t')) : Grows h h' := by
  rcases taskStep_cases hs with ⟨s, s', b', -, -, rfl, hr⟩ | ⟨c, c', -, -, rfl, -⟩
  · exact rememberStep_grows hr
  · exact Grows.refl h'

theorem limit_reaches {k backlogLimit broadcastCapacity : ℕ} {metrics : Bool} {c : EventConf V}
    (h : Reaches eventStep (eventInit k backlogLimit broadcastCapacity metrics) c) :
    c.shared.bus.backlogLimit = max backlogLimit 1 := by
  refine h.invariant (I := fun d => d.shared.bus.backlogLimit = max backlogLimit 1) rfl ?_
  intro u a v hu hs
  cases a with
  | task i a =>
    obtain ⟨t, h', t', -, hr, rfl⟩ := Tasks.step_task hs
    exact (grows_taskStep hr).limit.trans hu
  | env e =>
    obtain ⟨h', hr, rfl⟩ := Tasks.step_env hs
    exact (grows_producerStep hr).limit.trans hu
  | spawn x =>
    rw [Tasks.step_spawn hs]
    exact hu

end CasperNodeProxy
