import CasperNodeProxy.Events.Bus
import CasperNodeProxy.Lib.Run

/-!
# The upstream listener

`spawn_listener` against an upstream that keeps an increasing log of events, and against a Redis
that may fail at any call. Each step is one statement or one awaited call of the source, so that
whatever happens between two of them is covered.

* `World`: what outlives the process, the log and the key in Redis.
* `Listener`, `listenerStep`: the variables of the task and its steps.
* `feedStep`: one lifetime of the listener, interleaved with what goes on outside.
* **`listenerStep_cases`**: everything a step of the listener can be.
-/

namespace CasperNodeProxy

open Log

variable {E V : Type}

/-! ## Events -/

/-- The listener tells the ApiVersion from everything else. -/
inductive SseEvent (E : Type)
  | apiVersion (version : E)
  | other (data : E)
  deriving DecidableEq, Repr

/-- The event is an ApiVersion. -/
def SseEvent.isApiVersion : SseEvent E → Bool
  | .apiVersion _ => true
  | .other _ => false

/-- What the stream of the SDK yields. -/
structure SseEnvelope (E : Type) where
  id : Option ℕ
  data : SseEvent E
  deriving DecidableEq, Repr

/-- An event of the upstream. -/
structure Entry (E : Type) where
  id : ℕ
  data : SseEvent E
  deriving DecidableEq, Repr

/-- An event of the log as it is sent, with its id. -/
def Entry.envelope (e : Entry E) : SseEnvelope E := ⟨some e.id, e.data⟩

/-! ## What outlives the process -/

/-- The upstream and Redis. -/
structure World (E : Type) where
  /-- The upstream keeps everything, the oldest event first. -/
  log : List (Entry E)
  /-- The value of `sse_last_id:{network_name}` in Redis. -/
  stored : Option ℕ
  /-- The writes whose answer was lost. Redis may still carry them out. -/
  lost : List ℕ
  /-- For the proofs: the first id that was stored. -/
  firstStored : Option ℕ
  deriving DecidableEq

namespace World

/-- Redis carries out a write. -/
def store (w : World E) (id : ℕ) : World E :=
  { w with stored := some id, firstStored := w.firstStored.or (some id) }

/-- Where the replay of a connection with `start_from` begins. -/
def position (w : World E) (startFrom : ℕ) : ℕ := w.log.findIdx fun e => startFrom ≤ e.id

end World

/-! ## The listener -/

/-- An open connection: where it reads in the log, and, for the proofs, whether it was opened after
the listener had received an event and has yielded none yet. -/
structure SseStream where
  position : ℕ
  resumed : Bool
  deriving DecidableEq, Repr

/-- An envelope in the body of the loop. It came `again` if it is the first event of a connection
that was opened after the listener had received one. -/
structure Item (E : Type) where
  envelope : SseEnvelope E
  stream : SseStream
  again : Bool
  deriving DecidableEq, Repr

/-- The statements and awaited calls of the task. -/
inductive ListenerPc (E : Type)
  | connectRedis
  | loadLastId
  | connect
  | next (stream : SseStream)
  | received (item : Item E)
  | redisConn (item : Item E) (id : ℕ)
  | set (item : Item E) (id : ℕ)
  | deliver (item : Item E)
  | sleep
  | returned
  deriving DecidableEq, Repr

/-- An event of the bus and the envelope that it was made of. -/
structure Pushed (E V : Type) where
  event : EventEnvelope V
  source : SseEnvelope E
  deriving DecidableEq

/-- The variables of the task, the bus that it feeds, and two records for the proofs: what was
pushed, and the ids of the envelopes that the loop is done with. -/
structure Listener (E V : Type) where
  redisConn : Bool
  startFrom : Option ℕ
  pc : ListenerPc E
  bus : EventBus V
  pushed : List (Pushed E V)
  processed : List ℕ

/-- What is fixed for a process: whether `REDIS_URL` is valid, the parameters of the bus, and
`sse_to_value`. -/
structure Process (E V : Type) where
  redisClient : Bool
  backlogLimit : ℕ
  broadcastCapacity : ℕ
  metrics : Bool
  sseToValue : SseEvent E → Option V

/-- `remember_api_version`, when nothing interrupts it. -/
def EventBus.rememberApiVersion (b : EventBus V) (data : V) : EventBus V × Bool :=
  let (b, stored) := b.setApiVersion data
  if stored then (b.notifyWaiters, true) else (b, false)

namespace Listener

/-- The listener of a process that starts. -/
def new (p : Process E V) : Listener E V :=
  ⟨false, none, .connectRedis, .new p.backlogLimit p.broadcastCapacity p.metrics, [], []⟩

/-- `events.push(value)`. -/
def push (l : Listener E V) (source : SseEnvelope E) (value : V) : Listener E V :=
  let (bus, event) := l.bus.push value
  { l with bus := bus, pushed := l.pushed ++ [⟨event, source⟩] }

/-- The end of the loop body: the ApiVersion is remembered, everything else is pushed. -/
def feed (p : Process E V) (l : Listener E V) (envelope : SseEnvelope E) : Listener E V :=
  match envelope.data, p.sseToValue envelope.data with
  | .apiVersion _, some value => { l with bus := (l.bus.rememberApiVersion value).1 }
  | .other _, some value => l.push envelope value
  | _, none => l

/-- The loop is done with the envelope that it has in hand. -/
def deliver (p : Process E V) (l : Listener E V) (item : Item E) : Listener E V :=
  { l.feed p item.envelope with
    pc := .next item.stream
    processed := l.processed ++ item.envelope.id.toList }

end Listener

/-- The next statement is run and the call that is awaited succeeds, or it fails. Without
`start_from` the upstream decides where a connection begins, and it may send an ApiVersion that has
no id. -/
inductive ListenerAct (E : Type)
  | ok
  | err
  | configErr
  | okLive (position : ℕ)
  | apiVersion (version : E)
  deriving DecidableEq, Repr

/-- One step of `spawn_listener`. -/
def listenerStep (p : Process E V) (w : World E) (l : Listener E V) :
    ListenerAct E → Option (World E × Listener E V)
  | .ok =>
    match l.pc with
    | .connectRedis => some (w, { l with redisConn := p.redisClient, pc := .loadLastId })
    | .loadLastId => some (w, { l with
        startFrom := if l.redisConn then w.stored else none
        pc := .connect })
    | .connect => l.startFrom.map fun startFrom =>
        (w, { l with pc := .next ⟨w.position startFrom, !l.processed.isEmpty⟩ })
    | .next stream => w.log[stream.position]?.map fun e =>
        (w, { l with pc := .received ⟨e.envelope, ⟨stream.position + 1, false⟩, stream.resumed⟩ })
    | .received item =>
      match item.envelope.id with
      | some id => some (w, { l with
          startFrom := some id
          pc := if p.redisClient then .redisConn item id else .deliver item })
      | none => some (w, { l with pc := .deliver item })
    | .redisConn item id => some (w, { l with redisConn := true, pc := .set item id })
    | .set item id => some (w.store id, { l with pc := .deliver item })
    | .deliver item => some (w, l.deliver p item)
    | .sleep => some (w, { l with pc := .connect })
    | .returned => none
  | .err =>
    match l.pc with
    | .connectRedis => some (w, { l with redisConn := false, pc := .loadLastId })
    | .loadLastId => some (w, { l with startFrom := none, pc := .connect })
    | .connect | .next _ => some (w, { l with pc := .sleep })
    | .redisConn item _ => if l.redisConn then none else some (w, { l with pc := .deliver item })
    | .set item id => some ({ w with lost := w.lost ++ [id] },
        { l with redisConn := false, pc := .deliver item })
    | _ => none
  | .configErr =>
    match l.pc with
    | .connect => some (w, { l with pc := .returned })
    | _ => none
  | .okLive position =>
    match l.pc, l.startFrom with
    | .connect, none =>
      if position ≤ w.log.length then some (w, { l with pc := .next ⟨position, false⟩ }) else none
    | _, _ => none
  | .apiVersion version =>
    match l.pc with
    | .next stream => some (w, { l with
        pc := .received ⟨⟨none, .apiVersion version⟩, stream, false⟩ })
    | _ => none

/-! ## One lifetime -/

/-- A lifetime of the listener, and what outlives it. -/
structure Feed (E V : Type) where
  world : World E
  listener : Listener E V

/-- The listener takes a step, the upstream appends an event, or Redis carries out a write whose
answer was lost. -/
inductive FeedAct (E : Type)
  | listener (a : ListenerAct E)
  | publish (e : Entry E)
  | arrive (i : ℕ)
  deriving DecidableEq, Repr

/-- What the upstream and Redis do by themselves. -/
def World.publish (w : World E) (e : Entry E) : Option (World E) :=
  if ∀ e' ∈ w.log, e'.id < e.id then some { w with log := w.log ++ [e] } else none

/-- Redis carries out a write whose answer was lost. -/
def World.arrive (w : World E) (i : ℕ) : Option (World E) :=
  w.lost[i]?.map fun id => { w.store id with lost := w.lost.eraseIdx i }

/-- A step of one lifetime. -/
def feedStep (p : Process E V) (c : Feed E V) : FeedAct E → Option (Feed E V)
  | .listener a => (listenerStep p c.world c.listener a).map fun r => ⟨r.1, r.2⟩
  | .publish e => (c.world.publish e).map fun w => { c with world := w }
  | .arrive i => (c.world.arrive i).map fun w => { c with world := w }

/-! ## What a step can be -/

/-- The steps of the listener. -/
inductive ListenerStep (p : Process E V) (w : World E) (l : Listener E V) :
    ListenerAct E → World E → Listener E V → Prop
  | connectRedis (a : ListenerAct E) (conn : Bool) (hpc : l.pc = .connectRedis)
      (ha : a = .ok ∧ conn = p.redisClient ∨ a = .err ∧ conn = false) :
      ListenerStep p w l a w { l with redisConn := conn, pc := .loadLastId }
  | loadLastId (a : ListenerAct E) (startFrom : Option ℕ) (hpc : l.pc = .loadLastId)
      (ha : a = .ok ∧ startFrom = (if l.redisConn then w.stored else none) ∨
        a = .err ∧ startFrom = none) :
      ListenerStep p w l a w { l with startFrom := startFrom, pc := .connect }
  | connect (s : ℕ) (hpc : l.pc = .connect) (hs : l.startFrom = some s) :
      ListenerStep p w l .ok w { l with pc := .next ⟨w.position s, !l.processed.isEmpty⟩ }
  | connectLive (position : ℕ) (hpc : l.pc = .connect) (hs : l.startFrom = none)
      (hp : position ≤ w.log.length) :
      ListenerStep p w l (.okLive position) w { l with pc := .next ⟨position, false⟩ }
  | stop (hpc : l.pc = .connect) : ListenerStep p w l .configErr w { l with pc := .returned }
  | item (stream : SseStream) (e : Entry E) (hpc : l.pc = .next stream)
      (he : w.log[stream.position]? = some e) :
      ListenerStep p w l .ok w
        { l with pc := .received ⟨e.envelope, ⟨stream.position + 1, false⟩, stream.resumed⟩ }
  | apiVersion (stream : SseStream) (version : E) (hpc : l.pc = .next stream) :
      ListenerStep p w l (.apiVersion version) w
        { l with pc := .received ⟨⟨none, .apiVersion version⟩, stream, false⟩ }
  | disconnect (hpc : l.pc = .connect ∨ ∃ stream, l.pc = .next stream) :
      ListenerStep p w l .err w { l with pc := .sleep }
  | note (item : Item E) (id : ℕ) (pc : ListenerPc E) (hpc : l.pc = .received item)
      (hid : item.envelope.id = some id) (hc : pc = .redisConn item id ∨ pc = .deliver item) :
      ListenerStep p w l .ok w { l with startFrom := some id, pc := pc }
  | noId (item : Item E) (hpc : l.pc = .received item) (hid : item.envelope.id = none) :
      ListenerStep p w l .ok w { l with pc := .deliver item }
  | redis (item : Item E) (id : ℕ) (hpc : l.pc = .redisConn item id) :
      ListenerStep p w l .ok w { l with redisConn := true, pc := .set item id }
  | noRedis (item : Item E) (id : ℕ) (hpc : l.pc = .redisConn item id) :
      ListenerStep p w l .err w { l with pc := .deliver item }
  | set (item : Item E) (id : ℕ) (hpc : l.pc = .set item id) :
      ListenerStep p w l .ok (w.store id) { l with pc := .deliver item }
  | setFails (item : Item E) (id : ℕ) (hpc : l.pc = .set item id) :
      ListenerStep p w l .err { w with lost := w.lost ++ [id] }
        { l with redisConn := false, pc := .deliver item }
  | deliver (item : Item E) (hpc : l.pc = .deliver item) :
      ListenerStep p w l .ok w (l.deliver p item)
  | retry (hpc : l.pc = .sleep) : ListenerStep p w l .ok w { l with pc := .connect }

theorem listenerStep_ok_cases {p : Process E V} {w w' : World E} {l l' : Listener E V}
    (hs : listenerStep p w l .ok = some (w', l')) : ListenerStep p w l .ok w' l' := by
  simp only [listenerStep] at hs
  split at hs
  · next hpc => cases hs; exact .connectRedis _ _ hpc (.inl ⟨rfl, rfl⟩)
  · next hpc => cases hs; exact .loadLastId _ _ hpc (.inl ⟨rfl, rfl⟩)
  · next hpc =>
    obtain ⟨s, hst, he⟩ := Option.map_eq_some_iff.mp hs
    cases he
    exact .connect s hpc hst
  · next stream hpc =>
    obtain ⟨e, he, hr⟩ := Option.map_eq_some_iff.mp hs
    cases hr
    exact .item stream e hpc he
  · next item hpc =>
    split at hs
    · next id hid =>
      cases hs
      refine .note item id _ hpc hid ?_
      split_ifs
      · exact .inl rfl
      · exact .inr rfl
    · next hid => cases hs; exact .noId item hpc hid
  · next item id hpc => cases hs; exact .redis item id hpc
  · next item id hpc => cases hs; exact .set item id hpc
  · next item hpc => cases hs; exact .deliver item hpc
  · next hpc => cases hs; exact .retry hpc
  · cases hs

theorem listenerStep_err_cases {p : Process E V} {w w' : World E} {l l' : Listener E V}
    (hs : listenerStep p w l .err = some (w', l')) : ListenerStep p w l .err w' l' := by
  simp only [listenerStep] at hs
  split at hs
  · next hpc => cases hs; exact .connectRedis _ _ hpc (.inr ⟨rfl, rfl⟩)
  · next hpc => cases hs; exact .loadLastId _ _ hpc (.inr ⟨rfl, rfl⟩)
  · next hpc => cases hs; exact .disconnect (.inl hpc)
  · next stream hpc => cases hs; exact .disconnect (.inr ⟨stream, hpc⟩)
  · next item id hpc =>
    split_ifs at hs
    cases hs
    exact .noRedis item id hpc
  · next item id hpc => cases hs; exact .setFails item id hpc
  · cases hs

/-- **What a step of the listener can be.** -/
theorem listenerStep_cases {p : Process E V} {w w' : World E} {l l' : Listener E V}
    {a : ListenerAct E} (hs : listenerStep p w l a = some (w', l')) :
    ListenerStep p w l a w' l' := by
  cases a with
  | ok => exact listenerStep_ok_cases hs
  | err => exact listenerStep_err_cases hs
  | configErr =>
    simp only [listenerStep] at hs
    split at hs
    · next hpc => cases hs; exact .stop hpc
    · cases hs
  | okLive position =>
    simp only [listenerStep] at hs
    split at hs
    · next hpc hst =>
      split_ifs at hs with hp
      cases hs
      exact .connectLive position hpc hst hp
    · cases hs
  | apiVersion version =>
    simp only [listenerStep] at hs
    split at hs
    · next stream hpc => cases hs; exact .apiVersion stream version hpc
    · cases hs

/-- The end of the loop body is the only step that pushes anything. -/
theorem listenerStep_delivers {p : Process E V} {w w' : World E} {l l' : Listener E V}
    {a : ListenerAct E} (hs : ListenerStep p w l a w' l') :
    (∃ item, l.pc = .deliver item ∧ a = .ok ∧ w' = w ∧ l' = l.deliver p item) ∨
    ((∀ item, l.pc ≠ .deliver item) ∧ l'.pushed = l.pushed ∧ l'.processed = l.processed) := by
  cases hs with
  | deliver item hpc => exact .inl ⟨item, hpc, rfl, rfl, rfl⟩
  | disconnect hpc =>
    refine .inr ⟨fun item hd => ?_, rfl, rfl⟩
    rcases hpc with hpc | ⟨stream, hpc⟩ <;> rw [hd] at hpc <;> cases hpc
  | connectRedis | loadLastId | connect | connectLive | stop | item | apiVersion | note | noId
  | redis | noRedis | set | setFails | retry =>
    refine .inr ⟨fun item hd => ?_, rfl, rfl⟩
    simp_all

theorem loaded_cases {w : World E} {l : Listener E V} {a : ListenerAct E} {startFrom : Option ℕ}
    (ha : a = .ok ∧ startFrom = (if l.redisConn then w.stored else none) ∨
      a = .err ∧ startFrom = none) : startFrom = none ∨ startFrom = w.stored := by
  rcases ha with ⟨-, rfl⟩ | ⟨-, rfl⟩
  · split_ifs
    · exact .inr rfl
    · exact .inl rfl
  · exact .inl rfl

theorem listenerStep_log {p : Process E V} {w w' : World E} {l l' : Listener E V}
    {a : ListenerAct E} (hs : ListenerStep p w l a w' l') : w'.log = w.log := by
  cases hs <;> rfl

/-- Whatever happens outside, the upstream only appends to its log. -/
theorem feedStep_cases {p : Process E V} {c c' : Feed E V} {act : FeedAct E}
    (hs : feedStep p c act = some c') :
    (∃ a, act = .listener a ∧ ListenerStep p c.world c.listener a c'.world c'.listener) ∨
    (∃ e, act = .publish e ∧ c.world.publish e = some c'.world ∧ c'.listener = c.listener) ∨
    (∃ i, act = .arrive i ∧ c.world.arrive i = some c'.world ∧ c'.listener = c.listener) := by
  cases act with
  | listener a =>
    obtain ⟨⟨w', l'⟩, hr, he⟩ := Option.map_eq_some_iff.mp hs
    cases he
    exact .inl ⟨a, rfl, listenerStep_cases hr⟩
  | publish e =>
    obtain ⟨w', hw, he⟩ := Option.map_eq_some_iff.mp hs
    cases he
    exact .inr (.inl ⟨e, rfl, hw, rfl⟩)
  | arrive i =>
    obtain ⟨w', hw, he⟩ := Option.map_eq_some_iff.mp hs
    cases he
    exact .inr (.inr ⟨i, rfl, hw, rfl⟩)

/-! ## The log -/

/-- The ids of the upstream are distinct and increase. -/
def Increasing (log : List (Entry E)) : Prop := log.Pairwise fun e e' => e.id < e'.id

theorem publish_cases {w w' : World E} {e : Entry E} (h : w.publish e = some w')
    (hlog : Increasing w.log) :
    w' = { w with log := w.log ++ [e] } ∧ Increasing w'.log := by
  unfold World.publish at h
  split_ifs at h with he
  cases h
  refine ⟨rfl, List.pairwise_append.mpr ⟨hlog, List.pairwise_singleton _ _, ?_⟩⟩
  intro e' he' e'' he''
  rw [List.mem_singleton.mp he'']
  exact he e' he'

theorem arrive_cases {w w' : World E} {i : ℕ} (h : w.arrive i = some w') :
    ∃ id ∈ w.lost, w' = { w.store id with lost := w.lost.eraseIdx i } := by
  obtain ⟨id, hid, hw⟩ := Option.map_eq_some_iff.mp h
  exact ⟨id, List.mem_of_getElem? hid, hw.symm⟩

/-! ## What is pushed -/

/-- The loop pushes every event that is not an ApiVersion and can be serialised. -/
def Process.pushes (p : Process E V) (data : SseEvent E) : Bool :=
  !data.isApiVersion && (p.sseToValue data).isSome

theorem feed_sources (p : Process E V) (l : Listener E V) (envelope : SseEnvelope E) :
    (l.feed p envelope).pushed.map Pushed.source =
      l.pushed.map Pushed.source ++ if p.pushes envelope.data then [envelope] else [] := by
  unfold Listener.feed Process.pushes
  cases envelope.data <;> cases p.sseToValue _ <;>
    simp [Listener.push, SseEvent.isApiVersion]

theorem feed_startFrom (p : Process E V) (l : Listener E V) (envelope : SseEnvelope E) :
    (l.feed p envelope).startFrom = l.startFrom := by
  unfold Listener.feed
  split <;> rfl

/-- The bus numbers and broadcasts what is pushed. -/
structure OnBus (l : Listener E V) : Prop where
  numbered : Numbered (fun x : Pushed E V => x.event.id) l.pushed
  nextId : l.bus.nextId = l.pushed.length
  sent : l.bus.sender.sent = l.pushed.map Pushed.event

theorem onBus_push {l : Listener E V} (h : OnBus l) (source : SseEnvelope E) (value : V) :
    OnBus (l.push source value) := by
  obtain ⟨hsender, hnext, -⟩ := append_fields l.bus.fetchAdd.1 ⟨l.bus.nextId + 1, value⟩
  refine ⟨h.numbered.append ?_, ?_, ?_⟩
  · change l.bus.nextId + 1 = l.pushed.length + 1
    rw [h.nextId]
  · change (l.bus.fetchAdd.1.append _).1.nextId = (l.pushed ++ [_]).length
    rw [hnext, List.length_append, ← h.nextId]
    rfl
  · change ((l.bus.fetchAdd.1.append _).1.sender.send _).sent = (l.pushed ++ [_]).map Pushed.event
    rw [hsender, List.map_append, ← h.sent]
    rfl

theorem onBus_feed {p : Process E V} {l : Listener E V} (h : OnBus l) (envelope : SseEnvelope E) :
    OnBus (l.feed p envelope) := by
  unfold Listener.feed
  split
  · unfold EventBus.rememberApiVersion EventBus.setApiVersion
    cases l.bus.apiVersion <;> exact ⟨h.numbered, h.nextId, h.sent⟩
  · exact onBus_push h _ _
  · exact h

/-- **The bus carries what was pushed**, in order and numbered from one. -/
theorem onBus_listenerStep {p : Process E V} {w w' : World E} {l l' : Listener E V}
    {a : ListenerAct E} (h : OnBus l) (hs : ListenerStep p w l a w' l') : OnBus l' := by
  cases hs with
  | deliver item hpc =>
    obtain ⟨hn, hid, hsent⟩ := onBus_feed (p := p) h item.envelope
    exact ⟨hn, hid, hsent⟩
  | _ => exact ⟨h.numbered, h.nextId, h.sent⟩

end CasperNodeProxy
