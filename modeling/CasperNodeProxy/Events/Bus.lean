import CasperNodeProxy.Lib.Channel
import CasperNodeProxy.Lib.Log

/-!
# The event bus

`EventBus` with the atomic steps of `push`: the id is drawn, the event is appended to the backlog
under its lock, and it is broadcast. Ids are natural numbers, as those of the source are below 2⁶⁴:
all results about ids are about the first 2⁶⁴ - 1 pushes of a bus.

* `EventBus` and its operations.
* `PushPc`, `Hub`, `producerStep`: producers in the middle of a `push`, over one bus.
* `windowed_step`: the backlog is a window of what was appended, for any number of producers.
* **`InOrder`**: with one producer, the log that is pushed, the one that is appended and the one
  that is broadcast are prefixes of each other.
-/

namespace CasperNodeProxy

open Channel Log

variable {V : Type}

/-- An event with the id that the proxy gave it. -/
structure EventEnvelope (V : Type) where
  id : ℕ
  data : V
  deriving DecidableEq, Repr

/-- The two metrics of the backlog. -/
structure SseMetrics where
  backlogSize : ℕ
  backlogDropped : ℕ
  deriving DecidableEq, Repr

/-- The bus of a network: its channel, its backlog and its ApiVersion. -/
structure EventBus (V : Type) where
  sender : Sender (EventEnvelope V)
  /-- The oldest event first. -/
  backlog : List (EventEnvelope V)
  nextId : ℕ
  backlogLimit : ℕ
  apiVersion : Option V
  apiVersionNotify : Notify
  metrics : Option SseMetrics

namespace EventBus

/-- `EventBus::new`; limits of 0 are raised to 1. -/
def new (backlogLimit broadcastCapacity : ℕ) (metrics : Bool) : EventBus V where
  sender := channel (max broadcastCapacity 1)
  backlog := []
  nextId := 0
  backlogLimit := max backlogLimit 1
  apiVersion := none
  apiVersionNotify := .new
  metrics := if metrics then some ⟨0, 0⟩ else none

/-! ## `push` -/

/-- `next_id.fetch_add(1) + 1`. -/
def fetchAdd (b : EventBus V) : EventBus V × ℕ := ({ b with nextId := b.nextId + 1 }, b.nextId + 1)

/-- What `push` does under the lock of the backlog, and the length of the backlog then. -/
def append (b : EventBus V) (e : EventEnvelope V) : EventBus V × ℕ :=
  let backlog := b.backlog ++ [e]
  if b.backlogLimit < backlog.length then
    ({ b with
      backlog := backlog.tail
      metrics := b.metrics.map fun m => { m with backlogDropped := m.backlogDropped + 1 } },
      backlog.tail.length)
  else ({ b with backlog := backlog }, backlog.length)

/-- The end of `push`: the backlog gauge is set and the event is sent. -/
def broadcast (b : EventBus V) (e : EventEnvelope V) (backlogLen : ℕ) : EventBus V :=
  { b with
    metrics := b.metrics.map fun m => { m with backlogSize := backlogLen }
    sender := b.sender.send e }

/-- A `push` that nothing interrupts. -/
def push (b : EventBus V) (data : V) : EventBus V × EventEnvelope V :=
  let (b, id) := b.fetchAdd
  let e := ⟨id, data⟩
  let (b, len) := b.append e
  (b.broadcast e len, e)

/-! ## The other operations -/

/-- `snapshot_from`, which is inclusive. -/
def snapshotFrom (b : EventBus V) (startFrom : ℕ) : List (EventEnvelope V) :=
  b.backlog.filter fun e => startFrom ≤ e.id

/-- `EventBus::subscribe`. -/
def subscribe (b : EventBus V) : Receiver := b.sender.subscribe

/-- `api_version.set`, and whether it stored the value. -/
def setApiVersion (b : EventBus V) (data : V) : EventBus V × Bool :=
  match b.apiVersion with
  | some _ => (b, false)
  | none => ({ b with apiVersion := some data }, true)

/-- `notify_waiters` of the ApiVersion. -/
def notifyWaiters (b : EventBus V) : EventBus V :=
  { b with apiVersionNotify := b.apiVersionNotify.notifyWaiters }

end EventBus

/-! ## Producers -/

/-- A producer between two calls of `push`, or in front of one of the last two steps of one. -/
inductive PushPc (V : Type)
  | idle
  | append (e : EventEnvelope V)
  | broadcast (e : EventEnvelope V) (backlogLen : ℕ)
  deriving DecidableEq

/-- A bus, its producers, and two records for the proofs: the events in the order of their ids, and
in the order in which they were appended to the backlog. -/
structure Hub (V : Type) where
  bus : EventBus V
  producers : List (PushPc V)
  pushed : List (EventEnvelope V)
  appended : List (EventEnvelope V)

/-- What producer `i` does: it calls `push`, or goes on with the call. -/
inductive ProducerAct (V : Type)
  | push (i : ℕ) (data : V)
  | run (i : ℕ)

namespace Hub

/-- A new bus, and producers that push nothing yet. -/
def init (producers backlogLimit broadcastCapacity : ℕ) (metrics : Bool) : Hub V :=
  ⟨.new backlogLimit broadcastCapacity metrics, List.replicate producers .idle, [], []⟩

/-- What was broadcast so far. -/
def sent (h : Hub V) : List (EventEnvelope V) := h.bus.sender.sent

end Hub

/-- One step of a producer. -/
def producerStep (h : Hub V) : ProducerAct V → Option (Hub V)
  | .push i data =>
    match h.producers[i]? with
    | some .idle =>
      let (bus, id) := h.bus.fetchAdd
      some { h with
        bus := bus
        producers := h.producers.set i (.append ⟨id, data⟩)
        pushed := h.pushed ++ [⟨id, data⟩] }
    | _ => none
  | .run i =>
    match h.producers[i]? with
    | some (.append e) =>
      let (bus, len) := h.bus.append e
      some { h with
        bus := bus
        producers := h.producers.set i (.broadcast e len)
        appended := h.appended ++ [e] }
    | some (.broadcast e len) =>
      some { h with
        bus := h.bus.broadcast e len
        producers := h.producers.set i .idle }
    | _ => none

/-! ## What a step of a producer can be -/

@[simp] theorem append_fields (b : EventBus V) (e : EventEnvelope V) :
    (b.append e).1.sender = b.sender ∧ (b.append e).1.nextId = b.nextId ∧
    (b.append e).1.backlogLimit = b.backlogLimit ∧ (b.append e).1.apiVersion = b.apiVersion ∧
    (b.append e).1.apiVersionNotify = b.apiVersionNotify := by
  simp only [EventBus.append]
  split_ifs <;> exact ⟨rfl, rfl, rfl, rfl, rfl⟩

/-- One step of a producer, by what it does to the bus and to the records. -/
inductive ProducerStep (h h' : Hub V) : Prop
  | push (i : ℕ) (data : V) (hi : h.producers[i]? = some .idle)
      (hh : h' = { h with
        bus := h.bus.fetchAdd.1
        producers := h.producers.set i (.append ⟨h.bus.nextId + 1, data⟩)
        pushed := h.pushed ++ [⟨h.bus.nextId + 1, data⟩] })
  | append (i : ℕ) (e : EventEnvelope V) (hi : h.producers[i]? = some (.append e))
      (hh : h' = { h with
        bus := (h.bus.append e).1
        producers := h.producers.set i (.broadcast e (h.bus.append e).2)
        appended := h.appended ++ [e] })
  | broadcast (i : ℕ) (e : EventEnvelope V) (len : ℕ)
      (hi : h.producers[i]? = some (.broadcast e len))
      (hh : h' = { h with
        bus := h.bus.broadcast e len
        producers := h.producers.set i .idle })

theorem producerStep_cases {h h' : Hub V} {a : ProducerAct V} (hs : producerStep h a = some h') :
    ProducerStep h h' := by
  cases a with
  | push i data =>
    simp only [producerStep] at hs
    split at hs
    · next hi => exact .push i data hi (Option.some.inj hs).symm
    · cases hs
  | run i =>
    simp only [producerStep] at hs
    split at hs
    · next e hi => exact .append i e hi (Option.some.inj hs).symm
    · next e len hi => exact .broadcast i e len hi (Option.some.inj hs).symm
    · cases hs

/-! ## The backlog -/

/-- The backlog holds the events that were appended last. -/
structure Windowed (h : Hub V) : Prop where
  limit : 0 < h.bus.backlogLimit
  backlog : h.bus.backlog = window h.bus.backlogLimit h.appended

theorem append_backlog (b : EventBus V) (e : EventEnvelope V) :
    (b.append e).1.backlog =
      if b.backlogLimit < (b.backlog ++ [e]).length then (b.backlog ++ [e]).tail
      else b.backlog ++ [e] := by
  simp only [EventBus.append]
  split_ifs <;> rfl

theorem windowed_init (k backlogLimit broadcastCapacity : ℕ) (metrics : Bool) :
    Windowed (Hub.init k backlogLimit broadcastCapacity metrics : Hub V) :=
  ⟨lt_of_lt_of_le Nat.one_pos (le_max_right _ _), (window_nil _).symm⟩

/-- **The backlog is a window of the log**, whatever the producers do. -/
theorem windowed_step {h h' : Hub V} {a : ProducerAct V} (hw : Windowed h)
    (hs : producerStep h a = some h') : Windowed h' := by
  cases producerStep_cases hs with
  | push i data hi hh => exact hh ▸ ⟨hw.limit, hw.backlog⟩
  | broadcast i e len hi hh => exact hh ▸ ⟨hw.limit, hw.backlog⟩
  | append i e hi hh =>
    obtain ⟨-, -, hl, -⟩ := append_fields h.bus e
    rw [hh]
    refine ⟨?_, ?_⟩
    · dsimp only
      rw [hl]
      exact hw.limit
    · dsimp only
      rw [hl, append_backlog, window_append hw.limit, hw.backlog]

/-! ## One producer -/

/-- With one producer the three logs only differ by the event that is being pushed. -/
inductive Pending : List (PushPc V) → List (EventEnvelope V) → List (EventEnvelope V) →
    List (EventEnvelope V) → Prop
  | idle (l : List (EventEnvelope V)) : Pending [.idle] l l l
  | append (l : List (EventEnvelope V)) (e : EventEnvelope V) :
      Pending [.append e] (l ++ [e]) l l
  | broadcast (l : List (EventEnvelope V)) (e : EventEnvelope V) (len : ℕ) :
      Pending [.broadcast e len] (l ++ [e]) (l ++ [e]) l

/-- The bus of one producer. -/
structure InOrder (h : Hub V) : Prop where
  numbered : Numbered EventEnvelope.id h.pushed
  nextId : h.bus.nextId = h.pushed.length
  pending : Pending h.producers h.pushed h.appended h.sent
  windowed : Windowed h

theorem inOrder_init (backlogLimit broadcastCapacity : ℕ) (metrics : Bool) :
    InOrder (Hub.init 1 backlogLimit broadcastCapacity metrics : Hub V) :=
  ⟨numbered_nil, rfl, .idle _, windowed_init _ _ _ _⟩

section Pending

variable {ps : List (PushPc V)} {p a s : List (EventEnvelope V)} {i : ℕ} {e : EventEnvelope V}

theorem singleton_eq {x y : PushPc V} (h : [x][i]? = some y) : i = 0 ∧ x = y := by
  rw [List.getElem?_singleton] at h
  split_ifs at h with hi
  exact ⟨hi, Option.some.inj h⟩

theorem pending_push (h : Pending ps p a s) (hi : ps[i]? = some .idle) :
    Pending (ps.set i (.append e)) (p ++ [e]) a s := by
  cases h with
  | idle =>
    obtain ⟨rfl, -⟩ := singleton_eq hi
    exact .append _ _
  | append | broadcast => cases (singleton_eq hi).2

theorem pending_append (h : Pending ps p a s) (hi : ps[i]? = some (.append e)) (len : ℕ) :
    Pending (ps.set i (.broadcast e len)) p (a ++ [e]) s := by
  cases h with
  | append =>
    obtain ⟨rfl, he⟩ := singleton_eq hi
    cases he
    exact .broadcast _ _ _
  | idle | broadcast => cases (singleton_eq hi).2

theorem pending_broadcast {len : ℕ} (h : Pending ps p a s)
    (hi : ps[i]? = some (.broadcast e len)) : Pending (ps.set i .idle) p a (s ++ [e]) := by
  cases h with
  | broadcast =>
    obtain ⟨rfl, he⟩ := singleton_eq hi
    cases he
    exact .idle _
  | idle | append => cases (singleton_eq hi).2

end Pending

/-- **One producer keeps the order.** -/
theorem inOrder_step {h h' : Hub V} {a : ProducerAct V} (ho : InOrder h)
    (hs : producerStep h a = some h') : InOrder h' := by
  have hw := windowed_step ho.windowed hs
  cases producerStep_cases hs with
  | push i data hi hh =>
    have hid : h.bus.nextId + 1 = h.pushed.length + 1 := by rw [ho.nextId]
    rw [hh] at hw ⊢
    refine ⟨ho.numbered.append hid, ?_, pending_push ho.pending hi, hw⟩
    dsimp only [EventBus.fetchAdd]
    rw [ho.nextId, List.length_append, List.length_singleton]
  | append i e hi hh =>
    obtain ⟨hsender, hnext, -⟩ := append_fields h.bus e
    rw [hh] at hw ⊢
    refine ⟨ho.numbered, hnext.trans ho.nextId, ?_, hw⟩
    dsimp only [Hub.sent]
    rw [hsender]
    exact pending_append ho.pending hi _
  | broadcast i e len hi hh =>
    rw [hh] at hw ⊢
    exact ⟨ho.numbered, ho.nextId, pending_broadcast ho.pending hi, hw⟩

/-- What is broadcast was appended, and what is appended was pushed. -/
theorem Pending.prefixes {ps : List (PushPc V)} {p a s : List (EventEnvelope V)}
    (h : Pending ps p a s) : s <+: a ∧ a <+: p ∧ a.length ≤ s.length + 1 := by
  cases h with
  | idle l => exact ⟨List.prefix_refl _, List.prefix_refl _, Nat.le_succ _⟩
  | append l e => exact ⟨List.prefix_refl _, List.prefix_append _ _, Nat.le_succ _⟩
  | broadcast l e len =>
    refine ⟨List.prefix_append _ _, List.prefix_refl _, ?_⟩
    rw [List.length_append, List.length_singleton]

theorem Pending.append_eq {ps : List (PushPc V)} {p a s : List (EventEnvelope V)} {i : ℕ}
    {e : EventEnvelope V} (h : Pending ps p a s) (hi : ps[i]? = some (.append e)) :
    p = a ++ [e] := by
  cases h with
  | append =>
    cases (singleton_eq hi).2
    rfl
  | idle | broadcast => cases (singleton_eq hi).2

theorem Pending.broadcast_eq {ps : List (PushPc V)} {p a s : List (EventEnvelope V)} {i len : ℕ}
    {e : EventEnvelope V} (h : Pending ps p a s) (hi : ps[i]? = some (.broadcast e len)) :
    p = s ++ [e] := by
  cases h with
  | broadcast =>
    cases (singleton_eq hi).2
    rfl
  | idle | append => cases (singleton_eq hi).2

/-! ## The bus only grows -/

/-- What every step guarantees to the clients of the bus. -/
structure Grows (h h' : Hub V) : Prop where
  pushed : h.pushed <+: h'.pushed
  appended : h.appended <+: h'.appended
  sent : h.sent <+: h'.sent
  limit : h'.bus.backlogLimit = h.bus.backlogLimit
  apiVersion : ∀ v, h.bus.apiVersion = some v → h'.bus.apiVersion = some v
  notified : h.bus.apiVersionNotify.calls ≤ h'.bus.apiVersionNotify.calls

theorem Grows.refl (h : Hub V) : Grows h h :=
  ⟨List.prefix_refl _, List.prefix_refl _, List.prefix_refl _, rfl, fun _ hv => hv, le_rfl⟩

theorem grows_producerStep {h h' : Hub V} {a : ProducerAct V} (hs : producerStep h a = some h') :
    Grows h h' := by
  cases producerStep_cases hs with
  | push i data hi hh =>
    rw [hh]
    exact ⟨List.prefix_append _ _, List.prefix_refl _, List.prefix_refl _, rfl, fun _ hv => hv,
      le_rfl⟩
  | append i e hi hh =>
    obtain ⟨hsender, -, hlimit, hversion, hnotify⟩ := append_fields h.bus e
    rw [hh]
    refine ⟨List.prefix_refl _, List.prefix_append _ _, ?_, hlimit, ?_, ?_⟩
    · dsimp only [Hub.sent]
      rw [hsender]
    · intro v hv
      exact hversion.trans hv
    · dsimp only
      rw [hnotify]
  | broadcast i e len hi hh =>
    rw [hh]
    exact ⟨List.prefix_refl _, List.prefix_refl _, List.prefix_append _ _, rfl, fun _ hv => hv,
      le_rfl⟩

end CasperNodeProxy
