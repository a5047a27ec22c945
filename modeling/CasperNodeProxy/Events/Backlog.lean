import CasperNodeProxy.Events.Bus
import CasperNodeProxy.Lib.Run

/-!
# The contents of the backlog

After pushes that follow one another, the backlog holds the last ones of them.

* `pushAll`: one `push` after another; `exec_push`: a producer that nobody interrupts does a `push`.
* `Retains`: the backlog, the counter of ids and the metrics, in terms of the log of all pushes.
* `retains_push`, `retains_pushAll`: one push, and any number of them.
* **`backlog_exact`**: ids, data, snapshots and metrics after any number of pushes.
-/

namespace CasperNodeProxy

open Log Run

variable {V : Type}

/-- One push for each of the data, and the events that they return. -/
def EventBus.pushAll : EventBus V → List V → EventBus V × List (EventEnvelope V)
  | b, [] => (b, [])
  | b, d :: data =>
    let (b, e) := b.push d
    let (b, es) := b.pushAll data
    (b, e :: es)

/-- **The three steps of a producer, with none of another between them, are a `push`.** -/
theorem exec_push {h : Hub V} {i : ℕ} (hi : h.producers[i]? = some .idle) (data : V) :
    exec producerStep h [.push i data, .run i, .run i] =
      some { h with
        bus := (h.bus.push data).1
        pushed := h.pushed ++ [(h.bus.push data).2]
        appended := h.appended ++ [(h.bus.push data).2] } := by
  obtain ⟨hlt, hget⟩ := List.getElem?_eq_some_iff.mp hi
  have hset : h.producers.set i .idle = h.producers := by
    rw [← hget, List.set_getElem_self]
  simp only [exec, producerStep, hi, Option.bind_some, List.getElem?_set_self hlt, List.set_set,
    hset]
  rfl

/-! ## One push -/

/-- How many of `n` events the backlog retains. -/
def retained (backlogLimit n : ℕ) : ℕ := min n (max backlogLimit 1)

/-- The bus after the events of `log` were pushed. -/
structure Retains (backlogLimit : ℕ) (metrics : Bool) (log : List (EventEnvelope V))
    (b : EventBus V) : Prop where
  numbered : Numbered EventEnvelope.id log
  nextId : b.nextId = log.length
  limit : b.backlogLimit = max backlogLimit 1
  backlog : b.backlog = window b.backlogLimit log
  metrics : b.metrics = if metrics then
    some ⟨retained backlogLimit log.length, log.length - retained backlogLimit log.length⟩ else none

theorem retains_new (backlogLimit broadcastCapacity : ℕ) (metrics : Bool) :
    Retains backlogLimit metrics []
      (EventBus.new backlogLimit broadcastCapacity metrics : EventBus V) := by
  refine ⟨numbered_nil, rfl, rfl, (window_nil _).symm, ?_⟩
  cases metrics
  · rfl
  · simp [EventBus.new, retained]

variable {backlogLimit : ℕ} {metrics : Bool} {log : List (EventEnvelope V)} {b : EventBus V}

/-! ## The fields after a push -/

theorem push_snd (b : EventBus V) (d : V) : (b.push d).2 = ⟨b.nextId + 1, d⟩ := rfl

theorem push_fields (b : EventBus V) (d : V) :
    (b.push d).1.nextId = b.nextId + 1 ∧ (b.push d).1.backlogLimit = b.backlogLimit := by
  obtain ⟨-, hnext, hlimit, -⟩ := append_fields b.fetchAdd.1 ⟨b.nextId + 1, d⟩
  exact ⟨hnext, hlimit⟩

theorem push_backlog (b : EventBus V) (d : V) :
    (b.push d).1.backlog =
      if b.backlogLimit < (b.backlog ++ [(b.push d).2]).length then
        (b.backlog ++ [(b.push d).2]).tail
      else b.backlog ++ [(b.push d).2] :=
  append_backlog b.fetchAdd.1 (b.push d).2

/-- The gauge is the length of the backlog; the counter counts the evictions. -/
theorem push_metrics (b : EventBus V) (d : V) :
    (b.push d).1.metrics = b.metrics.map fun m =>
      ⟨(b.push d).1.backlog.length,
        if b.backlogLimit < b.backlog.length + 1 then m.backlogDropped + 1
        else m.backlogDropped⟩ := by
  obtain ⟨_, backlog, _, limit, _, _, metrics⟩ := b
  by_cases hfull : limit < backlog.length + 1
  · cases metrics <;> simp [EventBus.push, EventBus.fetchAdd, EventBus.append, EventBus.broadcast,
      hfull]
  · cases metrics <;> simp [EventBus.push, EventBus.fetchAdd, EventBus.append, EventBus.broadcast,
      hfull]

/-! ## One push, and many -/

theorem retains_push (h : Retains backlogLimit metrics log b) (d : V) :
    Retains backlogLimit metrics (log ++ [(b.push d).2]) (b.push d).1 := by
  obtain ⟨hnext, hlimit⟩ := push_fields b d
  have hb := h.limit
  have hlen : b.backlog.length = min log.length b.backlogLimit := by
    rw [h.backlog, length_window]
  have hwindow : (b.push d).1.backlog = window b.backlogLimit (log ++ [(b.push d).2]) := by
    rw [push_backlog, window_append (by omega), h.backlog]
  have hlen' : (b.push d).1.backlog.length = min (log.length + 1) b.backlogLimit := by
    rw [hwindow, length_window, List.length_append, List.length_singleton]
  refine ⟨h.numbered.append ?_, ?_, hlimit.trans hb, ?_, ?_⟩
  · rw [push_snd, h.nextId]
  · rw [hnext, h.nextId, List.length_append, List.length_singleton]
  · rw [hlimit, hwindow]
  · rw [push_metrics, h.metrics, List.length_append, List.length_singleton, hlen', hlen, hb]
    cases metrics with
    | false => rfl
    | true =>
      simp only [if_true, Option.map_some, Option.some.injEq, SseMetrics.mk.injEq, retained]
      refine ⟨trivial, ?_⟩
      split_ifs with hfull <;> omega

theorem retains_pushAll (h : Retains backlogLimit metrics log b) (data : List V) :
    Retains backlogLimit metrics (log ++ (b.pushAll data).2) (b.pushAll data).1 ∧
      (b.pushAll data).2.map EventEnvelope.data = data := by
  induction data generalizing log b with
  | nil =>
    refine ⟨?_, rfl⟩
    rwa [EventBus.pushAll, List.append_nil]
  | cons d data ih =>
    obtain ⟨hr, hdata⟩ := ih (retains_push h d)
    rw [List.append_assoc] at hr
    refine ⟨hr, ?_⟩
    simp only [EventBus.pushAll, List.map_cons, hdata]
    rfl

/-! ## The contents -/

/-- What `n` pushes of `data` leave behind and return, when `k` events are retained. -/
structure Contents (data : List V) (n k : ℕ) (metrics : Bool) (b : EventBus V)
    (returned : List (EventEnvelope V)) : Prop where
  returned_ids : returned.map EventEnvelope.id = List.range' 1 n
  returned_data : returned.map EventEnvelope.data = data
  ids : b.backlog.map EventEnvelope.id = List.range' (n - k + 1) k
  data : b.backlog.map EventEnvelope.data = data.drop (n - k)
  /-- Of the ids from `n - k + 1` on, those below `s` are left out. -/
  snapshot : ∀ s, b.snapshotFrom s = b.backlog.drop (s - (n - k + 1))
  metrics : b.metrics = if metrics then some ⟨k, n - k⟩ else none

/-- **The exact contents of the backlog.** -/
theorem backlog_exact (backlogLimit broadcastCapacity : ℕ) (metrics : Bool) (data : List V) :
    Contents data data.length (min data.length (max backlogLimit 1)) metrics
      ((EventBus.new backlogLimit broadcastCapacity metrics).pushAll data).1
      ((EventBus.new backlogLimit broadcastCapacity metrics).pushAll data).2 := by
  obtain ⟨hr, hdata⟩ := retains_pushAll (retains_new backlogLimit broadcastCapacity metrics) data
  generalize (EventBus.new backlogLimit broadcastCapacity metrics).pushAll data = r at hr hdata ⊢
  have hlen : r.2.length = data.length := by
    rw [← List.length_map EventEnvelope.data, hdata]
  rw [List.nil_append] at hr
  have hback : r.1.backlog = r.2.drop (data.length - min data.length (max backlogLimit 1)) := by
    rw [hr.backlog, window, hlen, hr.limit]
    congr 1
    omega
  have hids : r.2.map EventEnvelope.id = List.range' 1 data.length := by
    rw [hr.numbered.map_eq, hlen]
  refine ⟨hids, hdata, ?_, ?_, fun s => ?_, ?_⟩
  · rw [hback, List.map_drop, hids, List.drop_range']
    congr 1 <;> omega
  · rw [hback, List.map_drop, hdata]
  · rw [EventBus.snapshotFrom, hback, hr.numbered.filter_le, List.drop_drop]
    congr 1
    omega
  · have hm := hr.metrics
    rwa [hlen] at hm

example : ((EventBus.new 3 16 false : EventBus ℕ).pushAll [0, 1, 2, 3, 4]).1.snapshotFrom 1 =
    [⟨3, 2⟩, ⟨4, 3⟩, ⟨5, 4⟩] := by
  decide

end CasperNodeProxy
