import CasperNodeProxy.Events.Order

/-!
# What a replaying client may lose

An event that is broadcast after a client subscribed comes to it through its queue. The filter
`event.id > last_sent_id` drops it again when the snapshot reaches past it; the snapshot contains it
only if the backlog has not evicted it by then.

* `Lossless`: what a client reads from its queue is delivered, by the snapshot or by the queue.
* `InTime`: when the snapshot is taken, no such event has been evicted.
* `Live.lossless_iff`: the events that are lost are the evicted ones.
* **`lossless_of_inTime`**: a snapshot in time loses nothing; what exactly a later one loses.
-/

namespace CasperNodeProxy

open Channel Log Run

variable {V : Type} {h : Hub V} {c : Client V}

/-- Of the events that were broadcast after the client subscribed and that it has read from its
queue, every one from `startFrom` on was delivered, unless it was reported as lagged. -/
def Lossless (h : Hub V) (startFrom : ℕ) (c : Client V) : Prop :=
  ∀ e ∈ (h.sent.take c.liveRx.next).drop c.joined,
    startFrom ≤ e.id → e.id ∉ c.missedIds → e ∈ c.delivered

/-- When the snapshot is taken, the backlog has evicted no event from `startFrom` on that was
broadcast after the client subscribed. -/
def InTime (backlogLimit startFrom : ℕ) (c : Client V) : Prop :=
  c.appendedAt - backlogLimit ≤ max c.joined (startFrom - 1)

theorem mem_queue_iff (ho : InOrder h) (hn : c.liveRx.next ≤ h.sent.length) {e : EventEnvelope V} :
    e ∈ (h.sent.take c.liveRx.next).drop c.joined ↔
      e ∈ h.pushed ∧ c.joined < e.id ∧ e.id ≤ c.liveRx.next := by
  have hpre := ho.sent_appended.trans ho.appended_pushed
  rw [← prefix_take hpre hn, (ho.numbered.take _).mem_drop_iff, ho.numbered.mem_take_iff]
  tauto

/-- **What is lost**: exactly what the backlog had evicted when the snapshot was taken. -/
theorem Live.lossless_iff (ho : InOrder h) (hl : Live h c) {s : ℕ} (hs : c.startFrom = some s) :
    Lossless h s c ↔ ∀ n, max c.joined (s - 1) < n → n ≤ c.liveRx.next →
      n ≤ c.appendedAt - h.bus.backlogLimit → n ∈ c.missedIds := by
  have hle := hl.next.trans ho.sent_le
  obtain ⟨hj, ha, hsnap⟩ := hl.taken.present s hs
  unfold Lossless
  constructor
  · intro hall n h1 h2 h3
    obtain ⟨e, hmem, hid⟩ := exists_event ho (by omega) (h2.trans hle)
    by_contra hmissed
    have hdel := hall e ((mem_queue_iff ho hl.next).mpr ⟨hmem, by omega, by omega⟩) (by omega)
      (hid ▸ hmissed)
    rw [hl.delivered, List.mem_append] at hdel
    rcases hdel with hdel | hdel
    · -- the snapshot begins behind it
      have hin := ((mem_snapshot_iff ho hl.taken hs).mp hdel).2.1
      unfold skipped at hin
      omega
    · -- and the queue goes on behind the snapshot
      have hq := ((mem_fromQueue_iff ho).mp hdel).2.1
      have hne : c.snapshot ≠ [] := by
        intro hnil
        have hlen := congrArg List.length (hsnap.symm.trans hnil)
        have hpos := ho.windowed.limit
        have hp := ho.appended_pushed.length_le
        rw [List.length_drop, List.length_take_of_le (ha.trans hp), List.length_nil] at hlen
        unfold skipped at hlen
        omega
      rw [hl.taken.covered_eq ho hne] at hq
      omega
  · intro hall e he h1 h2
    obtain ⟨hmem, h3, h4⟩ := (mem_queue_iff ho hl.next).mp he
    rw [hl.delivered, List.mem_append]
    by_cases hcov : c.covered < e.id
    · right
      rw [mem_fromQueue_iff ho]
      exact ⟨hmem, by omega, h4, h2⟩
    · left
      have hne : c.snapshot ≠ [] := by
        intro hnil
        unfold Client.covered at hcov
        rw [hnil] at hcov
        exact hcov (by simpa [lastId] using (by omega : 0 < e.id))
      rw [hl.taken.covered_eq ho hne] at hcov
      rw [mem_snapshot_iff ho hl.taken hs]
      refine ⟨hmem, ?_, by omega⟩
      have hkept : ¬ e.id ≤ c.appendedAt - h.bus.backlogLimit := fun hev =>
        h2 (hall _ (by omega) h4 hev)
      unfold skipped
      omega

/-- A client that has read its whole queue and never lagged lost nothing just when its snapshot was
in time. -/
theorem Live.lossless_iff_inTime (ho : InOrder h) (hl : Live h c) {s : ℕ}
    (hs : c.startFrom = some s) (hdrained : c.liveRx.next = h.sent.length) (hlag : c.missed = []) :
    Lossless h s c ↔ InTime h.bus.backlogLimit s c := by
  have hpos := ho.windowed.limit
  have hsent := ho.pending.prefixes.2.2
  have ha := (hl.taken.present s hs).2.1
  have hmissed : c.missedIds = [] := by
    unfold Client.missedIds
    rw [hlag, List.map_nil]
  rw [hl.lossless_iff ho hs]
  unfold InTime
  constructor
  · intro hall
    by_contra hlate
    have := hall (c.appendedAt - h.bus.backlogLimit) (by omega) (by omega) le_rfl
    rw [hmissed] at this
    cases this
  · intro hin n h1 h2 h3
    omega

/-! ## Every run -/

/-- **What a replaying client loses.** With one producer, for both handlers: a client whose snapshot
is in time loses nothing of what it reads from its queue. Any client loses nothing of it if and only
if every event that it wanted, has read and had been evicted when it took its snapshot was reported
as lagged; and one that has drained its queue without lag, if and only if its snapshot was in
time. -/
theorem lossless_of_inTime (backlogLimit broadcastCapacity : ℕ) (metrics : Bool) {c : EventConf V}
    (h : Reaches eventStep (eventInit 1 backlogLimit broadcastCapacity metrics) c) :
    ∀ d s, .client d ∈ c.tasks → d.startFrom = some s → d.pc = .live →
      (InTime (max backlogLimit 1) s d → Lossless c.shared s d) ∧
      (Lossless c.shared s d ↔ ∀ n, max d.joined (s - 1) < n → n ≤ d.liveRx.next →
        n ≤ d.appendedAt - max backlogLimit 1 → n ∈ d.missedIds) ∧
      (d.liveRx.next = c.shared.sent.length → d.missed = [] →
        (Lossless c.shared s d ↔ InTime (max backlogLimit 1) s d)) := by
  intro d s hd hs hpc
  obtain ⟨ho, hall⟩ := delivery_reaches h
  have hl : Live c.shared d := by
    have hdel := hall d hd
    rw [hpc] at hdel
    exact hdel
  rw [← limit_reaches h]
  refine ⟨fun hin => ?_, hl.lossless_iff ho hs,
    fun hdrained hlag => hl.lossless_iff_inTime ho hs hdrained hlag⟩
  rw [hl.lossless_iff ho hs]
  unfold InTime at hin
  intro n h1 h2 h3
  omega

/-- A websocket client wants everything from the beginning. While it waits for the ApiVersion two
events are broadcast, and the backlog keeps only one. -/
def lateSnapshotRun : List (EventAct ℕ) :=
  [.spawn (.client .websocket (some 0)), .task 0 .run, .task 0 .run, .task 0 .run,
    .env (.push 0 10), .env (.run 0), .env (.run 0), .env (.push 0 20), .env (.run 0),
    .env (.run 0), .spawn (.setter 7), .task 1 .run, .task 1 .run, .task 0 .run, .task 0 .run,
    .task 0 .run, .task 0 .run, .task 0 .run, .task 0 .run, .task 0 .run, .task 0 .run,
    .task 0 .run]

theorem lateSnapshotRun_client :
    (exec eventStep (eventInit 1 1 2 false) lateSnapshotRun).bind (fun c => (clientAt c 0).map
      fun d => (d.startFrom, d.pc, d.joined, d.appendedAt, d.liveRx.next, c.shared.sent, d.missed,
        d.delivered)) =
    some (some 0, .live, 0, 2, 2, [⟨1, 10⟩, ⟨2, 20⟩], [], [⟨2, 20⟩]) := rfl

theorem lateSnapshotRun_kept :
    (exec eventStep (eventInit 1 2 2 false) lateSnapshotRun).bind (fun c => (clientAt c 0).map
      fun d => (d.startFrom, d.pc, d.joined, d.appendedAt)) = some (some 0, .live, 0, 2) := rfl

/-- **An event is lost.** The client has read its whole queue and never lagged; the first event was
broadcast after it subscribed, and it is not delivered. -/
theorem event_lost :
    ∃ c d e, exec eventStep (eventInit 1 1 2 false) lateSnapshotRun = some c ∧
      clientAt c 0 = some d ∧ d.startFrom = some 0 ∧ d.pc = .live ∧
      d.liveRx.next = c.shared.sent.length ∧ d.missed = [] ∧
      e ∈ c.shared.sent.drop d.joined ∧ 0 ≤ e.id ∧ e ∉ d.delivered := by
  obtain ⟨c, d, hc, hd, hfields⟩ := exec_observed lateSnapshotRun_client
  simp only [Prod.mk.injEq] at hfields
  obtain ⟨hs, hpc, hj, -, hn, hsent, hlag, hdel⟩ := hfields
  refine ⟨c, d, ⟨1, 10⟩, hc, hd, hs, hpc, ?_, hlag, ?_, Nat.zero_le _, ?_⟩
  · rw [hn, hsent]
    rfl
  · rw [hsent, hj]
    decide
  · rw [hdel]
    decide

/-- That client took its snapshot too late; with room for one more event in the backlog it is in
time, and loses nothing. -/
theorem lateSnapshotRun_inTime :
    (∃ c d, exec eventStep (eventInit 1 1 2 false) lateSnapshotRun = some c ∧
      clientAt c 0 = some d ∧ ¬ InTime (max 1 1) 0 d) ∧
    ∃ c d, exec eventStep (eventInit 1 2 2 false) lateSnapshotRun = some c ∧
      clientAt c 0 = some d ∧ InTime (max 2 1) 0 d ∧ Lossless c.shared 0 d := by
  constructor
  · obtain ⟨c, d, hc, hd, hfields⟩ := exec_observed lateSnapshotRun_client
    simp only [Prod.mk.injEq] at hfields
    obtain ⟨-, -, hj, ha, -⟩ := hfields
    refine ⟨c, d, hc, hd, ?_⟩
    unfold InTime
    rw [hj, ha]
    decide
  · obtain ⟨c, d, hc, hd, hfields⟩ := exec_observed lateSnapshotRun_kept
    simp only [Prod.mk.injEq] at hfields
    obtain ⟨hs, hpc, hj, ha⟩ := hfields
    have hin : InTime (max 2 1) 0 d := by
      unfold InTime
      rw [hj, ha]
      decide
    exact ⟨c, d, hc, hd, hin,
      (lossless_of_inTime 2 2 false ⟨_, hc⟩ d 0 (clientAt_mem hd) hs hpc).1 hin⟩

end CasperNodeProxy
