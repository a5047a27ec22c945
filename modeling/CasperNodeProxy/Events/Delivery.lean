import CasperNodeProxy.Events.Handlers

/-!
# What a client is delivered

With one producer everything a client is sent is a part of the one log of the bus.

* `Replaying`, `Live`: while it replays, a client has been delivered a beginning of its snapshot;
  afterwards the snapshot, and then what it read from its queue behind the snapshot.
* `PcDelivery`: which of them counts at which point of the two handlers.
* `delivery_step`, `delivery_owned`: every step of a client keeps it, and nobody else disturbs it.
* **`delivery_reaches`**: the invariant of the bus and of every client in every reachable state.
-/

namespace CasperNodeProxy

open Channel Log Run

variable {V : Type}

/-! ## The stages of a client -/

/-- The ids that were reported as lagged. -/
def Client.missedIds (c : Client V) : List ℕ := c.missed.map (·.id)

/-- The id up to which the snapshot covers the log; 0 without one. -/
def Client.covered (c : Client V) : ℕ := lastId c.snapshot 0

/-- The first event of the snapshot stands behind this many, when `appended` are in the log. -/
def skipped (backlogLimit startFrom appended : ℕ) : ℕ :=
  max (appended - backlogLimit) (startFrom - 1)

/-- Nothing was delivered, and nothing will be replayed so far. -/
structure Blank (c : Client V) : Prop where
  delivered : c.delivered = []
  backlog : c.backlog = []
  snapshot : c.snapshot = []
  lastSentId : c.lastSentId = 0
  missed : c.missed = []

/-- The client has subscribed, and read nothing yet. -/
structure Joined (h : Hub V) (c : Client V) : Prop where
  next : c.liveRx.next = c.joined
  joined : c.joined ≤ h.sent.length
  missed : c.missed = []

/-- The snapshot was taken, unless the client does not want one. -/
structure Taken (h : Hub V) (c : Client V) : Prop where
  absent : c.startFrom = none → c.snapshot = []
  present : ∀ s, c.startFrom = some s → c.joined ≤ c.appendedAt ∧ c.appendedAt ≤ h.appended.length ∧
    c.snapshot = (h.pushed.take c.appendedAt).drop (skipped h.bus.backlogLimit s c.appendedAt)

/-- The client is at most replaying its snapshot. -/
structure Replaying (h : Hub V) (c : Client V) : Prop where
  joined : Joined h c
  taken : Taken h c
  split : c.delivered ++ c.backlog = c.snapshot

/-- What the client reads from its queue, behind the snapshot and without what it misses. -/
def fromQueue (h : Hub V) (c : Client V) : List (EventEnvelope V) :=
  ((h.pushed.take c.liveRx.next).drop (max c.joined c.covered)).filter
    fun e => e.id ∉ c.missedIds

/-- The client reads from its queue. -/
structure Live (h : Hub V) (c : Client V) : Prop where
  taken : Taken h c
  joined : c.joined ≤ c.liveRx.next
  next : c.liveRx.next ≤ h.sent.length
  delivered : c.delivered = c.snapshot ++ fromQueue h c
  missed : ∀ n ∈ c.missedIds, n ≤ c.liveRx.next
  covered : c.covered ≤ c.lastSentId
  lastSentId : c.lastSentId ≤ max c.covered c.liveRx.next

/-- What a client has been delivered, at any of its await points. -/
inductive Delivery (h : Hub V) (c : Client V) : Prop
  | blank (hb : Blank c)
  | replaying (hr : Replaying h c)
  | live (hl : Live h c)

/-- The invariant of a client at its await points. -/
def PcDelivery (h : Hub V) (kind : Kind) (c : Client V) : ClientPc V → Prop
  | .subscribe => Blank c
  | .snapshot => Blank c ∧ Joined h c
  | .wait _ => kind.select (Blank c ∧ Joined h c)
      (Replaying h c ∧ c.delivered = [] ∧ c.lastSentId = c.covered)
  | .replay => Replaying h c ∧ c.lastSentId = kind.select (lastId c.delivered 0) c.covered
  | .live => Live h c
  | .closed => Delivery h c

/-- The invariant of a task. -/
def TaskDelivery (h : Hub V) : Task V → Prop
  | .setter _ => True
  | .client c => PcDelivery h c.kind c c.pc

theorem PcDelivery.delivery {h : Hub V} {kind : Kind} {c : Client V} {pc : ClientPc V}
    (hc : PcDelivery h kind c pc) : Delivery h c := by
  cases pc with
  | subscribe => exact .blank hc
  | snapshot => exact .blank hc.1
  | wait w =>
    cases kind with
    | websocket => exact .blank hc.1
    | sse => exact .replaying hc.1
  | replay => exact .replaying hc.1
  | live => exact .live hc
  | closed => exact hc

section Pc

variable {h : Hub V} {c : Client V} (pc : ClientPc V)

/-! Where a client stands does not matter for what it has been delivered. -/

theorem Blank.withPc (hb : Blank c) : Blank { c with pc := pc } :=
  ⟨hb.delivered, hb.backlog, hb.snapshot, hb.lastSentId, hb.missed⟩

theorem Joined.withPc (hj : Joined h c) : Joined h { c with pc := pc } :=
  ⟨hj.next, hj.joined, hj.missed⟩

theorem Replaying.withPc (hr : Replaying h c) : Replaying h { c with pc := pc } :=
  ⟨hr.joined.withPc pc, ⟨hr.taken.absent, hr.taken.present⟩, hr.split⟩

theorem Live.withPc (hl : Live h c) : Live h { c with pc := pc } :=
  ⟨⟨hl.taken.absent, hl.taken.present⟩, hl.joined, hl.next, hl.delivered, hl.missed, hl.covered,
    hl.lastSentId⟩

theorem Delivery.withPc (hd : Delivery h c) : Delivery h { c with pc := pc } := by
  cases hd with
  | blank hb => exact .blank (hb.withPc pc)
  | replaying hr => exact .replaying (hr.withPc pc)
  | live hl => exact .live (hl.withPc pc)

theorem pcDelivery_live {c' : Client V} (hpc : c'.pc = .live) (hl : Live h c') :
    PcDelivery h c'.kind c' c'.pc := by
  rw [hpc]
  exact hl

end Pc

/-! ## The log only grows -/

section Grows

variable {h h' : Hub V} {c : Client V}

theorem InOrder.sent_appended (ho : InOrder h) : h.sent <+: h.appended := ho.pending.prefixes.1

theorem InOrder.appended_pushed (ho : InOrder h) : h.appended <+: h.pushed :=
  ho.pending.prefixes.2.1

theorem InOrder.sent_le (ho : InOrder h) : h.sent.length ≤ h.pushed.length :=
  (ho.sent_appended.trans ho.appended_pushed).length_le

theorem Joined.mono (hg : Grows h h') (hj : Joined h c) : Joined h' c :=
  ⟨hj.next, hj.joined.trans hg.sent.length_le, hj.missed⟩

theorem Taken.mono (ho : InOrder h) (hg : Grows h h') (ht : Taken h c) : Taken h' c := by
  refine ⟨ht.absent, fun s hs => ?_⟩
  obtain ⟨hj, ha, hsnap⟩ := ht.present s hs
  refine ⟨hj, ha.trans hg.appended.length_le, ?_⟩
  rw [hsnap, hg.limit, prefix_take hg.pushed (ha.trans ho.appended_pushed.length_le)]

theorem Replaying.mono (ho : InOrder h) (hg : Grows h h') (hr : Replaying h c) :
    Replaying h' c :=
  ⟨hr.joined.mono hg, hr.taken.mono ho hg, hr.split⟩

theorem Live.mono (ho : InOrder h) (hg : Grows h h') (hl : Live h c) : Live h' c := by
  have hq : fromQueue h' c = fromQueue h c := by
    unfold fromQueue
    rw [prefix_take hg.pushed (hl.next.trans ho.sent_le)]
  exact ⟨hl.taken.mono ho hg, hl.joined, hl.next.trans hg.sent.length_le, hq ▸ hl.delivered,
    hl.missed, hl.covered, hl.lastSentId⟩

theorem Delivery.mono (ho : InOrder h) (hg : Grows h h') (hd : Delivery h c) :
    Delivery h' c := by
  cases hd with
  | blank hb => exact .blank hb
  | replaying hr => exact .replaying (hr.mono ho hg)
  | live hl => exact .live (hl.mono ho hg)

theorem PcDelivery.mono {kind : Kind} {pc : ClientPc V} (ho : InOrder h) (hg : Grows h h')
    (hc : PcDelivery h kind c pc) : PcDelivery h' kind c pc := by
  cases pc with
  | subscribe => exact hc
  | snapshot => exact ⟨hc.1, hc.2.mono hg⟩
  | wait w =>
    cases kind with
    | websocket => exact ⟨hc.1, hc.2.mono hg⟩
    | sse => exact ⟨hc.1.mono ho hg, hc.2⟩
  | replay => exact ⟨hc.1.mono ho hg, hc.2⟩
  | live => exact Live.mono ho hg hc
  | closed => exact Delivery.mono ho hg hc

end Grows

/-! ## Frames -/

@[simp] theorem delivered_version (c : Client V) (data : V) :
    (c.send (.apiVersion data)).delivered = c.delivered := by
  simp [Client.delivered, Client.send]

@[simp] theorem delivered_event (c : Client V) (e : EventEnvelope V) :
    (c.send (.event e)).delivered = c.delivered ++ [e] := by
  simp [Client.delivered, Client.send]

@[simp] theorem lastId_append (l : List (EventEnvelope V)) (e : EventEnvelope V) (n : ℕ) :
    lastId (l ++ [e]) n = e.id := by
  simp [lastId]

/-! ## One step -/

section Step

variable {h : Hub V} {c : Client V}

/-- The snapshot is what is in the log behind the events that are skipped. -/
theorem snapshotFrom_eq (ho : InOrder h) (s : ℕ) :
    h.bus.snapshotFrom s = (h.pushed.take h.appended.length).drop
      (skipped h.bus.backlogLimit s h.appended.length) := by
  have hlog : h.pushed.take h.appended.length = h.appended := by
    rw [prefix_take ho.appended_pushed le_rfl, List.take_length]
  unfold EventBus.snapshotFrom skipped
  rw [hlog, ho.windowed.backlog]
  exact (ho.numbered.initial ho.appended_pushed).filter_le _ _

theorem taken_snapshot (ho : InOrder h) (hj : Joined h c) {s : ℕ} (hs : c.startFrom = some s) :
    Taken h (c.snapshotTaken h s) := by
  refine ⟨fun hnone => ?_, fun s' hs' => ?_⟩
  · have hnone' : c.startFrom = none := hnone
    rw [hs] at hnone'
    cases hnone'
  · obtain rfl : s = s' := Option.some.inj (hs.symm.trans hs')
    exact ⟨hj.joined.trans ho.sent_appended.length_le, le_rfl, snapshotFrom_eq ho s⟩

theorem fromQueue_joined (hn : c.liveRx.next = c.joined) : fromQueue h c = [] := by
  unfold fromQueue
  rw [hn, List.drop_eq_nil_of_le, List.filter_nil]
  rw [List.length_take]
  omega

theorem live_of_replaying (hr : Replaying h c) (hb : c.backlog = [])
    (hl : c.lastSentId = c.covered) : Live h c where
  taken := hr.taken
  joined := hr.joined.next.ge
  next := hr.joined.next ▸ hr.joined.joined
  delivered := by
    have hsplit := hr.split
    rw [hb, List.append_nil] at hsplit
    rw [fromQueue_joined hr.joined.next, List.append_nil, hsplit]
  missed := by
    unfold Client.missedIds
    rw [hr.joined.missed]
    nofun
  covered := hl.ge
  lastSentId := hl.le.trans (le_max_left _ _)

theorem replaying_of_blank (hb : Blank c) (hj : Joined h c) (hs : c.startFrom = none) :
    Replaying h c := by
  refine ⟨hj, ⟨fun _ => hb.snapshot, fun s hs' => ?_⟩, ?_⟩
  · rw [hs] at hs'
    cases hs'
  · rw [hb.delivered, hb.backlog, hb.snapshot, List.nil_append]

theorem Blank.covered (hb : Blank c) : c.covered = 0 := by
  unfold Client.covered
  rw [hb.snapshot]
  rfl

theorem recv_next (ho : InOrder h) {e : EventEnvelope V} {rx : Receiver}
    (hr : h.bus.sender.recv c.liveRx = (.ok e, rx)) :
    rx.next = c.liveRx.next + 1 ∧ rx.next ≤ h.sent.length ∧ e.id = rx.next ∧
      h.pushed.take rx.next = h.pushed.take c.liveRx.next ++ [e] := by
  obtain ⟨hget, hnext⟩ := recv_ok hr
  have hlt := (List.getElem?_eq_some_iff.mp hget).1
  have hp := prefix_getElem? (ho.sent_appended.trans ho.appended_pushed) hget
  refine ⟨hnext, ?_, ?_, ?_⟩
  · rw [hnext]
    exact hlt
  · rw [hnext]
    exact ho.numbered _ _ hp
  · rw [hnext, List.take_add_one, hp]
    rfl

/-- What the queue yields with its next event: the event, unless the snapshot covers it. -/
theorem fromQueue_next (hl : Live h c) {e : EventEnvelope V} {rx : Receiver}
    (hnext : rx.next = c.liveRx.next + 1) (hid : e.id = rx.next)
    (htake : h.pushed.take rx.next = h.pushed.take c.liveRx.next ++ [e])
    (hlen : c.liveRx.next ≤ h.pushed.length) :
    fromQueue h { c with liveRx := rx } =
      fromQueue h c ++ if c.covered < e.id then [e] else [] := by
  have hmissed : e.id ∉ c.missedIds := by
    intro hmem
    have := hl.missed _ hmem
    omega
  have hj := hl.joined
  have hl' : (h.pushed.take c.liveRx.next).length = c.liveRx.next := List.length_take_of_le hlen
  show ((h.pushed.take rx.next).drop (max c.joined c.covered)).filter (fun e => e.id ∉ c.missedIds)
    = _
  rw [htake]
  split_ifs with hc
  · rw [List.drop_append_of_le_length (by omega), List.filter_append]
    congr 1
    simp [hmissed]
  · rw [List.append_nil]
    unfold fromQueue
    rw [List.drop_eq_nil_of_le (by rw [List.length_append, List.length_singleton]; omega),
      List.drop_eq_nil_of_le (by omega)]

/-- The filter of the handlers lets an event pass just when the snapshot does not cover it. -/
theorem Live.filter_iff (hl : Live h c) {n : ℕ} (hn : n = c.liveRx.next + 1) :
    c.lastSentId < n ↔ c.covered < n := by
  have h1 := hl.covered
  have h2 := hl.lastSentId
  omega

theorem live_deliver (ho : InOrder h) (hl : Live h c) {e : EventEnvelope V} {rx : Receiver}
    (hr : h.bus.sender.recv c.liveRx = (.ok e, rx)) (hid : c.lastSentId < e.id) :
    Live h ({ c with liveRx := rx, lastSentId := e.id }.send (.event e)) := by
  obtain ⟨hnext, hle, heid, htake⟩ := recv_next ho hr
  have hcov : c.covered < e.id := (hl.filter_iff (heid.trans hnext)).mp hid
  have hq := fromQueue_next hl hnext heid htake (hl.next.trans ho.sent_le)
  rw [if_pos hcov] at hq
  refine ⟨⟨hl.taken.absent, hl.taken.present⟩, ?_, hle, ?_, ?_, hcov.le, ?_⟩
  · exact hl.joined.trans (hnext ▸ Nat.le_succ _)
  · rw [delivered_event]
    show c.delivered ++ [e] = c.snapshot ++ fromQueue h { c with liveRx := rx }
    rw [hq, hl.delivered, List.append_assoc]
  · intro n hn
    exact (hl.missed n hn).trans (hnext ▸ Nat.le_succ _)
  · show e.id ≤ max c.covered rx.next
    rw [heid]
    exact le_max_right _ _

theorem live_discard (ho : InOrder h) (hl : Live h c) {e : EventEnvelope V} {rx : Receiver}
    (hr : h.bus.sender.recv c.liveRx = (.ok e, rx)) (hid : ¬ c.lastSentId < e.id) :
    Live h { c with liveRx := rx } := by
  obtain ⟨hnext, hle, heid, htake⟩ := recv_next ho hr
  have hcov : ¬ c.covered < e.id := fun hc => hid ((hl.filter_iff (heid.trans hnext)).mpr hc)
  have hq := fromQueue_next hl hnext heid htake (hl.next.trans ho.sent_le)
  rw [if_neg hcov, List.append_nil] at hq
  refine ⟨⟨hl.taken.absent, hl.taken.present⟩, ?_, hle, ?_, ?_, hl.covered, ?_⟩
  · exact hl.joined.trans (hnext ▸ Nat.le_succ _)
  · exact hq ▸ hl.delivered
  · intro n hn
    exact (hl.missed n hn).trans (hnext ▸ Nat.le_succ _)
  · have := hl.lastSentId
    show c.lastSentId ≤ max c.covered rx.next
    omega

/-- The events of a lag carry the numbers that the receiver jumps over. -/
theorem lagged_ids (ho : InOrder h) {n : ℕ} {e : EventEnvelope V}
    (he : e ∈ (h.sent.drop c.liveRx.next).take n) :
    c.liveRx.next < e.id ∧ e.id ≤ c.liveRx.next + n := by
  have hnum := ho.numbered.initial (ho.sent_appended.trans ho.appended_pushed)
  obtain ⟨k, hk⟩ := List.mem_iff_getElem?.mp he
  have hlt : k < n := by
    have := (List.getElem?_eq_some_iff.mp hk).1
    rw [List.length_take] at this
    omega
  rw [List.getElem?_take_of_lt hlt, List.getElem?_drop] at hk
  have := hnum _ e hk
  omega

/-- **A lag** takes nothing that was not reported from what the queue yields. -/
theorem fromQueue_lagged (ho : InOrder h) {rx : Receiver} {lag : List (EventEnvelope V)}
    (htake : h.pushed.take rx.next = h.pushed.take c.liveRx.next ++ lag)
    (hlag : ∀ e ∈ lag, c.liveRx.next < e.id) :
    fromQueue h { c with liveRx := rx, missed := c.missed ++ lag } = fromQueue h c := by
  have hids : ∀ n, n ∈ (c.missed ++ lag).map (·.id) ↔ n ∈ c.missedIds ∨ n ∈ lag.map (·.id) := by
    intro n
    rw [List.map_append, List.mem_append]
    rfl
  have hold : ∀ e ∈ (h.pushed.take c.liveRx.next).drop (max c.joined c.covered),
      (e.id ∉ (c.missed ++ lag).map (·.id) ↔ e.id ∉ c.missedIds) := by
    intro e he
    have hle := (ho.numbered.mem_take_iff.mp (List.mem_of_mem_drop he)).2
    rw [hids, not_or]
    refine and_iff_left ?_
    intro hmem
    obtain ⟨e', he', hid⟩ := List.mem_map.mp hmem
    have := hlag e' he'
    omega
  have hnew : ∀ k, (lag.drop k).filter (fun e => e.id ∉ (c.missed ++ lag).map (·.id)) = [] := by
    intro k
    rw [List.filter_eq_nil_iff]
    intro e he
    rw [decide_eq_true_eq, not_not, hids]
    exact .inr (List.mem_map_of_mem (List.mem_of_mem_drop he))
  show ((h.pushed.take rx.next).drop (max c.joined c.covered)).filter
    (fun e => e.id ∉ (c.missed ++ lag).map (·.id)) = fromQueue h c
  rw [htake, List.drop_append, List.filter_append, hnew, List.append_nil]
  unfold fromQueue
  refine List.filter_congr fun e he => ?_
  rw [decide_eq_decide]
  exact hold e he

theorem live_lagged (ho : InOrder h) (hl : Live h c) {n : ℕ} {rx : Receiver}
    (hr : h.bus.sender.recv c.liveRx = (.lagged n, rx)) :
    Live h { c with
      liveRx := rx
      missed := c.missed ++ (h.sent.drop c.liveRx.next).take n } := by
  obtain ⟨hnext, hle, -⟩ := recv_lagged hr
  have htake : h.pushed.take rx.next =
      h.pushed.take c.liveRx.next ++ (h.sent.drop c.liveRx.next).take n := by
    have hpre := ho.sent_appended.trans ho.appended_pushed
    have hle' : c.liveRx.next ≤ h.sent.length := hl.next
    rw [prefix_take hpre hle, prefix_take hpre hle', hnext, List.take_add]
  have hq := fromQueue_lagged ho htake fun e he => (lagged_ids ho he).1
  refine ⟨⟨hl.taken.absent, hl.taken.present⟩, ?_, hle, ?_, ?_, hl.covered, ?_⟩
  · exact hl.joined.trans (hnext ▸ Nat.le_add_right _ _)
  · exact hq ▸ hl.delivered
  · intro m hm
    show m ≤ rx.next
    unfold Client.missedIds at hm
    rw [List.map_append, List.mem_append] at hm
    rcases hm with hm | hm
    · exact (hl.missed m hm).trans (hnext ▸ Nat.le_add_right _ _)
    · obtain ⟨e, he, rfl⟩ := List.mem_map.mp hm
      rw [hnext]
      exact (lagged_ids ho he).2
  · have := hl.lastSentId
    show c.lastSentId ≤ max c.covered rx.next
    omega

theorem wait_withPc {kind : Kind} {w : WaitPc V} (hc : PcDelivery h kind c (.wait w))
    (w' : WaitPc V) (pc : ClientPc V) : PcDelivery h kind { c with pc := pc } (.wait w') := by
  cases kind with
  | websocket => exact ⟨hc.1.withPc _, hc.2.withPc _⟩
  | sse => exact ⟨hc.1.withPc _, hc.2⟩

theorem delivery_subscribe (hb : Blank c) (kind : Kind) (pc : ClientPc V) :
    PcDelivery h kind { c.subscribed h with pc := pc } (kind.select (.wait .create) .snapshot) := by
  have hb' : Blank (c.subscribed h) :=
    ⟨hb.delivered, hb.backlog, hb.snapshot, hb.lastSentId, hb.missed⟩
  have hj : Joined h (c.subscribed h) := ⟨rfl, le_rfl, hb.missed⟩
  cases kind with
  | websocket => exact ⟨hb'.withPc _, hj.withPc _⟩
  | sse => exact ⟨hb'.withPc _, hj.withPc _⟩

theorem delivery_version {kind : Kind} {data : V} {w : WaitPc V}
    (hc : PcDelivery h kind c (.wait w)) (pc : ClientPc V) :
    PcDelivery h kind { c.send (.apiVersion data) with pc := pc }
      (kind.select .snapshot .replay) := by
  have hsame := delivered_version c data
  cases kind with
  | websocket =>
    obtain ⟨hb, hj⟩ := hc
    have hb' : Blank (c.send (.apiVersion data)) :=
      ⟨hsame.trans hb.delivered, hb.backlog, hb.snapshot, hb.lastSentId, hb.missed⟩
    have hj' : Joined h (c.send (.apiVersion data)) := ⟨hj.next, hj.joined, hj.missed⟩
    exact ⟨hb'.withPc _, hj'.withPc _⟩
  | sse =>
    obtain ⟨hr, hnil, hlast⟩ := hc
    have hr' : Replaying h (c.send (.apiVersion data)) := by
      refine ⟨⟨hr.joined.next, hr.joined.joined, hr.joined.missed⟩,
        ⟨hr.taken.absent, hr.taken.present⟩, ?_⟩
      rw [hsame]
      exact hr.split
    exact ⟨hr'.withPc _, hlast⟩

theorem delivery_snapshot (ho : InOrder h) (hb : Blank c) (hj : Joined h c) {s : ℕ}
    (hs : c.startFrom = some s) (kind : Kind) (pc : ClientPc V) :
    PcDelivery h kind { c.snapshotTaken h s with
        lastSentId := kind.select c.lastSentId (lastId (h.bus.snapshotFrom s) c.lastSentId)
        pc := pc }
      (kind.select .replay (.wait .create)) := by
  have hr : ∀ n, Replaying h { c.snapshotTaken h s with lastSentId := n, pc := pc } := by
    intro n
    have ht := taken_snapshot ho hj hs
    refine ⟨⟨hj.next, hj.joined, hj.missed⟩, ⟨ht.absent, ht.present⟩, ?_⟩
    show c.delivered ++ _ = _
    rw [hb.delivered, List.nil_append]
    rfl
  cases kind with
  | websocket =>
    refine ⟨hr _, ?_⟩
    show c.lastSentId = lastId c.delivered 0
    rw [hb.delivered, hb.lastSentId]
    rfl
  | sse =>
    refine ⟨hr _, hb.delivered, ?_⟩
    show lastId (h.bus.snapshotFrom s) c.lastSentId = lastId (h.bus.snapshotFrom s) 0
    rw [hb.lastSentId]

theorem delivery_noSnapshot (hb : Blank c) (hj : Joined h c) (hs : c.startFrom = none) (kind : Kind)
    (pc : ClientPc V) :
    PcDelivery h kind { c with pc := pc } (kind.select .live (.wait .create)) := by
  have hr := replaying_of_blank hb hj hs
  have hlast : c.lastSentId = c.covered := hb.lastSentId.trans hb.covered.symm
  cases kind with
  | websocket => exact (live_of_replaying hr hb.backlog hlast).withPc _
  | sse => exact ⟨hr.withPc _, hb.delivered, hlast⟩

theorem delivery_replay {kind : Kind} {e : EventEnvelope V} {backlog : List (EventEnvelope V)}
    (hc : PcDelivery h kind c .replay) (hb : c.backlog = e :: backlog) :
    PcDelivery h kind ({ c with
      backlog := backlog
      lastSentId := kind.select e.id c.lastSentId }.send (.event e)) .replay := by
  obtain ⟨hr, hlast⟩ := hc
  have hdel : ∀ n, ({ c with backlog := backlog, lastSentId := n }.send (.event e)).delivered =
      c.delivered ++ [e] := fun n => delivered_event _ _
  refine ⟨⟨⟨hr.joined.next, hr.joined.joined, hr.joined.missed⟩,
    ⟨hr.taken.absent, hr.taken.present⟩, ?_⟩, ?_⟩
  · rw [hdel]
    show c.delivered ++ [e] ++ backlog = c.snapshot
    rw [List.append_assoc, List.singleton_append, ← hb]
    exact hr.split
  · rw [hdel]
    cases kind with
    | websocket => exact (lastId_append _ _ _).symm
    | sse => exact hlast

theorem delivery_replayed {kind : Kind} (hc : PcDelivery h kind c .replay) (hb : c.backlog = [])
    (pc : ClientPc V) : Live h { c with pc := pc } := by
  obtain ⟨hr, hlast⟩ := hc
  have hsplit := hr.split
  rw [hb, List.append_nil] at hsplit
  have hcov : c.lastSentId = c.covered := by
    rw [hlast, hsplit]
    cases kind with
    | websocket => rfl
    | sse => rfl
  exact (live_of_replaying hr hb hcov).withPc pc

/-- **Delivery.** One case for each step of a client. -/
theorem delivery_step {c' : Client V} (ho : InOrder h) (hc : PcDelivery h c.kind c c.pc)
    (hs : ClientStep h c c') : PcDelivery h c'.kind c' c'.pc := by
  have hany := hc.delivery
  cases hs with
  | subscribe hpc =>
    rw [hpc] at hc
    exact delivery_subscribe hc _ _
  | wait hpc hw =>
    rw [hpc] at hc
    exact wait_withPc hc _ _
  | version hpc =>
    rw [hpc] at hc
    exact delivery_version hc _
  | snapshot hpc hst =>
    rw [hpc] at hc
    exact delivery_snapshot ho hc.1 hc.2 hst _ _
  | noSnapshot hpc hst =>
    rw [hpc] at hc
    exact delivery_noSnapshot hc.1 hc.2 hst _ _
  | replay hpc hb =>
    show PcDelivery h c.kind _ c.pc
    rw [hpc] at hc
    have hnext := delivery_replay hc hb
    rw [← hpc] at hnext
    exact hnext
  | replayed hpc hb =>
    rw [hpc] at hc
    exact delivery_replayed hc hb _
  | deliver hpc hr hid =>
    rw [hpc] at hc
    exact pcDelivery_live hpc (live_deliver ho hc hr hid)
  | discard hpc hr hid =>
    rw [hpc] at hc
    exact pcDelivery_live hpc (live_discard ho hc hr hid)
  | lagged hpc hr =>
    rw [hpc] at hc
    exact pcDelivery_live hpc (live_lagged ho hc hr)
  | close => exact hany.withPc _

end Step

/-! ## Every run -/

theorem inOrder_remember {h : Hub V} {b' : EventBus V} {s s' : Setter V} (ho : InOrder h)
    (hs : RememberStep h.bus s b' s') : InOrder { h with bus := b' } := by
  cases hs with
  | set | alreadySet | notify =>
    exact ⟨ho.numbered, ho.nextId, ho.pending, ⟨ho.windowed.limit, ho.windowed.backlog⟩⟩

theorem delivery_owned : Tasks.OwnedInvariant (eventProgram (V := V)) InOrder
    (fun h _ t => TaskDelivery h t) Grows where
  task i h t a h' t' ho ht hs := by
    have hg := grows_taskStep hs
    rcases taskStep_cases hs with ⟨s, s', b', rfl, rfl, rfl, hr⟩ | ⟨c, c', rfl, rfl, rfl, hc⟩
    · exact ⟨inOrder_remember ho hr, trivial, hg⟩
    · exact ⟨ho, delivery_step ho ht hc, hg⟩
  env h a h' ho hs := ⟨inOrder_step ho hs, grows_producerStep hs⟩
  spawn h i x ho := by
    cases x with
    | setter data => trivial
    | client kind startFrom => exact ⟨rfl, rfl, rfl, rfl, rfl⟩
  stable h h' i t ho hg ht := by
    cases t with
    | setter s => trivial
    | client c => exact PcDelivery.mono ho hg ht

theorem delivery_reaches {backlogLimit broadcastCapacity : ℕ} {metrics : Bool} {c : EventConf V}
    (h : Reaches eventStep (eventInit 1 backlogLimit broadcastCapacity metrics) c) :
    InOrder c.shared ∧ ∀ d, .client d ∈ c.tasks → PcDelivery c.shared d.kind d d.pc := by
  have h₀ : Tasks.Holds InOrder (fun h _ t => TaskDelivery h t)
      (eventInit (V := V) 1 backlogLimit broadcastCapacity metrics) :=
    ⟨inOrder_init _ _ _, nofun⟩
  obtain ⟨ho, ht⟩ := delivery_owned.reaches h₀ h
  refine ⟨ho, fun d hd => ?_⟩
  obtain ⟨i, hi⟩ := List.mem_iff_getElem?.mp hd
  exact ht i _ hi

end CasperNodeProxy
