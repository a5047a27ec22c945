import CasperNodeProxy.Events.Delivery

/-!
# Many producers

`push` draws its id before it takes the lock of the backlog, and sends after it has released the
lock. So the order of the ids, that of the backlog and that of the queues can differ.

* `Origins`, `Sourced`: where the events of the bus, and what a client has seen, come from; they
  hold in every reachable state (`sources_owned`).
* `OrderKept`, `StepKept`: what is promised of every state and of every step.
* `InTurn`: no event is appended, or broadcast, behind one with a larger id.
* **`order_iff`**: the promise is kept along a run exactly if every step is in turn.
* `inTurn_single`: the steps of one producer are.
-/

namespace CasperNodeProxy

open Channel Log Run

variable {V : Type}

/-! ## Where events come from -/

/-- Every event is appended before it is broadcast, and every id is positive. -/
structure Origins (h : Hub V) : Prop where
  windowed : Windowed h
  sent : ∀ e ∈ h.sent, e ∈ h.appended
  waiting : ∀ (i : ℕ) (e : EventEnvelope V) (len : ℕ),
    h.producers[i]? = some (.broadcast e len) → e ∈ h.appended
  drawn : ∀ (i : ℕ) (e : EventEnvelope V), h.producers[i]? = some (.append e) → 0 < e.id
  positive : ∀ e ∈ h.appended, 0 < e.id

theorem origins_init (k backlogLimit broadcastCapacity : ℕ) (metrics : Bool) :
    Origins (Hub.init k backlogLimit broadcastCapacity metrics : Hub V) := by
  refine ⟨windowed_init _ _ _ _, nofun, ?_, ?_, nofun⟩
  · intro i e len hi
    have := List.eq_of_mem_replicate (List.mem_of_getElem? hi)
    cases this
  · intro i e hi
    have := List.eq_of_mem_replicate (List.mem_of_getElem? hi)
    cases this

theorem getElem?_set_cases {l : List (PushPc V)} {i j : ℕ} {x y : PushPc V}
    (h : (l.set i x)[j]? = some y) : y = x ∨ l[j]? = some y := by
  rw [List.getElem?_set] at h
  split_ifs at h
  · exact .inl (Option.some.inj h).symm
  · exact .inr h

theorem origins_producerStep {h h' : Hub V} {a : ProducerAct V} (ho : Origins h)
    (hs : producerStep h a = some h') : Origins h' := by
  have hw := windowed_step ho.windowed hs
  cases producerStep_cases hs with
  | push i data hi hh =>
    rw [hh] at hw ⊢
    refine ⟨hw, ho.sent, fun j e len hj => ?_, fun j e hj => ?_, ho.positive⟩
    · rcases getElem?_set_cases hj with he | hj
      · cases he
      · exact ho.waiting j e len hj
    · rcases getElem?_set_cases hj with he | hj
      · cases he
        exact Nat.succ_pos _
      · exact ho.drawn j e hj
  | append i e hi hh =>
    obtain ⟨hsender, -⟩ := append_fields h.bus e
    rw [hh] at hw ⊢
    refine ⟨hw, fun x hx => ?_, fun j x len hj => ?_, fun j x hj => ?_, fun x hx => ?_⟩
    · dsimp only [Hub.sent] at hx
      rw [hsender] at hx
      exact List.mem_append_left _ (ho.sent x hx)
    · rcases getElem?_set_cases hj with he | hj
      · cases he
        exact List.mem_append_right _ (List.mem_singleton_self _)
      · exact List.mem_append_left _ (ho.waiting j x len hj)
    · rcases getElem?_set_cases hj with he | hj
      · cases he
      · exact ho.drawn j x hj
    · rcases List.mem_append.mp hx with hx | hx
      · exact ho.positive x hx
      · rw [List.mem_singleton.mp hx]
        exact ho.drawn i e hi
  | broadcast i e len hi hh =>
    rw [hh] at hw ⊢
    refine ⟨hw, fun x hx => ?_, fun j x n hj => ?_, fun j x hj => ?_, ho.positive⟩
    · rcases List.mem_append.mp hx with hx | hx
      · exact ho.sent x hx
      · rw [List.mem_singleton.mp hx]
        exact ho.waiting i e len hi
    · rcases getElem?_set_cases hj with he | hj
      · cases he
      · exact ho.waiting j x n hj
    · rcases getElem?_set_cases hj with he | hj
      · cases he
      · exact ho.drawn j x hj

/-! ## What a client has seen -/

/-- The events that were in the log when the snapshot was taken, and those that were read from the
queue or missed there. -/
def seen (h : Hub V) (c : Client V) : List (EventEnvelope V) :=
  h.appended.take c.appendedAt ++ h.sent.take c.liveRx.next

/-- What a client holds, and the last id it has sent, come from what it has seen. -/
structure Sourced (h : Hub V) (c : Client V) : Prop where
  next : c.liveRx.next ≤ h.sent.length
  appendedAt : c.appendedAt ≤ h.appended.length
  backlog : ∀ e ∈ c.backlog, e ∈ h.appended.take c.appendedAt
  lastSentId : c.lastSentId = 0 ∨ ∃ e ∈ seen h c, e.id = c.lastSentId

theorem sourced_new (h : Hub V) (kind : Kind) (startFrom : Option ℕ) :
    Sourced h (.new kind startFrom) :=
  ⟨Nat.zero_le _, Nat.zero_le _, nofun, .inl rfl⟩

theorem mem_take_of_le {α : Type} {l : List α} {m n : ℕ} (hmn : m ≤ n) {a : α}
    (ha : a ∈ l.take m) : a ∈ l.take n := by
  rw [← Nat.min_eq_left hmn, ← List.take_take] at ha
  exact List.mem_of_mem_take ha

theorem Sourced.mono {h h' : Hub V} {c : Client V} (hg : Grows h h') (hc : Sourced h c) :
    Sourced h' c := by
  have happ := prefix_take hg.appended hc.appendedAt
  have hsent := prefix_take hg.sent hc.next
  refine ⟨hc.next.trans hg.sent.length_le, hc.appendedAt.trans hg.appended.length_le, ?_, ?_⟩
  · rw [happ]
    exact hc.backlog
  · unfold seen
    rw [happ, hsent]
    exact hc.lastSentId

section Moved

variable {h : Hub V} {c c' : Client V} (hc : Sourced h c)
include hc

theorem Sourced.moved (hnext : c.liveRx.next ≤ c'.liveRx.next)
    (hlen : c'.liveRx.next ≤ h.sent.length) (hat : c.appendedAt ≤ c'.appendedAt)
    (hatlen : c'.appendedAt ≤ h.appended.length)
    (hb : ∀ e ∈ c'.backlog, e ∈ h.appended.take c'.appendedAt)
    (hl : c'.lastSentId = c.lastSentId ∨ ∃ e ∈ seen h c', e.id = c'.lastSentId) :
    Sourced h c' := by
  refine ⟨hlen, hatlen, hb, ?_⟩
  rcases hl with hl | hl
  · rw [hl]
    refine hc.lastSentId.imp_right ?_
    rintro ⟨e, he, hid⟩
    refine ⟨e, ?_, hid⟩
    rcases List.mem_append.mp he with he | he
    · exact List.mem_append_left _ (mem_take_of_le hat he)
    · exact List.mem_append_right _ (mem_take_of_le hnext he)
  · exact .inr hl

theorem Sourced.stays (hrx : c'.liveRx = c.liveRx) (hat : c'.appendedAt = c.appendedAt)
    (hb : c'.backlog = c.backlog) (hl : c'.lastSentId = c.lastSentId) : Sourced h c' := by
  refine hc.moved (by rw [hrx]) (hrx ▸ hc.next) hat.ge (hat ▸ hc.appendedAt) ?_ (.inl hl)
  rw [hb, hat]
  exact hc.backlog

end Moved

theorem snapshotFrom_subset {h : Hub V} (ho : Origins h) {s : ℕ} {e : EventEnvelope V}
    (he : e ∈ h.bus.snapshotFrom s) : e ∈ h.appended := by
  have hb : e ∈ h.bus.backlog := (List.mem_filter.mp he).1
  rw [ho.windowed.backlog] at hb
  exact List.mem_of_mem_drop hb

theorem lastId_cases (l : List (EventEnvelope V)) (n : ℕ) :
    lastId l n = n ∨ ∃ e ∈ l, e.id = lastId l n := by
  unfold lastId
  cases hl : l.getLast? with
  | none => exact .inl rfl
  | some e => exact .inr ⟨e, List.mem_of_getLast? hl, rfl⟩

theorem sourced_clientStep {h : Hub V} {c c' : Client V} (ho : Origins h) (hc : Sourced h c)
    (hs : ClientStep h c c') : Sourced h c' := by
  cases hs with
  | subscribe hpc => exact hc.moved hc.next le_rfl le_rfl hc.appendedAt hc.backlog (.inl rfl)
  | wait hpc hw => exact hc.stays rfl rfl rfl rfl
  | version hpc => exact hc.stays rfl rfl rfl rfl
  | noSnapshot hpc hst => exact hc.stays rfl rfl rfl rfl
  | replayed hpc hb => exact hc.stays rfl rfl rfl rfl
  | close => exact hc.stays rfl rfl rfl rfl
  | @snapshot s hpc hst =>
    have htake : ∀ e ∈ h.bus.snapshotFrom s, e ∈ h.appended.take h.appended.length := by
      intro e he
      rw [List.take_length]
      exact snapshotFrom_subset ho he
    refine hc.moved le_rfl hc.next hc.appendedAt le_rfl htake ?_
    cases hk : c.kind with
    | websocket => exact .inl rfl
    | sse =>
      refine (lastId_cases (h.bus.snapshotFrom s) c.lastSentId).imp_right ?_
      rintro ⟨e, he, hid⟩
      exact ⟨e, List.mem_append_left _ (htake e he), hid⟩
  | @replay e backlog hpc hb =>
    have hmem : ∀ x ∈ e :: backlog, x ∈ h.appended.take c.appendedAt := by
      rw [← hb]
      exact hc.backlog
    refine hc.moved le_rfl hc.next le_rfl hc.appendedAt
      (fun x hx => hmem x (List.mem_cons_of_mem _ hx)) ?_
    cases hk : c.kind with
    | websocket => exact .inr ⟨e, List.mem_append_left _ (hmem e List.mem_cons_self), rfl⟩
    | sse => exact .inl rfl
  | @deliver e rx hpc hr hid =>
    obtain ⟨hget, hnext⟩ := recv_ok hr
    have hlt : c.liveRx.next < h.sent.length := (List.getElem?_eq_some_iff.mp hget).1
    refine hc.moved (hnext ▸ Nat.le_succ _) (hnext ▸ hlt) le_rfl hc.appendedAt hc.backlog ?_
    refine .inr ⟨e, List.mem_append_right _ ?_, rfl⟩
    refine List.mem_of_getElem? (i := c.liveRx.next) ?_
    rw [List.getElem?_take_of_lt (hnext ▸ Nat.lt_succ_self _)]
    exact hget
  | @discard e rx hpc hr hid =>
    obtain ⟨hget, hnext⟩ := recv_ok hr
    have hlt : c.liveRx.next < h.sent.length := (List.getElem?_eq_some_iff.mp hget).1
    exact hc.moved (hnext ▸ Nat.le_succ _) (hnext ▸ hlt) le_rfl hc.appendedAt hc.backlog (.inl rfl)
  | @lagged skipped rx hpc hr =>
    obtain ⟨hnext, hle, -⟩ := recv_lagged hr
    exact hc.moved (hnext ▸ Nat.le_add_right _ _) hle le_rfl hc.appendedAt hc.backlog (.inl rfl)

/-- What is known of the events of a task. -/
def TaskSourced (h : Hub V) : Task V → Prop
  | .setter _ => True
  | .client c => Sourced h c

theorem origins_remember {h : Hub V} {b' : EventBus V} {s s' : Setter V} (ho : Origins h)
    (hs : RememberStep h.bus s b' s') : Origins { h with bus := b' } := by
  cases hs with
  | set hpc hb =>
    exact ⟨⟨ho.windowed.limit, ho.windowed.backlog⟩, ho.sent, ho.waiting, ho.drawn, ho.positive⟩
  | alreadySet hpc hb => exact ho
  | notify hpc =>
    exact ⟨⟨ho.windowed.limit, ho.windowed.backlog⟩, ho.sent, ho.waiting, ho.drawn, ho.positive⟩

/-- **Everything comes from somewhere**, whatever the producers do. -/
theorem sources_owned : Tasks.OwnedInvariant (eventProgram (V := V)) Origins
    (fun h _ t => TaskSourced h t) Grows where
  task _ h t a h' t' ho ht hs := by
    have hg := grows_taskStep hs
    rcases taskStep_cases hs with ⟨s, s', b', rfl, rfl, rfl, hr⟩ | ⟨c, c', rfl, rfl, rfl, hr⟩
    · exact ⟨origins_remember ho hr, trivial, hg⟩
    · exact ⟨ho, sourced_clientStep ho ht hr, hg⟩
  env _ _ _ ho hs := ⟨origins_producerStep ho hs, grows_producerStep hs⟩
  spawn h _ x _ := by
    cases x with
    | setter data => trivial
    | client kind startFrom => exact sourced_new h kind startFrom
  stable _ _ _ t _ hg ht := by
    cases t with
    | setter s => trivial
    | client c => exact Sourced.mono hg ht

/-! ## Order -/

/-- The ids strictly increase. -/
def IdsIncrease (l : List (EventEnvelope V)) : Prop := l.Pairwise fun a b => a.id < b.id

theorem idsIncrease_snoc {l : List (EventEnvelope V)} {e : EventEnvelope V} :
    IdsIncrease (l ++ [e]) ↔ IdsIncrease l ∧ ∀ x ∈ l, x.id < e.id := by
  simp [IdsIncrease, List.pairwise_append]

/-- The backlog is in order, and so is the queue of a subscriber that has joined at any time. -/
structure OrderKept (c : EventConf V) : Prop where
  backlog : IdsIncrease c.shared.bus.backlog
  queue : ∀ joined, IdsIncrease (c.shared.sent.drop joined)

/-- A client reads `e` from its queue, and its filter drops it. -/
def Discards (c : EventConf V) (i : ℕ) (d : Client V) (e : EventEnvelope V) : Prop :=
  clientAt c i = some d ∧ d.pc = .live ∧ (∃ rx, c.shared.bus.sender.recv d.liveRx = (.ok e, rx)) ∧
    ¬ d.lastSentId < e.id

/-- The step keeps the order and discards only what was in the snapshot. -/
structure StepKept (c : EventConf V) (a : EventAct V) : Prop where
  /-- What is evicted has the smallest id. -/
  evicts : ∀ i e x, a = .env (.run i) → c.shared.producers[i]? = some (.append e) →
    c.shared.bus.backlogLimit < (c.shared.bus.backlog ++ [e]).length →
    (c.shared.bus.backlog ++ [e]).head? = some x →
    ∀ y ∈ (c.shared.bus.backlog ++ [e]).tail, x.id < y.id
  /-- What is discarded was in the log when the snapshot was taken, so nothing has overtaken it. -/
  discards : ∀ i d e, a = .task i .run → Discards c i d e →
    e ∈ c.shared.appended.take d.appendedAt

/-- No event is appended, or broadcast, behind one with a larger id. -/
structure InTurn (c : EventConf V) (a : EventAct V) : Prop where
  append : ∀ i e, a = .env (.run i) → c.shared.producers[i]? = some (.append e) →
    ∀ x ∈ c.shared.appended, x.id < e.id
  broadcast : ∀ i e len, a = .env (.run i) → c.shared.producers[i]? = some (.broadcast e len) →
    ∀ x ∈ c.shared.sent, x.id < e.id

/-- The invariant of a run in which every step is in turn. -/
structure Ordered (c : EventConf V) : Prop where
  sources : Tasks.Holds Origins (fun h _ t => TaskSourced h t) c
  appended : IdsIncrease c.shared.appended
  sent : IdsIncrease c.shared.sent

theorem Ordered.orderKept {c : EventConf V} (h : Ordered c) : OrderKept c := by
  refine ⟨?_, fun joined => h.sent.sublist (List.drop_sublist _ _)⟩
  rw [h.sources.1.windowed.backlog]
  exact h.appended.sublist (List.drop_sublist _ _)

/-- **What the filter discards was there before the snapshot.** -/
theorem Ordered.discards {c : EventConf V} (h : Ordered c) {i : ℕ} {d : Client V}
    {e : EventEnvelope V} (hd : Discards c i d e) : e ∈ c.shared.appended.take d.appendedAt := by
  obtain ⟨hi, -, ⟨rx, hr⟩, hid⟩ := hd
  obtain ⟨ho, hl⟩ := h.sources
  obtain ⟨j, hj⟩ := List.mem_iff_getElem?.mp (clientAt_mem hi)
  have hc : Sourced c.shared d := hl j (.client d) hj
  obtain ⟨hget, -⟩ := recv_ok hr
  have happ : e ∈ c.shared.appended := ho.sent e (List.mem_of_getElem? hget)
  rcases hc.lastSentId with hzero | ⟨x, hx, hxid⟩
  · have := ho.positive e happ
    omega
  rcases List.mem_append.mp hx with hx | hx
  · -- the last id sent is one of the snapshot, and `e` stands in front of it
    obtain ⟨m, hm⟩ := List.mem_iff_getElem?.mp hx
    obtain ⟨n, hn⟩ := List.mem_iff_getElem?.mp happ
    have hmlt : m < d.appendedAt := by
      have := (List.getElem?_eq_some_iff.mp hm).1
      rw [List.length_take] at this
      omega
    rw [List.getElem?_take_of_lt hmlt] at hm
    have hmn : ¬ m < n := by
      rw [← increasing_lt_iff h.appended hm hn]
      omega
    refine List.mem_of_getElem? (i := n) ?_
    rw [List.getElem?_take_of_lt (by omega), hn]
  · -- what was read from the queue before `e` has a smaller id
    obtain ⟨m, hm⟩ := List.mem_iff_getElem?.mp hx
    have hmlt : m < d.liveRx.next := by
      have := (List.getElem?_eq_some_iff.mp hm).1
      rw [List.length_take] at this
      omega
    rw [List.getElem?_take_of_lt hmlt] at hm
    have := (increasing_lt_iff h.sent hm hget).mpr hmlt
    omega

/-! ## One step -/

/-- What an append does to the order, seen from the backlog. -/
theorem Ordered.evicts {c : EventConf V} (h : Ordered c) {e : EventEnvelope V}
    (he : ∀ x ∈ c.shared.appended, x.id < e.id) : IdsIncrease (c.shared.bus.backlog ++ [e]) := by
  refine idsIncrease_snoc.mpr ⟨h.orderKept.backlog, fun x hx => he x ?_⟩
  rw [h.sources.1.windowed.backlog] at hx
  exact List.mem_of_mem_drop hx

theorem idsIncrease_head {l : List (EventEnvelope V)} {x : EventEnvelope V} (h : IdsIncrease l)
    (hx : l.head? = some x) : ∀ y ∈ l.tail, x.id < y.id := by
  cases l with
  | nil => cases hx
  | cons z l =>
    cases hx
    exact (List.pairwise_cons.mp h).1

theorem producerStep_run {h h' : Hub V} {i : ℕ} (hs : producerStep h (.run i) = some h') :
    (∃ e, h.producers[i]? = some (.append e) ∧ h'.appended = h.appended ++ [e] ∧
      h'.sent = h.sent ∧ h'.bus.backlog = (h.bus.append e).1.backlog) ∨
    ∃ e len, h.producers[i]? = some (.broadcast e len) ∧ h'.appended = h.appended ∧
      h'.sent = h.sent ++ [e] := by
  simp only [producerStep] at hs
  split at hs
  · next e hi =>
    cases hs
    exact .inl ⟨e, hi, rfl, congrArg Sender.sent (append_fields h.bus e).1, rfl⟩
  · next e len hi =>
    cases hs
    exact .inr ⟨e, len, hi, rfl, rfl⟩
  · cases hs

theorem producerStep_push {h h' : Hub V} {i : ℕ} {data : V}
    (hs : producerStep h (.push i data) = some h') :
    h'.appended = h.appended ∧ h'.sent = h.sent := by
  simp only [producerStep] at hs
  split at hs
  · cases hs
    exact ⟨rfl, rfl⟩
  · cases hs

theorem taskStep_logs {h h' : Hub V} {t t' : Task V} {a : TaskAct}
    (hs : taskStep h t a = some (h', t')) : h'.appended = h.appended ∧ h'.sent = h.sent := by
  rcases taskStep_cases hs with ⟨s, s', b', -, -, rfl, hr⟩ | ⟨d, d', -, -, rfl, -⟩
  · cases hr with
    | set hpc hb => exact ⟨rfl, rfl⟩
    | alreadySet hpc hb => exact ⟨rfl, rfl⟩
    | notify hpc => exact ⟨rfl, rfl⟩
  · exact ⟨rfl, rfl⟩

/-- **A step that is in turn keeps the order.** -/
theorem ordered_step {c c' : EventConf V} {a : EventAct V} (h : Ordered c)
    (hs : eventStep c a = some c') (ht : InTurn c a) :
    Ordered c' ∧ OrderKept c' ∧ StepKept c a := by
  have hkept : StepKept c a := by
    refine ⟨fun i e x ha hi _ hx => ?_, fun i d e _ hd => h.discards hd⟩
    exact idsIncrease_head (h.evicts (ht.append i e ha hi)) hx
  suffices hord : IdsIncrease c'.shared.appended ∧ IdsIncrease c'.shared.sent by
    have hc' : Ordered c' := ⟨sources_owned.step h.sources hs, hord.1, hord.2⟩
    exact ⟨hc', hc'.orderKept, hkept⟩
  cases a with
  | task i a =>
    obtain ⟨t, h', t', -, hr, rfl⟩ := Tasks.step_task hs
    obtain ⟨happ, hsent⟩ := taskStep_logs hr
    rw [happ, hsent]
    exact ⟨h.appended, h.sent⟩
  | spawn x =>
    obtain rfl := Tasks.step_spawn hs
    exact ⟨h.appended, h.sent⟩
  | env p =>
    obtain ⟨h', hr, rfl⟩ := Tasks.step_env hs
    cases p with
    | push i data =>
      obtain ⟨happ, hsent⟩ := producerStep_push hr
      rw [happ, hsent]
      exact ⟨h.appended, h.sent⟩
    | run i =>
      rcases producerStep_run hr with ⟨e, hi, happ, hsent, -⟩ | ⟨e, len, hi, happ, hsent⟩
      · rw [happ, hsent]
        exact ⟨idsIncrease_snoc.mpr ⟨h.appended, ht.append i e rfl hi⟩, h.sent⟩
      · rw [happ, hsent]
        exact ⟨h.appended, idsIncrease_snoc.mpr ⟨h.sent, ht.broadcast i e len rfl hi⟩⟩

theorem Origins.last_mem {h : Hub V} (ho : Origins h) {x : EventEnvelope V}
    (hx : h.appended.getLast? = some x) : x ∈ h.bus.backlog := by
  obtain ⟨l, hl⟩ := List.getLast?_eq_some_iff.mp hx
  have hlimit := ho.windowed.limit
  rw [ho.windowed.backlog, window, hl, List.length_append, List.length_singleton,
    List.drop_append_of_le_length (by omega)]
  exact List.mem_append_right _ (List.mem_singleton_self x)

theorem idsIncrease_last {l : List (EventEnvelope V)} (h : IdsIncrease l) {x e : EventEnvelope V}
    (hx : l.getLast? = some x) (he : x.id < e.id) : ∀ y ∈ l, y.id < e.id := by
  obtain ⟨l', rfl⟩ := List.getLast?_eq_some_iff.mp hx
  intro y hy
  rcases List.mem_append.mp hy with hy | hy
  · exact ((idsIncrease_snoc.mp h).2 y hy).trans he
  · rw [List.mem_singleton.mp hy]
    exact he

/-- The evicted event put back in front, the backlog is in order with the new event. -/
theorem idsIncrease_of_kept {c : EventConf V} {e : EventEnvelope V} {b' : List (EventEnvelope V)}
    (hb' : b' = (c.shared.bus.append e).1.backlog) (hinc : IdsIncrease b')
    (hev : c.shared.bus.backlogLimit < (c.shared.bus.backlog ++ [e]).length →
      ∀ x, (c.shared.bus.backlog ++ [e]).head? = some x →
        ∀ y ∈ (c.shared.bus.backlog ++ [e]).tail, x.id < y.id) :
    IdsIncrease (c.shared.bus.backlog ++ [e]) := by
  rw [hb', append_backlog] at hinc
  split_ifs at hinc with hfull
  · have hcons := hev hfull
    generalize c.shared.bus.backlog ++ [e] = l at hinc hcons
    cases l with
    | nil => exact List.Pairwise.nil
    | cons x l => exact List.pairwise_cons.mpr ⟨hcons x rfl, hinc⟩
  · exact hinc

/-- **A step that keeps the order is in turn.** -/
theorem inTurn_of_kept {c c' : EventConf V} {a : EventAct V} (h : Ordered c)
    (hs : eventStep c a = some c') (ho : OrderKept c') (hk : StepKept c a) : InTurn c a := by
  refine ⟨fun i e ha hi => ?_, fun i e len ha hi => ?_⟩
  · subst ha
    obtain ⟨h', hr, rfl⟩ := Tasks.step_env hs
    rcases producerStep_run hr with ⟨e', hi', -, -, hback⟩ | ⟨e', len, hi', -⟩
    · obtain rfl : e = e' := by
        rw [hi] at hi'
        cases hi'
        rfl
      have hinc := idsIncrease_of_kept hback ho.backlog fun hfull x hx =>
        hk.evicts i e x rfl hi hfull hx
      cases hlast : c.shared.appended.getLast? with
      | none =>
        rw [List.getLast?_eq_none_iff.mp hlast]
        nofun
      | some x =>
        have hx := (idsIncrease_snoc.mp hinc).2 x (h.sources.1.last_mem hlast)
        exact idsIncrease_last h.appended hlast hx
    · rw [hi] at hi'
      cases hi'
  · subst ha
    obtain ⟨h', hr, rfl⟩ := Tasks.step_env hs
    rcases producerStep_run hr with ⟨e', hi', -⟩ | ⟨e', len', hi', -, hsent⟩
    · rw [hi] at hi'
      cases hi'
    · obtain rfl : e = e' := by
        rw [hi] at hi'
        cases hi'
        rfl
      have hinc := ho.queue 0
      rw [List.drop_zero] at hinc
      exact (idsIncrease_snoc.mp (hsent ▸ hinc)).2

/-! ## Runs -/

theorem ordered_init (producers backlogLimit broadcastCapacity : ℕ) (metrics : Bool) :
    Ordered (eventInit producers backlogLimit broadcastCapacity metrics : EventConf V) :=
  ⟨⟨origins_init _ _ _ _, nofun⟩, List.Pairwise.nil, List.Pairwise.nil⟩

section Runs

variable {producers backlogLimit broadcastCapacity : ℕ} {metrics : Bool}

/-- **Concurrent pushes and order.** Along a run, the backlog and the queues stay in order,
evictions take the smallest id, and no client discards an event that was overtaken, if and only if
every step is in turn. -/
theorem order_iff {acts : List (EventAct V)} {c : EventConf V}
    (h : exec eventStep (eventInit producers backlogLimit broadcastCapacity metrics) acts =
      some c) :
    (Always eventStep OrderKept (eventInit producers backlogLimit broadcastCapacity metrics) acts ∧
      Meets eventStep StepKept (eventInit producers backlogLimit broadcastCapacity metrics)
        acts) ↔
    Meets eventStep InTurn (eventInit producers backlogLimit broadcastCapacity metrics) acts :=
  have hinit := ordered_init producers backlogLimit broadcastCapacity metrics
  always_and_meets_iff (fun _ _ _ hu hs ht => ordered_step hu hs ht)
    (fun _ _ _ hu hs ho hk => inTurn_of_kept hu hs ho hk) hinit hinit.orderKept h

end Runs

/-- Producer 0 draws 1 and producer 1 draws 2, and then producer 1 goes first. A client without a
snapshot reads both events. -/
def overtakingRun : List (EventAct ℕ) :=
  [.spawn (.setter 7), .task 0 .run, .spawn (.client .sse none), .task 1 .run, .task 1 .run,
    .task 1 .run, .task 1 .run, .task 1 .run, .task 1 .run, .env (.push 0 10), .env (.push 1 20),
    .env (.run 1), .env (.run 1), .env (.run 0), .env (.run 0), .task 1 .run, .task 1 .run]

theorem overtakingRun_client :
    (exec eventStep (eventInit 2 2 4 false) overtakingRun).bind (fun c => (clientAt c 1).map
      fun d => (c.shared.bus.backlog, c.shared.sent, d.startFrom, d.joined, d.liveRx.next,
        d.missed, d.delivered)) =
    some ([⟨2, 20⟩, ⟨1, 10⟩], [⟨2, 20⟩, ⟨1, 10⟩], none, 0, 2, [], [⟨2, 20⟩]) := rfl

/-- **An event is overtaken.** The backlog and the queue are out of order, and the client, which has
read its whole queue, was not sent the first event. -/
theorem event_overtaken :
    ∃ c d, exec eventStep (eventInit 2 2 4 false) overtakingRun = some c ∧
      clientAt c 1 = some d ∧ ¬ IdsIncrease c.shared.bus.backlog ∧
      ¬ IdsIncrease (c.shared.sent.drop d.joined) ∧ d.startFrom = none ∧ d.missed = [] ∧
      d.liveRx.next = c.shared.sent.length ∧ ⟨1, 10⟩ ∈ c.shared.sent.drop d.joined ∧
      ⟨1, 10⟩ ∉ d.delivered := by
  obtain ⟨c, d, hc, hd, hfields⟩ := exec_observed overtakingRun_client
  simp only [Prod.mk.injEq] at hfields
  obtain ⟨hback, hsent, hst, hj, hn, hlag, hdel⟩ := hfields
  refine ⟨c, d, hc, hd, ?_, ?_, hst, hlag, ?_, ?_, ?_⟩
  · rw [hback]
    simp [IdsIncrease]
  · rw [hsent, hj]
    simp [IdsIncrease]
  · rw [hn, hsent]
    rfl
  · rw [hsent, hj]
    decide
  · rw [hdel]
    decide

/-- That run has a step that is not in turn. -/
theorem overtakingRun_not_inTurn :
    ¬ Meets eventStep InTurn (eventInit 2 2 4 false) overtakingRun := by
  intro h
  obtain ⟨c, d, hc, hd, hfields⟩ := exec_observed overtakingRun_client
  simp only [Prod.mk.injEq] at hfields
  have hback := (((order_iff hc).mpr h).1.last hc).backlog
  rw [hfields.1] at hback
  simp [IdsIncrease] at hback

/-! ## One producer -/

theorem InOrder.inTurn {c : EventConf V} (ho : InOrder c.shared) (a : EventAct V) :
    InTurn c a := by
  have hinc : IdsIncrease c.shared.pushed := ho.numbered.pairwise
  refine ⟨fun i e _ hi => ?_, fun i e len _ hi => ?_⟩
  · rw [(ho.pending.append_eq hi)] at hinc
    exact (idsIncrease_snoc.mp hinc).2
  · rw [(ho.pending.broadcast_eq hi)] at hinc
    exact (idsIncrease_snoc.mp hinc).2

/-- **The steps of one producer are in turn**, so it keeps the order. -/
theorem inTurn_single {backlogLimit broadcastCapacity : ℕ} {metrics : Bool}
    {acts : List (EventAct V)} {c : EventConf V}
    (h : exec eventStep (eventInit 1 backlogLimit broadcastCapacity metrics) acts = some c) :
    Meets eventStep InTurn (eventInit 1 backlogLimit broadcastCapacity metrics) acts := by
  have h₀ : Tasks.Holds InOrder (fun h _ t => TaskDelivery h t)
      (eventInit (V := V) 1 backlogLimit broadcastCapacity metrics) :=
    ⟨inOrder_init _ _ _, nofun⟩
  exact meets_of_invariant (fun _ _ _ hu hs => delivery_owned.step hu hs)
    (fun _ a _ hu _ => hu.1.inTurn a) h₀ h

end CasperNodeProxy
