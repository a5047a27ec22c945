import Mathlib.Data.List.Chain
import CasperNodeProxy.Events.Delivery

/-!
# Delivery is ordered and gap-free up to lag

* `mem_snapshot_iff`, `mem_fromQueue_iff`: which events a snapshot and the queue yield, by id.
* `Live.increasing`, `Live.gapless`, and the same for a client that replays.
* **`delivery_ordered`**: ids increase, data is what was pushed, and a gap is a lag.
-/

namespace CasperNodeProxy

open Channel Log Run

variable {V : Type} {h : Hub V} {c : Client V}

/-! ## Membership by id -/

theorem mem_snapshot_iff (ho : InOrder h) (ht : Taken h c) {s : ℕ} (hs : c.startFrom = some s)
    {e : EventEnvelope V} : e ∈ c.snapshot ↔ e ∈ h.pushed ∧
      skipped h.bus.backlogLimit s c.appendedAt < e.id ∧ e.id ≤ c.appendedAt := by
  obtain ⟨-, -, hsnap⟩ := ht.present s hs
  rw [hsnap, (ho.numbered.take _).mem_drop_iff, ho.numbered.mem_take_iff]
  tauto

theorem mem_fromQueue_iff (ho : InOrder h) {e : EventEnvelope V} :
    e ∈ fromQueue h c ↔ e ∈ h.pushed ∧ max c.joined c.covered < e.id ∧ e.id ≤ c.liveRx.next ∧
      e.id ∉ c.missedIds := by
  unfold fromQueue
  rw [List.mem_filter, (ho.numbered.take _).mem_drop_iff, ho.numbered.mem_take_iff,
    decide_eq_true_eq]
  tauto

theorem Taken.startFrom (ht : Taken h c) (hne : c.snapshot ≠ []) :
    ∃ s, c.startFrom = some s := by
  cases hs : c.startFrom with
  | none => exact absurd (ht.absent hs) hne
  | some s => exact ⟨s, rfl⟩

theorem Taken.covered_eq (ho : InOrder h) (ht : Taken h c) (hne : c.snapshot ≠ []) :
    c.covered = c.appendedAt := by
  obtain ⟨s, hs⟩ := ht.startFrom hne
  obtain ⟨-, hle, hsnap⟩ := ht.present s hs
  have hlen : (h.pushed.take c.appendedAt).length = c.appendedAt :=
    List.length_take_of_le (hle.trans ho.appended_pushed.length_le)
  have hlt : skipped h.bus.backlogLimit s c.appendedAt < c.appendedAt := by
    by_contra hge
    apply hne
    rw [hsnap, List.drop_eq_nil_of_le (by omega)]
  have hlast := (ho.numbered.take c.appendedAt).getLast?_drop (by rw [hlen]; exact hlt)
  unfold Client.covered lastId
  rw [hsnap]
  exact (congrArg (fun n => n.getD 0) hlast).trans hlen

/-- The snapshot reaches at least to where the queue of the client begins. -/
theorem Taken.joined_le_covered (ho : InOrder h) (ht : Taken h c) (hne : c.snapshot ≠ []) :
    c.joined ≤ c.covered := by
  obtain ⟨s, hs⟩ := ht.startFrom hne
  rw [ht.covered_eq ho hne]
  exact (ht.present s hs).1

/-! ## Order -/

theorem Taken.snapshot_sublist (ht : Taken h c) : c.snapshot.Sublist h.pushed := by
  cases hs : c.startFrom with
  | none =>
    rw [ht.absent hs]
    exact List.nil_sublist _
  | some s =>
    rw [(ht.present s hs).2.2]
    exact (List.drop_sublist _ _).trans (List.take_sublist _ _)

theorem fromQueue_sublist : (fromQueue h c).Sublist h.pushed :=
  List.filter_sublist.trans ((List.drop_sublist _ _).trans (List.take_sublist _ _))

theorem Taken.snapshot_le_covered (ho : InOrder h) (ht : Taken h c) {e : EventEnvelope V}
    (he : e ∈ c.snapshot) : e.id ≤ c.covered := by
  have hne : c.snapshot ≠ [] := List.ne_nil_of_mem he
  obtain ⟨s, hs⟩ := ht.startFrom hne
  rw [ht.covered_eq ho hne]
  exact ((mem_snapshot_iff ho ht hs).mp he).2.2

theorem Live.increasing (ho : InOrder h) (hl : Live h c) :
    c.delivered.Pairwise fun a b => a.id < b.id := by
  have hpair := ho.numbered.pairwise
  rw [hl.delivered, List.pairwise_append]
  refine ⟨hpair.sublist hl.taken.snapshot_sublist, hpair.sublist fromQueue_sublist, ?_⟩
  intro a ha b hb
  have h1 := hl.taken.snapshot_le_covered ho ha
  have h2 := ((mem_fromQueue_iff ho).mp hb).2.1
  omega

theorem Replaying.increasing (ho : InOrder h) (hr : Replaying h c) :
    c.delivered.Pairwise fun a b => a.id < b.id := by
  have hsnap := ho.numbered.pairwise.sublist hr.taken.snapshot_sublist
  rw [← hr.split, List.pairwise_append] at hsnap
  exact hsnap.1

theorem Live.delivered_mem (hl : Live h c) : ∀ e ∈ c.delivered, e ∈ h.pushed := by
  intro e he
  rw [hl.delivered, List.mem_append] at he
  rcases he with he | he
  · exact hl.taken.snapshot_sublist.subset he
  · exact fromQueue_sublist.subset he

theorem Replaying.delivered_mem (hr : Replaying h c) : ∀ e ∈ c.delivered, e ∈ h.pushed := by
  intro e he
  apply hr.taken.snapshot_sublist.subset
  rw [← hr.split]
  exact List.mem_append_left _ he

/-! ## Gaps -/

theorem Taken.snapshot_contiguous (ho : InOrder h) (ht : Taken h c) {a b : EventEnvelope V}
    (ha : a ∈ c.snapshot) (hb : b ∈ c.snapshot) {e : EventEnvelope V} (he : e ∈ h.pushed)
    (h1 : a.id < e.id) (h2 : e.id < b.id) : e ∈ c.snapshot := by
  obtain ⟨s, hs⟩ := ht.startFrom (List.ne_nil_of_mem ha)
  rw [mem_snapshot_iff ho ht hs] at ha hb ⊢
  exact ⟨he, ha.2.1.trans h1, (h2.trans_le hb.2.2).le⟩

theorem exists_event (ho : InOrder h) {n : ℕ} (h0 : 0 < n) (hn : n ≤ h.pushed.length) :
    ∃ e ∈ h.pushed, e.id = n := by
  have hget : h.pushed[n - 1]? = some (h.pushed.get ⟨n - 1, by omega⟩) := by
    rw [List.getElem?_eq_getElem (by omega)]
    rfl
  refine ⟨_, List.mem_of_getElem? hget, ?_⟩
  have := ho.numbered _ _ hget
  omega

theorem exists_between (ho : InOrder h) {b : EventEnvelope V} (hb : b ∈ h.pushed) {n : ℕ}
    (h0 : 0 < n) (hn : n < b.id) : ∃ e ∈ h.pushed, e.id = n :=
  exists_event ho h0 (hn.le.trans (ho.numbered.le_length hb))

/-- Consecutive events only skip what was missed. -/
def Gapless (c : Client V) (l : List (EventEnvelope V)) : Prop :=
  l.IsChain fun a b => ∀ n, a.id < n → n < b.id → n ∈ c.missedIds

theorem Replaying.gapless (ho : InOrder h) (hr : Replaying h c) : Gapless c c.delivered := by
  have hsub := hr.taken.snapshot_sublist
  have hsnap : Gapless c c.snapshot := by
    refine List.IsChain.imp_of_mem_imp ?_
      (isChain_of_pairwise (ho.numbered.pairwise.sublist hsub))
    intro a b ha hb hab n h1 h2
    obtain ⟨e, he, rfl⟩ := exists_between ho (hsub.subset hb) (by omega) h2
    exact absurd ⟨h1, h2⟩ (hab.2 e (hr.taken.snapshot_contiguous ho ha hb he h1 h2))
  rw [← hr.split] at hsnap
  exact hsnap.left_of_append

/-- **A gap in what a client was delivered is a lag.** -/
theorem Live.gapless (ho : InOrder h) (hl : Live h c) : Gapless c c.delivered := by
  have hsub := hl.delivered_mem
  refine List.IsChain.imp_of_mem_imp ?_ (isChain_of_pairwise (hl.increasing ho))
  intro a b ha hb hab n h1 h2
  obtain ⟨e, he, rfl⟩ := exists_between ho (hsub b hb) (by omega) h2
  have hno : e ∉ c.delivered := fun hmem => hab.2 e hmem ⟨h1, h2⟩
  by_contra hmissed
  apply hno
  rw [hl.delivered, List.mem_append] at ha hb ⊢
  rcases ha with ha | ha
  · rcases hb with hb | hb
    · exact .inl (hl.taken.snapshot_contiguous ho ha hb he h1 h2)
    · -- the gap lies across the switch to the queue
      have hne : c.snapshot ≠ [] := List.ne_nil_of_mem ha
      have hj := hl.taken.joined_le_covered ho hne
      have hbq := (mem_fromQueue_iff ho).mp hb
      by_cases hcov : e.id ≤ c.covered
      · left
        obtain ⟨s, hs⟩ := hl.taken.startFrom hne
        rw [hl.taken.covered_eq ho hne] at hcov
        rw [mem_snapshot_iff ho hl.taken hs] at ha ⊢
        exact ⟨he, ha.2.1.trans h1, hcov⟩
      · right
        rw [mem_fromQueue_iff ho]
        exact ⟨he, by omega, by omega, hmissed⟩
  · have haq := (mem_fromQueue_iff ho).mp ha
    rcases hb with hb | hb
    · have := hl.taken.snapshot_le_covered ho hb
      omega
    · right
      have hbq := (mem_fromQueue_iff ho).mp hb
      rw [mem_fromQueue_iff ho]
      exact ⟨he, by omega, by omega, hmissed⟩

/-- What was delivered, wherever the client stands. -/
theorem Delivery.ordered (ho : InOrder h) (hd : Delivery h c) :
    c.delivered.Pairwise (fun a b => a.id < b.id) ∧ (∀ e ∈ c.delivered, e ∈ h.pushed) ∧
      Gapless c c.delivered := by
  cases hd with
  | blank hb =>
    rw [hb.delivered]
    exact ⟨.nil, nofun, .nil⟩
  | replaying hr => exact ⟨hr.increasing ho, hr.delivered_mem, hr.gapless ho⟩
  | live hl => exact ⟨hl.increasing ho, hl.delivered_mem, hl.gapless ho⟩

/-! ## Every run -/

/-- **Ordered delivery.** With one producer, for both handlers and every start: the ids that a
client is delivered are strictly increasing; each event is one that was pushed, with its data; an id
that is skipped between two events was reported as lagged; and without lag the ids are an
interval. -/
theorem delivery_ordered (backlogLimit broadcastCapacity : ℕ) (metrics : Bool) {c : EventConf V}
    (h : Reaches eventStep (eventInit 1 backlogLimit broadcastCapacity metrics) c) :
    ∀ d, .client d ∈ c.tasks →
      d.delivered.Pairwise (fun a b => a.id < b.id) ∧
      (∀ e ∈ d.delivered, e ∈ c.shared.pushed ∧
        ∀ e' ∈ c.shared.pushed, e'.id = e.id → e'.data = e.data) ∧
      d.delivered.IsChain (fun a b => ∀ n, a.id < n → n < b.id → n ∈ d.missed.map (·.id)) ∧
      (d.missed = [] → d.delivered.IsChain fun a b => b.id = a.id + 1) := by
  intro d hd
  obtain ⟨ho, hall⟩ := delivery_reaches h
  obtain ⟨hinc, hmem, hgap⟩ := (hall d hd).delivery.ordered ho
  refine ⟨hinc, fun e he => ⟨hmem e he, fun e' he' hid => ?_⟩, hgap, fun hnone => ?_⟩
  · rw [ho.numbered.inj he' (hmem e he) hid]
  · rw [List.isChain_iff_getElem]
    intro i hi
    have hlt := List.pairwise_iff_getElem.mp hinc i (i + 1) (by omega) hi (by omega)
    by_contra hne
    have hmissed := List.isChain_iff_getElem.mp hgap i hi (d.delivered[i].id + 1) (by omega)
      (by omega)
    unfold Client.missedIds at hmissed
    rw [hnone] at hmissed
    cases hmissed

/-- A websocket client replays one event and is then delivered the next from its queue. -/
def replayRun : List (EventAct ℕ) :=
  [.env (.push 0 10), .env (.run 0), .env (.run 0), .spawn (.client .websocket (some 0)),
    .spawn (.setter 7), .task 1 .run, .task 1 .run, .task 0 .run, .task 0 .run, .task 0 .run,
    .task 0 .run, .task 0 .run, .task 0 .run, .task 0 .run, .env (.push 0 20), .env (.run 0),
    .env (.run 0), .task 0 .run]

theorem replayRun_delivered :
    (exec eventStep (eventInit 1 1 1 false) replayRun).bind (fun c =>
      (clientAt c 0).map fun d => (d.delivered.map (·.id), d.missedIds)) = some ([1, 2], []) := rfl

theorem delivery_ordered_replayed :
    ∃ c d, exec eventStep (eventInit 1 1 1 false) replayRun = some c ∧ clientAt c 0 = some d ∧
      d.delivered.map (·.id) = [1, 2] ∧ d.delivered.IsChain fun a b => b.id = a.id + 1 := by
  obtain ⟨c, d, hc, hd, hids⟩ := exec_observed replayRun_delivered
  simp only [Prod.mk.injEq] at hids
  refine ⟨c, d, hc, hd, hids.1, ?_⟩
  exact (delivery_ordered 1 1 false ⟨_, hc⟩ d (clientAt_mem hd)).2.2.2
    (List.map_eq_nil_iff.mp hids.2)

end CasperNodeProxy
