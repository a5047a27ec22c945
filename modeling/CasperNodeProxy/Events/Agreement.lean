import CasperNodeProxy.Events.Order

/-!
# When two clients of `/events` agree

Without lag a client is delivered one interval of the log. Where it begins depends on how much was
in the log when the snapshot was taken, and the two handlers take theirs at different times.

* `replayStart`: how many events of the log stand before what a client is delivered.
* `Live.interval`, `Replaying.interval`: what is delivered is an interval behind `replayStart`.
* **`agree_iff_same_start`**: two clients that subscribed at the same point agree for as long as
  their intervals begin at the same event, and only then.
-/

namespace CasperNodeProxy

open Channel Log Run

variable {V : Type} {h : Hub V} {c : Client V}

/-- Where the events of a client begin in the log: at its snapshot, if there is anything in it, or
where it subscribed. -/
def replayStart (backlogLimit : ℕ) (startFrom : Option ℕ) (joined appendedAt : ℕ) : ℕ :=
  match startFrom with
  | none => joined
  | some s =>
    if skipped backlogLimit s appendedAt < appendedAt then skipped backlogLimit s appendedAt
    else joined

/-- Where the events of this client begin. -/
def Client.start (backlogLimit : ℕ) (c : Client V) : ℕ :=
  replayStart backlogLimit c.startFrom c.joined c.appendedAt

/-! ## Intervals -/

/-- A client whose snapshot is empty begins where it subscribed, any other at its snapshot. -/
theorem Taken.start_eq (ho : InOrder h) (ht : Taken h c) :
    (c.snapshot = [] ∧ c.start h.bus.backlogLimit = c.joined) ∨
    (c.covered = c.appendedAt ∧ c.joined ≤ c.appendedAt ∧
      c.start h.bus.backlogLimit < c.appendedAt ∧
      c.snapshot = (h.pushed.take c.appendedAt).drop (c.start h.bus.backlogLimit)) := by
  unfold Client.start replayStart
  cases hs : c.startFrom with
  | none => exact .inl ⟨ht.absent hs, rfl⟩
  | some s =>
    obtain ⟨hj, ha, hsnap⟩ := ht.present s hs
    have hlen : (h.pushed.take c.appendedAt).length = c.appendedAt :=
      List.length_take_of_le (ha.trans ho.appended_pushed.length_le)
    dsimp only
    split_ifs with hlt
    · right
      have hne : c.snapshot ≠ [] := by
        intro hnil
        have := congrArg List.length (hsnap.symm.trans hnil)
        rw [List.length_drop, hlen, List.length_nil] at this
        omega
      exact ⟨ht.covered_eq ho hne, hj, hlt, hsnap⟩
    · left
      refine ⟨?_, rfl⟩
      rw [hsnap, List.drop_eq_nil_of_le (by omega)]

theorem Replaying.interval (ho : InOrder h) (hr : Replaying h c) :
    c.delivered <+: h.pushed.drop (c.start h.bus.backlogLimit) := by
  have hpre : c.delivered <+: c.snapshot := ⟨c.backlog, hr.split⟩
  rcases hr.taken.start_eq ho with ⟨hnil, -⟩ | ⟨-, -, -, hsnap⟩
  · rw [hnil, List.prefix_nil] at hpre
    rw [hpre]
    exact List.nil_prefix
  · rw [hsnap] at hpre
    exact hpre.trans (drop_take_initial _ _ _)

/-- **Without lag a client is delivered an interval of the log.** -/
theorem Live.interval (ho : InOrder h) (hl : Live h c) (hlag : c.missed = []) :
    c.delivered <+: h.pushed.drop (c.start h.bus.backlogLimit) := by
  have hq : fromQueue h c = (h.pushed.take c.liveRx.next).drop (max c.joined c.covered) := by
    unfold fromQueue Client.missedIds
    rw [hlag]
    exact List.filter_eq_self.mpr fun e _ => by simp
  rw [hl.delivered, hq]
  rcases hl.taken.start_eq ho with ⟨hnil, hstart⟩ | ⟨hcov, hj, hlt, hsnap⟩
  · have hcov : c.covered = 0 := by
      unfold Client.covered
      rw [hnil]
      rfl
    rw [hnil, hstart, hcov, List.nil_append, Nat.max_eq_left (Nat.zero_le _)]
    exact drop_take_initial _ _ _
  · rw [hcov, Nat.max_eq_right hj, hsnap]
    by_cases hn : c.liveRx.next ≤ c.appendedAt
    · have hnil : (h.pushed.take c.liveRx.next).drop c.appendedAt = [] := by
        apply List.drop_eq_nil_of_le
        rw [List.length_take]
        omega
      rw [hnil, List.append_nil]
      exact drop_take_initial _ _ _
    · -- the queue goes on where the snapshot ends
      rw [interval_append _ hlt.le (by omega)]
      exact drop_take_initial _ _ _

theorem Delivery.interval (ho : InOrder h) (hd : Delivery h c) (hlag : c.missed = []) :
    c.delivered <+: h.pushed.drop (c.start h.bus.backlogLimit) := by
  cases hd with
  | blank hb =>
    rw [hb.delivered]
    exact List.nil_prefix
  | replaying hr => exact hr.interval ho
  | live hl => exact hl.interval ho hlag

/-! ## Two clients -/

theorem agree_of_initial {α : Type} {l l₁ l₂ : List α} (h₁ : l₁ <+: l) (h₂ : l₂ <+: l) :
    l₁ <+: l₂ ∨ l₂ <+: l₁ := by
  rcases Nat.le_total l₁.length l₂.length with hle | hle
  · exact .inl (List.prefix_of_prefix_length_le h₁ h₂ hle)
  · exact .inr (List.prefix_of_prefix_length_le h₂ h₁ hle)

theorem head_id (ho : InOrder h) {n : ℕ} {l : List (EventEnvelope V)} (hl : l <+: h.pushed.drop n)
    {e : EventEnvelope V} (he : l.head? = some e) : e.id = n + 1 := by
  obtain ⟨r, hr⟩ := hl
  have hget : h.pushed[n]? = some e := by
    rw [← Nat.add_zero n, ← List.getElem?_drop, ← hr, ← List.head?_eq_getElem?]
    cases l with
    | nil => cases he
    | cons a l => exact he
  exact ho.numbered _ _ hget

theorem start_eq_of_agree (ho : InOrder h) {n₁ n₂ : ℕ} {l₁ l₂ : List (EventEnvelope V)}
    (h₁ : l₁ <+: h.pushed.drop n₁) (h₂ : l₂ <+: h.pushed.drop n₂) (hne : l₁ ≠ [])
    (hpre : l₁ <+: l₂) : n₁ = n₂ := by
  obtain ⟨e, he⟩ : ∃ e, l₁.head? = some e := by
    cases l₁ with
    | nil => exact absurd rfl hne
    | cons e l => exact ⟨e, rfl⟩
  have he₂ : l₂.head? = some e := by
    obtain ⟨r, rfl⟩ := hpre
    cases l₁ with
    | nil => cases he
    | cons a l => exact he
  have := head_id ho h₁ he
  have := head_id ho h₂ he₂
  omega

/-! ## Every run -/

/-- The two sequences of events are equal as far as they go. -/
def Agree (c d : Client V) : Prop := c.delivered <+: d.delivered ∨ d.delivered <+: c.delivered

/-- **When two clients agree.** With one producer, take two clients, of whatever handler, that want
the same start, subscribed at the same point and never lagged. If they begin at the same event, they
agree at all times; and once both were delivered something, they agree only then. -/
theorem agree_iff_same_start (backlogLimit broadcastCapacity : ℕ) (metrics : Bool)
    {c : EventConf V}
    (h : Reaches eventStep (eventInit 1 backlogLimit broadcastCapacity metrics) c) :
    ∀ d e, .client d ∈ c.tasks → .client e ∈ c.tasks → d.startFrom = e.startFrom →
      d.joined = e.joined → d.missed = [] → e.missed = [] →
      (replayStart (max backlogLimit 1) d.startFrom d.joined d.appendedAt =
          replayStart (max backlogLimit 1) e.startFrom e.joined e.appendedAt → Agree d e) ∧
      (d.delivered ≠ [] → e.delivered ≠ [] →
        (Agree d e ↔ replayStart (max backlogLimit 1) d.startFrom d.joined d.appendedAt =
          replayStart (max backlogLimit 1) e.startFrom e.joined e.appendedAt)) := by
  intro d e hd he hs hj hmd hme
  obtain ⟨ho, hall⟩ := delivery_reaches h
  have h₁ := (hall d hd).delivery.interval ho hmd
  have h₂ := (hall e he).delivery.interval ho hme
  rw [limit_reaches h] at h₁ h₂
  have hsame : d.start (max backlogLimit 1) = e.start (max backlogLimit 1) → Agree d e := by
    intro heq
    rw [← heq] at h₂
    exact agree_of_initial h₁ h₂
  refine ⟨hsame, fun hne₁ hne₂ => ⟨fun hagree => ?_, hsame⟩⟩
  rcases hagree with hpre | hpre
  · exact start_eq_of_agree ho h₁ h₂ hne₁ hpre
  · exact (start_eq_of_agree ho h₂ h₁ hne₂ hpre).symm

/-- Both clients want the events from `startFrom` on and subscribe before there is any. The SSE
stream takes its snapshot at once, the websocket handler after it was woken; two events are pushed
in between. -/
def formsRun (startFrom : ℕ) : List (EventAct ℕ) :=
  [.spawn (.client .websocket (some startFrom)), .spawn (.client .sse (some startFrom)),
    .spawn (.setter 7), .task 0 .run, .task 1 .run, .task 1 .run, .env (.push 0 10), .env (.run 0),
    .env (.run 0), .env (.push 0 20), .env (.run 0), .env (.run 0), .task 2 .run, .task 2 .run,
    .task 0 .run, .task 0 .run, .task 0 .run, .task 0 .run, .task 0 .run, .task 0 .run,
    .task 0 .run, .task 0 .run, .task 1 .run, .task 1 .run, .task 1 .run, .task 1 .run,
    .task 1 .run, .task 1 .run]

theorem formsRun_two :
    (exec eventStep (eventInit 1 8 8 false) (formsRun 2)).bind (fun c =>
      (clientAt c 0).bind fun d => (clientAt c 1).map fun e =>
        ((d.kind, d.startFrom, d.joined, d.appendedAt, d.missed, d.delivered),
          (e.kind, e.startFrom, e.joined, e.appendedAt, e.missed, e.delivered))) =
    some ((.websocket, some 2, 0, 2, [], [⟨2, 20⟩]),
      (.sse, some 2, 0, 0, [], [⟨1, 10⟩, ⟨2, 20⟩])) := rfl

theorem formsRun_one :
    (exec eventStep (eventInit 1 8 8 false) (formsRun 1)).bind (fun c =>
      (clientAt c 0).bind fun d => (clientAt c 1).map fun e =>
        ((d.startFrom, d.joined, d.appendedAt, d.missed),
          (e.startFrom, e.joined, e.appendedAt, e.missed))) =
    some ((some 1, 0, 2, []), (some 1, 0, 0, [])) := rfl

/-- **The two forms disagree.** From event 2 on, the websocket client begins with event 2, the SSE
client with event 1. -/
theorem forms_disagree :
    ∃ c d e, exec eventStep (eventInit 1 8 8 false) (formsRun 2) = some c ∧
      clientAt c 0 = some d ∧ clientAt c 1 = some e ∧ d.kind = .websocket ∧ e.kind = .sse ∧
      d.startFrom = e.startFrom ∧ d.joined = e.joined ∧ d.missed = [] ∧ e.missed = [] ∧
      ¬ Agree d e := by
  obtain ⟨c, hc, hd⟩ := Option.bind_eq_some_iff.mp formsRun_two
  obtain ⟨d, hd, he⟩ := Option.bind_eq_some_iff.mp hd
  obtain ⟨e, he, hfields⟩ := Option.map_eq_some_iff.mp he
  simp only [Prod.mk.injEq] at hfields
  obtain ⟨⟨hk₁, hs₁, hj₁, -, hm₁, hd₁⟩, hk₂, hs₂, hj₂, -, hm₂, hd₂⟩ := hfields
  refine ⟨c, d, e, hc, hd, he, hk₁, hk₂, hs₁.trans hs₂.symm, hj₁.trans hj₂.symm, hm₁, hm₂, ?_⟩
  unfold Agree
  rw [hd₁, hd₂]
  decide

/-- From event 2 on the two begin at different events; from event 1 on they begin at the same one,
and agree. -/
theorem formsRun_starts :
    (∃ c d e, exec eventStep (eventInit 1 8 8 false) (formsRun 2) = some c ∧
      clientAt c 0 = some d ∧ clientAt c 1 = some e ∧
      replayStart (max 8 1) d.startFrom d.joined d.appendedAt ≠
        replayStart (max 8 1) e.startFrom e.joined e.appendedAt) ∧
    ∃ c d e, exec eventStep (eventInit 1 8 8 false) (formsRun 1) = some c ∧
      clientAt c 0 = some d ∧ clientAt c 1 = some e ∧
      replayStart (max 8 1) d.startFrom d.joined d.appendedAt =
        replayStart (max 8 1) e.startFrom e.joined e.appendedAt ∧ Agree d e := by
  constructor
  · obtain ⟨c, hc, hd⟩ := Option.bind_eq_some_iff.mp formsRun_two
    obtain ⟨d, hd, he⟩ := Option.bind_eq_some_iff.mp hd
    obtain ⟨e, he, hfields⟩ := Option.map_eq_some_iff.mp he
    simp only [Prod.mk.injEq] at hfields
    obtain ⟨⟨-, hs₁, hj₁, ha₁, -⟩, -, hs₂, hj₂, ha₂, -⟩ := hfields
    refine ⟨c, d, e, hc, hd, he, ?_⟩
    rw [hs₁, hj₁, ha₁, hs₂, hj₂, ha₂]
    decide
  · obtain ⟨c, hc, hd⟩ := Option.bind_eq_some_iff.mp formsRun_one
    obtain ⟨d, hd, he⟩ := Option.bind_eq_some_iff.mp hd
    obtain ⟨e, he, hfields⟩ := Option.map_eq_some_iff.mp he
    simp only [Prod.mk.injEq] at hfields
    obtain ⟨⟨hs₁, hj₁, ha₁, hm₁⟩, hs₂, hj₂, ha₂, hm₂⟩ := hfields
    have hstart : replayStart (max 8 1) d.startFrom d.joined d.appendedAt =
        replayStart (max 8 1) e.startFrom e.joined e.appendedAt := by
      rw [hs₁, hj₁, ha₁, hs₂, hj₂, ha₂]
      decide
    exact ⟨c, d, e, hc, hd, he, hstart, (agree_iff_same_start 8 8 false ⟨_, hc⟩ d e
      (clientAt_mem hd) (clientAt_mem he) (hs₁.trans hs₂.symm) (hj₁.trans hj₂.symm) hm₁ hm₂).1
      hstart⟩

end CasperNodeProxy
