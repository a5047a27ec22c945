import CasperNodeProxy.Sse.Cursor
import CasperNodeProxy.Lib.Stutter

/-!
# What one lifetime pushes

`start_from` is the id of the last event that was received, and the upstream replays from that event
on: the first event of a connection that resumes is one that the listener already had. So a lifetime
goes through an interval of the log, and repeats an event in place when it reconnects.

* `Segment`: the interval `[a, b)` that a lifetime is done with, and where its connection stands.
* `segment_step`: the step lemma.
* **`unrepeated_iff`**: a run pushes no event twice if and only if it never pushes the first event
  of a connection that resumes.
-/

namespace CasperNodeProxy

open Log Run Stutter

variable {E V : Type} {p : Process E V} {log : List (Entry E)} {a b : ℕ} {startFrom : Option ℕ}
  {l : Listener E V}

/-! ## The interval -/

/-- The envelopes of the interval `[a, b)` that are pushed. -/
def segment (p : Process E V) (log : List (Entry E)) (a b : ℕ) : List (SseEnvelope E) :=
  (((log.take b).drop a).filter fun e => p.pushes e.data).map Entry.envelope

/-- Where the next event stands: behind the interval, or `again` at its end. Before anything was
received it may be any event. -/
def NextAt (a b : ℕ) (again : Bool) (position : ℕ) : Prop :=
  (a < b → if again then position + 1 = b else position = b) ∧ (a = b → again = false)

/-- Once something was received, `start_from` is the last id of the interval. -/
def segmentPlace (log : List (Entry E)) (a b : ℕ) : Place where
  boot := a = b
  noted startFrom := a < b → ∃ e, log[b - 1]? = some e ∧ startFrom = some e.id
  stream st := NextAt a b st.resumed st.position
  event k again := NextAt a b again k

/-- **The interval of a lifetime.** Everything in it that can be pushed was pushed, in order and
with repeats in place. -/
structure Segment (p : Process E V) (log : List (Entry E)) (a b : ℕ) (l : Listener E V) :
    Prop where
  le : a ≤ b
  length : b ≤ log.length
  processed : l.processed = [] ↔ a = b
  pushed : Stutters (segment p log a b) (l.pushed.map Pushed.source)
  standing : Standing (segmentPlace log a b) log l

/-! ## Lemmas about the interval -/

@[simp] theorem segment_self (a : ℕ) : segment p log a a = [] := by
  unfold segment
  rw [List.drop_eq_nil_of_le (by rw [List.length_take]; exact min_le_left _ _)]
  rfl

theorem segment_succ {k : ℕ} {e : Entry E} (he : log[k]? = some e) (hak : a ≤ k) :
    segment p log a (k + 1) =
      segment p log a k ++ if p.pushes e.data then [e.envelope] else [] := by
  have hk : k < log.length := (List.getElem?_eq_some_iff.mp he).1
  have htake : (log.take (k + 1)).drop a = (log.take k).drop a ++ [e] := by
    rw [List.take_add_one, he, Option.toList_some, List.drop_append_of_le_length]
    rw [List.length_take]
    omega
  unfold segment
  rw [htake, List.filter_append, List.map_append]
  congr 1
  cases hp : p.pushes e.data <;> simp [hp]

theorem envelope_not_mem_segment (hlog : Increasing log) {k : ℕ} {e : Entry E}
    (he : log[k]? = some e) : e.envelope ∉ segment p log a k := by
  intro hmem
  obtain ⟨e', he', heq⟩ := List.mem_map.mp hmem
  obtain ⟨j, hj⟩ := List.mem_iff_getElem?.mp (List.mem_of_mem_drop (List.mem_filter.mp he').1)
  have hjk : j < k := by
    have := (List.getElem?_eq_some_iff.mp hj).1
    rw [List.length_take] at this
    omega
  rw [List.getElem?_take_of_lt hjk] at hj
  have hid : e'.id = e.id := Option.some.inj (congrArg SseEnvelope.id heq)
  have := increasing_inj hlog hj he hid
  omega

theorem segment_nodup (p : Process E V) (hlog : Increasing log) (a b : ℕ) :
    (segment p log a b).Nodup := by
  have hsub : List.Sublist (((log.take b).drop a).filter fun e => p.pushes e.data) log :=
    List.filter_sublist.trans ((List.drop_sublist _ _).trans (List.take_sublist _ _))
  unfold segment List.Nodup
  rw [List.pairwise_map]
  refine (hlog.sublist hsub).imp fun hlt heq => ?_
  exact hlt.ne (Option.some.inj (congrArg SseEnvelope.id heq))

theorem Segment.mono {log' : List (Entry E)} (h : Segment p log a b l) (hpre : log <+: log') :
    Segment p log' a b l := by
  refine ⟨h.le, h.length.trans hpre.length_le, h.processed, ?_, ?_⟩
  · unfold segment
    rw [prefix_take hpre h.length]
    exact h.pushed
  · refine Standing.mono (P := segmentPlace log a b) (fun s hs hab => ?_) (fun _ ho => ho)
      (fun _ _ hk => hk) hpre id h.standing
    obtain ⟨e, he, hse⟩ := hs hab
    exact ⟨e, prefix_getElem? hpre he, hse⟩

/-! ## The step lemma -/

/-- The interval begins with the first event that is delivered, and grows by each one that did not
come again. -/
theorem segment_deliver {k : ℕ} {e : Entry E} {again : Bool} (h : Segment p log a b l)
    (he : log[k]? = some e) (hk : NextAt a b again k) (hst : l.startFrom = some e.id) :
    ∃ a', Segment p log a' (k + 1) (l.deliver p ⟨e.envelope, ⟨k + 1, false⟩, again⟩) := by
  have hlt : k < log.length := (List.getElem?_eq_some_iff.mp he).1
  have hne : l.processed ++ e.envelope.id.toList ≠ [] := by simp [Entry.envelope]
  have hstand : ∀ a', Standing (segmentPlace log a' (k + 1)) log
      (l.deliver p ⟨e.envelope, ⟨k + 1, false⟩, again⟩) := fun a' =>
    standing_delivered (fun _ => ⟨e, he, hst⟩) ⟨fun _ => rfl, fun _ => rfl⟩
  have hsources : (l.deliver p ⟨e.envelope, ⟨k + 1, false⟩, again⟩).pushed.map Pushed.source =
      l.pushed.map Pushed.source ++ if p.pushes e.data then [e.envelope] else [] :=
    feed_sources p l e.envelope
  have hpushed := h.pushed
  rcases Nat.eq_or_lt_of_le h.le with rfl | hab
  · refine ⟨k, Nat.le_succ k, hlt, iff_of_false hne (Nat.ne_of_lt k.lt_succ_self), ?_, hstand k⟩
    rw [segment_self] at hpushed
    rw [hsources, segment_succ he le_rfl, segment_self]
    split_ifs
    · exact .next _ hpushed
    · simpa using hpushed
  · have hnext := hk.1 hab
    cases again with
    | false =>
      have hnext : k = b := hnext
      refine ⟨a, by omega, hlt, iff_of_false hne (by omega), ?_, hstand a⟩
      rw [hsources, segment_succ he (by omega), hnext]
      split_ifs
      · exact .next _ hpushed
      · simpa using hpushed
    | true =>
      have hnext : k + 1 = b := hnext
      refine ⟨a, by omega, hlt, iff_of_false hne (by omega), ?_, hstand a⟩
      rw [← hnext, segment_succ he (by omega)] at hpushed
      rw [hsources, segment_succ he (by omega)]
      split_ifs at hpushed ⊢
      · exact .again hpushed
      · simpa using hpushed

/-- **What a step does to the interval.** -/
theorem segment_step {w w' : World E} {l' : Listener E V} {act : ListenerAct E}
    (hlog : Increasing w.log) (h : Segment p w.log a b l) (hs : ListenerStep p w l act w' l') :
    ∃ a' b', Segment p w.log a' b' l' := by
  rcases listenerStep_delivers hs with ⟨item, hpc, -, -, rfl⟩ | ⟨hend, hpushed, hproc⟩
  · obtain ⟨hhand, hst⟩ := standing_deliver h.standing hpc
    cases hhand with
    | noId version stream hn ho =>
      obtain ⟨hproc, hpushed⟩ := deliver_noId p l version stream false
      refine ⟨a, b, h.le, h.length, ?_, ?_, standing_delivered hn ho⟩
      · rw [hproc]
        exact h.processed
      · rw [hpushed]
        exact h.pushed
    | entry k e again he hk =>
      obtain ⟨a', hseg⟩ := segment_deliver h he hk (hst e.id rfl)
      exact ⟨a', k + 1, hseg⟩
  · refine ⟨a, b, h.le, h.length, hproc ▸ h.processed, hpushed ▸ h.pushed, ?_⟩
    refine standing_step h.standing hs hend ?_ ?_ ?_ fun _ _ ho _ => ho
    · intro s hb _ hab
      exact absurd hb hab.ne
    · -- a connection that resumes begins with the last event again
      intro s _ hn
      refine ⟨fun hab => ?_, fun hab => ?_⟩
      · obtain ⟨e, he, hse⟩ := hn hab
        cases hse
        have hpos : w.position e.id = b - 1 := increasing_findIdx hlog he
        dsimp only
        rw [hpos, List.isEmpty_eq_false_iff.mpr (mt h.processed.mp hab.ne)]
        exact Nat.sub_add_cancel (by omega)
      · rw [h.processed.mpr hab]
        rfl
    · intro n _ hn _ _
      refine ⟨fun hab => ?_, fun _ => rfl⟩
      obtain ⟨e, -, hse⟩ := hn hab
      cases hse

/-! ## Every run of one lifetime -/

/-- A lifetime that begins now. -/
def feedInit (p : Process E V) (w : World E) : Feed E V := ⟨w, .new p⟩

/-- The invariant of a lifetime: what it pushed is a segment of the log. -/
structure Fed (p : Process E V) (c : Feed E V) : Prop where
  increasing : Increasing c.world.log
  segment : ∃ a b, Segment p c.world.log a b c.listener
  onBus : OnBus c.listener

theorem segment_new (p : Process E V) (log : List (Entry E)) : Segment p log 0 0 (.new p) := by
  refine ⟨le_rfl, Nat.zero_le _, iff_of_true rfl rfl, ?_, rfl⟩
  rw [segment_self]
  exact .nil

theorem fed_init (p : Process E V) {w : World E} (hw : Increasing w.log) : Fed p (feedInit p w) :=
  ⟨hw, ⟨0, 0, segment_new p w.log⟩, numbered_nil, rfl, rfl⟩

theorem fed_step {c c' : Feed E V} {act : FeedAct E} (h : Fed p c)
    (hs : feedStep p c act = some c') : Fed p c' := by
  obtain ⟨hlog, ⟨a, b, hseg⟩, hbus⟩ := h
  rcases feedStep_cases hs with ⟨x, -, hx⟩ | ⟨e, -, hw, hl⟩ | ⟨i, -, hw, hl⟩
  · have hseg' := segment_step hlog hseg hx
    rw [← listenerStep_log hx] at hlog hseg'
    exact ⟨hlog, hseg', onBus_listenerStep hbus hx⟩
  · obtain ⟨hw', hlog'⟩ := publish_cases hw hlog
    refine ⟨hlog', ⟨a, b, ?_⟩, hl ▸ hbus⟩
    rw [hl, hw']
    exact hseg.mono (List.prefix_append _ _)
  · obtain ⟨id, -, hw'⟩ := arrive_cases hw
    rw [← hl] at hseg hbus
    rw [show c.world.log = c'.world.log by rw [hw']; rfl] at hlog hseg
    exact ⟨hlog, ⟨a, b, hseg⟩, hbus⟩

/-! ## Repeats -/

/-- No event of the upstream is pushed twice, and no two ids of the proxy carry the same one. -/
structure Unrepeated (l : Listener E V) : Prop where
  once : (l.pushed.map Pushed.source).Nodup
  ids : ∀ x ∈ l.pushed, ∀ y ∈ l.pushed, x.source = y.source → x.event.id = y.event.id

theorem unrepeated_iff_nodup : Unrepeated l ↔ (l.pushed.map Pushed.source).Nodup := by
  refine ⟨Unrepeated.once, fun h => ⟨h, fun x hx y hy hxy => ?_⟩⟩
  rw [List.inj_on_of_nodup_map h hx hy hxy]

/-- The step pushes the first event of a connection that was opened after the listener had received
one. -/
def Resumes (p : Process E V) (c : Feed E V) (act : FeedAct E) : Prop :=
  ∃ item, act = .listener .ok ∧ c.listener.pc = .deliver item ∧ item.again = true ∧
    p.pushes item.envelope.data = true

/-- **The first event of a connection that resumes was pushed before**, and no other event was. -/
theorem mem_pushed_iff_again {item : Item E} (hlog : Increasing log) (h : Segment p log a b l)
    (hhand : InHand (segmentPlace log a b) log startFrom item)
    (hp : p.pushes item.envelope.data = true) :
    item.envelope ∈ l.pushed.map Pushed.source ↔ item.again = true := by
  rw [h.pushed.mem_iff]
  cases hhand with
  | noId version stream hn ho => cases hp
  | entry k e again he hk =>
    have hpe : p.pushes e.data = true := hp
    rcases Nat.eq_or_lt_of_le h.le with rfl | hab
    · rw [segment_self]
      exact iff_of_false (by simp) (by simpa using hk.2 rfl)
    · have hnext := hk.1 hab
      cases again with
      | false =>
        have hnext : k = b := hnext
        rw [← hnext]
        exact iff_of_false (envelope_not_mem_segment hlog he) (by simp)
      | true =>
        have hnext : k + 1 = b := hnext
        rw [← hnext, segment_succ he (by omega), if_pos hpe]
        simp

theorem unrepeated_step {c c' : Feed E V} {act : FeedAct E} (h : Fed p c)
    (hq : Unrepeated c.listener) (hs : feedStep p c act = some c') :
    Unrepeated c'.listener ↔ ¬ Resumes p c act := by
  have other : c'.listener.pushed = c.listener.pushed → ¬ Resumes p c act →
      (Unrepeated c'.listener ↔ ¬ Resumes p c act) := by
    intro hsame hr
    refine iff_of_true ?_ hr
    rw [unrepeated_iff_nodup, hsame]
    exact hq.once
  rcases feedStep_cases hs with ⟨x, hact, hx⟩ | ⟨e, hact, -, hl⟩ | ⟨i, hact, -, hl⟩
  · rcases listenerStep_delivers hx with ⟨item, hpc, hok, -, hl⟩ | ⟨hpc, hpush, -⟩
    · obtain ⟨a, b, hseg⟩ := h.segment
      obtain ⟨hhand, -⟩ := standing_deliver hseg.standing hpc
      have hsources : c'.listener.pushed.map Pushed.source = c.listener.pushed.map Pushed.source ++
          if p.pushes item.envelope.data then [item.envelope] else [] := by
        rw [hl]
        exact feed_sources p c.listener item.envelope
      by_cases hp : p.pushes item.envelope.data = true
      · have hresumes : Resumes p c act ↔ item.envelope ∈ c.listener.pushed.map Pushed.source := by
          rw [mem_pushed_iff_again h.increasing hseg hhand hp]
          constructor
          · rintro ⟨item', -, hpc', hagain, -⟩
            rw [hpc] at hpc'
            cases hpc'
            exact hagain
          · intro hagain
            exact ⟨item, hact.trans (congrArg _ hok), hpc, hagain, hp⟩
        rw [hresumes]
        rw [unrepeated_iff_nodup, hsources, if_pos hp, List.nodup_append]
        simp only [hq.once, List.nodup_singleton, List.mem_singleton, forall_eq, true_and]
        exact ⟨fun hall hmem => hall _ hmem rfl, fun hnew x hx hxe => hnew (hxe ▸ hx)⟩
      · -- an ApiVersion, or an event that cannot be serialised
        refine iff_of_true ?_ ?_
        · rw [unrepeated_iff_nodup, hsources, if_neg hp, List.append_nil]
          exact hq.once
        · rintro ⟨item', -, hpc', -, hp'⟩
          rw [hpc] at hpc'
          cases hpc'
          exact hp hp'
    · exact other hpush fun ⟨item, _, hpc', _⟩ => hpc item hpc'
  · refine other (congrArg _ hl) ?_
    rintro ⟨item, hact', -⟩
    rw [hact] at hact'
    cases hact'
  · refine other (congrArg _ hl) ?_
    rintro ⟨item, hact', -⟩
    rw [hact] at hact'
    cases hact'

/-- **When a lifetime repeats an event.** From any log with increasing ids and any contents of
Redis, a run pushes no event twice if and only if it never pushes the first event of a connection
that was opened after the listener had received one. -/
theorem unrepeated_iff (p : Process E V) (w : World E) (hw : Increasing w.log)
    (acts : List (FeedAct E)) {c : Feed E V}
    (hrun : exec (feedStep p) (feedInit p w) acts = some c) :
    Always (feedStep p) (fun c => Unrepeated c.listener) (feedInit p w) acts ↔
      Meets (feedStep p) (fun c act => ¬ Resumes p c act) (feedInit p w) acts :=
  always_iff_meets (fun _ _ _ h hs => fed_step h hs) (fun _ _ _ h hq hs => unrepeated_step h hq hs)
    (fed_init p hw) (unrepeated_iff_nodup.mpr List.nodup_nil) hrun

/-- The bus numbers what is pushed from one, and broadcasts it. -/
theorem onBus_reaches (p : Process E V) {w : World E} (hw : Increasing w.log) {c : Feed E V}
    (h : Reaches (feedStep p) (feedInit p w) c) : OnBus c.listener :=
  (h.invariant (fed_init p hw) fun _ _ _ hi hs => fed_step hi hs).onBus

/-- Events are numbers, and all of them can be serialised. -/
def plainProcess : Process ℕ ℕ where
  redisClient := true
  backlogLimit := 8
  broadcastCapacity := 8
  metrics := false
  sseToValue
    | .apiVersion version => some version
    | .other data => some data

/-- A log without events, and nothing in Redis. -/
def emptyWorld : World ℕ := ⟨[], none, [], none⟩

theorem emptyWorld_increasing : Increasing emptyWorld.log := List.Pairwise.nil

/-- One event is received and pushed; the connection ends, and the next one begins with the event
again. -/
def resumingRun : List (FeedAct ℕ) :=
  [.listener .ok, .listener .ok, .listener (.okLive 0), .publish ⟨1, .other 10⟩, .listener .ok,
    .listener .ok, .listener .ok, .listener .ok, .listener .ok, .listener .err, .listener .ok,
    .listener .ok, .listener .ok, .listener .ok, .listener .ok, .listener .ok, .listener .ok]

theorem resumingRun_pushed :
    (exec (feedStep plainProcess) (feedInit plainProcess emptyWorld) resumingRun).map
      (fun c => c.listener.pushed) =
    some [⟨⟨1, 10⟩, ⟨some 1, .other 10⟩⟩, ⟨⟨2, 10⟩, ⟨some 1, .other 10⟩⟩] := rfl

/-- **An event is pushed twice.** The bus carries it under the ids 1 and 2. -/
theorem event_pushed_twice :
    ∃ c, exec (feedStep plainProcess) (feedInit plainProcess emptyWorld) resumingRun = some c ∧
      c.listener.bus.sender.sent = [⟨1, 10⟩, ⟨2, 10⟩] ∧ ¬ Unrepeated c.listener := by
  obtain ⟨c, hc, hpushed⟩ := Option.map_eq_some_iff.mp resumingRun_pushed
  refine ⟨c, hc, ?_, ?_⟩
  · rw [(onBus_reaches plainProcess emptyWorld_increasing ⟨_, hc⟩).sent, hpushed]
    rfl
  · rw [unrepeated_iff_nodup, hpushed]
    decide

theorem resumingRun_resumes :
    ¬ Meets (feedStep plainProcess) (fun c act => ¬ Resumes plainProcess c act)
      (feedInit plainProcess emptyWorld) resumingRun := by
  obtain ⟨c, hc, hpushed⟩ := Option.map_eq_some_iff.mp resumingRun_pushed
  intro hmeets
  have hall :=
    (unrepeated_iff plainProcess emptyWorld emptyWorld_increasing resumingRun hc).mpr hmeets
  have hlast := (hall.last hc).once
  rw [hpushed] at hlast
  revert hlast
  decide

end CasperNodeProxy
