import CasperNodeProxy.Sse.Listener

/-!
# Where the listener stands in the log

The position of the listener is in three places in turn: in `start_from` while it has no connection,
in the open connection, and in the event that the loop body works on.

* `Place`: what is known of the position in each of them.
* `Standing`: which of them counts at which point of the loop.
* **`standing_step`**: every step other than the end of the loop body only moves the position from
  one to the next.
-/

namespace CasperNodeProxy

open Log

variable {E V : Type} {p : Process E V} {log : List (Entry E)} {startFrom : Option ℕ}
  {l l' : Listener E V}

/-- What is known of a listener before it has an id, of its `start_from`, of its stream, and of the
event that it has in hand. -/
structure Place where
  boot : Prop
  noted : Option ℕ → Prop
  stream : SseStream → Prop
  /-- Of the position of an event, and whether it came again. -/
  event : ℕ → Bool → Prop

variable {P P' : Place}

/-- The envelope in the loop body is an ApiVersion without an id, or an event of the log. -/
inductive InHand (P : Place) (log : List (Entry E)) (startFrom : Option ℕ) : Item E → Prop
  | noId (version : E) (stream : SseStream) (hn : P.noted startFrom) (ho : P.stream stream) :
      InHand P log startFrom ⟨⟨none, .apiVersion version⟩, stream, false⟩
  | entry (k : ℕ) (e : Entry E) (again : Bool) (he : log[k]? = some e) (hk : P.event k again) :
      InHand P log startFrom ⟨e.envelope, ⟨k + 1, false⟩, again⟩

/-- What is known of a listener at its await points. -/
def Standing (P : Place) (log : List (Entry E)) (l : Listener E V) : Prop :=
  match l.pc with
  | .connectRedis | .loadLastId => P.boot
  | .connect | .sleep => P.noted l.startFrom
  | .next stream => P.noted l.startFrom ∧ P.stream stream
  | .received item => InHand P log l.startFrom item
  | .redisConn item id | .set item id =>
    InHand P log l.startFrom item ∧ item.envelope.id = some id ∧ l.startFrom = some id
  | .deliver item =>
    InHand P log l.startFrom item ∧ ∀ id, item.envelope.id = some id → l.startFrom = some id
  | .returned => True

/-! ## Less is known, more is in the log -/

section Mono

variable {log' : List (Entry E)} (hn : ∀ s, P.noted s → P'.noted s)
  (ho : ∀ st, P.stream st → P'.stream st) (hk : ∀ k again, P.event k again → P'.event k again)
  (hpre : log <+: log')

include hn ho hk hpre in
theorem InHand.mono {item : Item E} (h : InHand P log startFrom item) :
    InHand P' log' startFrom item := by
  cases h with
  | noId version stream h₁ h₂ => exact .noId version stream (hn _ h₁) (ho _ h₂)
  | entry k e again he h => exact .entry k e again (prefix_getElem? hpre he) (hk _ _ h)

include hn ho hk hpre in
theorem Standing.mono (hb : P.boot → P'.boot) (h : Standing P log l) : Standing P' log' l := by
  unfold Standing at h ⊢
  split at h
  · exact hb h
  · exact hb h
  · exact hn _ h
  · exact hn _ h
  · exact ⟨hn _ h.1, ho _ h.2⟩
  · exact h.mono hn ho hk hpre
  · exact ⟨h.1.mono hn ho hk hpre, h.2⟩
  · exact ⟨h.1.mono hn ho hk hpre, h.2⟩
  · exact ⟨h.1.mono hn ho hk hpre, h.2⟩
  · trivial

end Mono

/-! ## Steps -/

/-- **What a step does to the position.** It has to be known what Redis is asked for, where a
connection begins, and which event a connection yields. -/
theorem standing_step {w w' : World E} {act : ListenerAct E} (h : Standing P w.log l)
    (hs : ListenerStep p w l act w' l') (hend : ∀ item, l.pc ≠ .deliver item)
    (hload : ∀ s, P.boot → s = none ∨ s = w.stored → P.noted s)
    (hconnect : ∀ s, l.startFrom = some s → P.noted (some s) →
      P.stream ⟨w.position s, !l.processed.isEmpty⟩)
    (hlive : ∀ n, l.startFrom = none → P.noted none → n ≤ w.log.length → act = .okLive n →
      P.stream ⟨n, false⟩)
    (hitem : ∀ stream e, P.stream stream → w.log[stream.position]? = some e →
      P.event stream.position stream.resumed) :
    Standing P w.log l' := by
  unfold Standing at h
  cases hs with
  | connectRedis act conn hpc hc =>
    rw [hpc] at h
    exact h
  | loadLastId act s hpc ha =>
    rw [hpc] at h
    exact hload s h (loaded_cases ha)
  | connect s hpc hs =>
    rw [hpc] at h
    refine ⟨h, ?_⟩
    rw [hs] at h
    exact hconnect s hs h
  | connectLive position hpc hs hp =>
    rw [hpc] at h
    refine ⟨h, ?_⟩
    rw [hs] at h
    exact hlive position hs h hp rfl
  | stop hpc => trivial
  | item stream e hpc he =>
    rw [hpc] at h
    exact .entry _ e _ he (hitem stream e h.2 he)
  | apiVersion stream version hpc =>
    rw [hpc] at h
    exact .noId version stream h.1 h.2
  | disconnect hpc =>
    rcases hpc with hpc | ⟨stream, hpc⟩ <;> rw [hpc] at h
    · exact h
    · exact h.1
  | note item id pc hpc hid hc =>
    rw [hpc] at h
    have hhand : InHand P w.log (some id) item := by
      cases h with
      | noId version stream hn ho => cases hid
      | entry k e again he hk => exact .entry k e again he hk
    rcases hc with rfl | rfl
    · exact ⟨hhand, hid, rfl⟩
    · exact ⟨hhand, fun _ hid' => hid.symm.trans hid'⟩
  | noId item hpc hid =>
    rw [hpc] at h
    refine ⟨h, fun id hid' => ?_⟩
    rw [hid] at hid'
    cases hid'
  | redis item id hpc =>
    rw [hpc] at h
    exact h
  | noRedis item id hpc | set item id hpc | setFails item id hpc =>
    rw [hpc] at h
    obtain ⟨hhand, hid, hs⟩ := h
    exact ⟨hhand, fun id' hid' => hs.trans (hid.symm.trans hid')⟩
  | deliver item hpc => exact absurd hpc (hend item)
  | retry hpc =>
    rw [hpc] at h
    exact h

theorem standing_deliver {item : Item E} (h : Standing P log l) (hpc : l.pc = .deliver item) :
    InHand P log l.startFrom item ∧ ∀ id, item.envelope.id = some id → l.startFrom = some id := by
  unfold Standing at h
  rw [hpc] at h
  exact h

theorem standing_delivered {item : Item E} (hn : P.noted l.startFrom) (ho : P.stream item.stream) :
    Standing P log (l.deliver p item) := by
  refine ⟨?_, ho⟩
  change P.noted (l.feed p item.envelope).startFrom
  rw [feed_startFrom]
  exact hn

/-- An ApiVersion without an id leaves the listener where it is. -/
theorem deliver_noId (p : Process E V) (l : Listener E V) (version : E) (stream : SseStream)
    (again : Bool) :
    (l.deliver p ⟨⟨none, .apiVersion version⟩, stream, again⟩).processed = l.processed ∧
    (l.deliver p ⟨⟨none, .apiVersion version⟩, stream, again⟩).pushed.map Pushed.source =
      l.pushed.map Pushed.source := by
  refine ⟨List.append_nil _, (feed_sources p l _).trans ?_⟩
  simp [Process.pushes, SseEvent.isApiVersion]

end CasperNodeProxy
