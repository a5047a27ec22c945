import CasperNodeProxy.Events.Order
import CasperNodeProxy.Lib.Refinement
import CasperNodeProxy.Lib.Stutter

/-!
# Reading on after a reconnect

Somebody who reads `/events` and loses the connection asks for `start_from` behind the last event
that has arrived. The new session takes its snapshot while the producer goes on, and what was sent
in the old one may not have arrived.

* `Subscriber`, `sessionStep`: any number of such readers, next to everything else of the bus.
* `Continues`: how the events of a reader follow each other over all its sessions.
* `Resumed`: what is known of a session that begins behind an event; `Resumed.continues`: its first
  event.
* **`sessions_follow`**: nothing is skipped but by lag and by eviction, and nothing is repeated but
  an event that was being pushed when the next session subscribed.
-/

namespace CasperNodeProxy

open Channel Log Run Stutter

variable {V : Type}

/-! ## Readers -/

/-- A reader that resumes, with its sessions. -/
structure Subscriber (V : Type) where
  /-- What the first session asked for. -/
  startFrom : Option ℕ
  /-- The former sessions, as they were when they were given up, and how much had arrived. -/
  past : List (Client V × ℕ)
  /-- The number of the present session among the tasks. -/
  session : ℕ

namespace Subscriber

/-- What has arrived in the former sessions. -/
def received (s : Subscriber V) : List (EventEnvelope V) :=
  s.past.flatMap fun p => p.1.delivered.take p.2

/-- The `start_from` of the next session. -/
def next (s : Subscriber V) : Option ℕ :=
  match s.received.getLast? with
  | some e => some (e.id + 1)
  | none => s.startFrom

/-- All sessions, with the present one as it is. -/
def sessions (s : Subscriber V) (d : Client V) : List (Client V) := s.past.map Prod.fst ++ [d]

end Subscriber

/-- A bus and its readers. -/
structure Sessions (V : Type) where
  events : EventConf V
  subscribers : List (Subscriber V)

/-- A step of the bus and its clients, a new reader, or a reader that gives up its session, of which
so many events have arrived, and begins another one. -/
inductive SessionAct (V : Type)
  | event (a : EventAct V)
  | begin (kind : Kind) (startFrom : Option ℕ)
  | resume (j : ℕ) (kind : Kind) (arrived : ℕ)

/-- One step of a bus and its readers. -/
def sessionStep (c : Sessions V) : SessionAct V → Option (Sessions V)
  | .event a => (eventStep c.events a).map fun events => { c with events := events }
  | .begin kind startFrom => (eventStep c.events (.spawn (.client kind startFrom))).map
      fun events => ⟨events, c.subscribers ++ [⟨startFrom, [], c.events.tasks.length⟩]⟩
  | .resume j kind arrived => (c.subscribers[j]?).bind fun s =>
      (clientAt c.events s.session).bind fun d =>
        let s' : Subscriber V :=
          { s with past := s.past ++ [(d, arrived)], session := c.events.tasks.length }
        (eventStep c.events (.spawn (.client kind s'.next))).map
          fun events => ⟨events, c.subscribers.set j s'⟩

/-- A new bus, and no reader yet. -/
def sessionInit (backlogLimit broadcastCapacity : ℕ) (metrics : Bool) : Sessions V :=
  ⟨eventInit 1 backlogLimit broadcastCapacity metrics, []⟩

/-! ## How events follow each other -/

/-- The event was reported as lagged; or it was asked for by a later session, and evicted when that
took its snapshot. -/
def Excused (backlogLimit : ℕ) (sessions : List (Client V)) (n : ℕ) : Prop :=
  (∃ d ∈ sessions, n ∈ d.missedIds) ∨
  ∃ d ∈ sessions.tail, ∃ s, d.startFrom = some s ∧ s ≤ n ∧ n ≤ d.appendedAt - backlogLimit

/-- An event and the one that arrives next: a later one, or the same one again, if a later session
subscribed when all events before it were broadcast and it was not. -/
def Continues (backlogLimit : ℕ) (sessions : List (Client V)) (a b : EventEnvelope V) : Prop :=
  (a.id < b.id ∧ ∀ n, a.id < n → n < b.id → Excused backlogLimit sessions n) ∨
  (a = b ∧ ∃ d ∈ sessions.tail, a.id = d.joined + 1)

theorem tail_subset {α : Type} {l₁ l₂ : List α} (hp : l₁ <+: l₂) : l₁.tail ⊆ l₂.tail := by
  obtain ⟨r, rfl⟩ := hp
  cases l₁ with
  | nil => exact List.nil_subset _
  | cons a l => exact List.subset_append_left _ _

theorem Excused.mono {backlogLimit n : ℕ} {l₁ l₂ : List (Client V)}
    (h : Excused backlogLimit l₁ n) (hp : l₁ <+: l₂) : Excused backlogLimit l₂ n := by
  rcases h with ⟨d, hd, hn⟩ | ⟨d, hd, hs⟩
  · exact .inl ⟨d, hp.subset hd, hn⟩
  · exact .inr ⟨d, tail_subset hp hd, hs⟩

theorem Continues.mono {backlogLimit : ℕ} {l₁ l₂ : List (Client V)} {a b : EventEnvelope V}
    (h : Continues backlogLimit l₁ a b) (hp : l₁ <+: l₂) : Continues backlogLimit l₂ a b := by
  rcases h with ⟨hlt, hall⟩ | ⟨heq, d, hd, hj⟩
  · exact .inl ⟨hlt, fun n h₁ h₂ => (hall n h₁ h₂).mono hp⟩
  · exact .inr ⟨heq, d, tail_subset hp hd, hj⟩

/-! ## A session that begins behind an event -/

namespace Client

/-- The session has not subscribed. -/
def Unjoined (d : Client V) : Prop :=
  match d.pc with
  | .subscribe => True
  | .closed => d.delivered = []
  | _ => False

/-- The session has not taken its snapshot. -/
def Untaken (d : Client V) : Prop :=
  match d.pc with
  | .subscribe | .snapshot => True
  | .wait _ => d.kind = .websocket
  | .closed => d.delivered = []
  | _ => False

end Client

/-- A session that asked for what is behind an event which is in the log. -/
structure Resumed (h : Hub V) (last : ℕ) (d : Client V) : Prop where
  startFrom : d.startFrom = some (last + 1)
  appended : last ≤ h.appended.length
  joined : d.Unjoined ∨ last ≤ d.joined + 1
  taken : d.Untaken ∨ last ≤ d.appendedAt

section Resumed

variable {h h' : Hub V} {d d' : Client V} {last : ℕ}

theorem Resumed.mono (hg : Grows h h') (hr : Resumed h last d) : Resumed h' last d :=
  ⟨hr.startFrom, hr.appended.trans hg.appended.length_le, hr.joined, hr.taken⟩

theorem untaken_blank (hp : PcDelivery h d.kind d d.pc) (hu : d.Untaken) : d.delivered = [] := by
  unfold Client.Untaken at hu
  split at hu
  · next hpc =>
    rw [hpc] at hp
    exact hp.delivered
  · next hpc =>
    rw [hpc] at hp
    exact hp.1.delivered
  · next w hpc =>
    rw [hpc, hu] at hp
    exact hp.1.delivered
  · exact hu
  · exact hu.elim

theorem unjoined_untaken (hu : d.Unjoined) : d.Untaken := by
  unfold Client.Unjoined at hu
  unfold Client.Untaken
  split at hu
  · next hpc =>
    rw [hpc]
    trivial
  · next hpc =>
    rw [hpc]
    exact hu
  · exact hu.elim

/-- **Every step of the session** keeps what is known of it. -/
theorem resumed_step (ho : InOrder h) (hp : PcDelivery h d.kind d d.pc) (hr : Resumed h last d)
    (hs : ClientStep h d d') : Resumed h last d' := by
  obtain ⟨hstart, happ, hjoined, htaken⟩ := hr
  cases hs with
  | subscribe hpc =>
    refine ⟨hstart, happ, .inr (happ.trans ho.pending.prefixes.2.2), .inl ?_⟩
    unfold Client.Untaken
    cases hk : d.kind with
    | websocket => exact hk
    | sse => trivial
  | wait hpc hw =>
    unfold Client.Unjoined Client.Untaken at *
    rw [hpc] at hjoined htaken
    exact ⟨hstart, happ, .inr (hjoined.resolve_left id), htaken⟩
  | version hpc =>
    unfold Client.Unjoined Client.Untaken at *
    rw [hpc] at hjoined htaken
    refine ⟨hstart, happ, .inr (hjoined.resolve_left id), ?_⟩
    cases hk : d.kind with
    | websocket => exact .inl trivial
    | sse => exact .inr (htaken.resolve_left (by simp [hk]))
  | snapshot hpc hs =>
    unfold Client.Unjoined at hjoined
    rw [hpc] at hjoined
    exact ⟨hstart, happ, .inr (hjoined.resolve_left id), .inr happ⟩
  | noSnapshot hpc hs =>
    rw [hs] at hstart
    cases hstart
  | replay hpc hb | replayed hpc hb | deliver hpc hr hid | discard hpc hr hid | lagged hpc hr =>
    unfold Client.Unjoined Client.Untaken at *
    rw [hpc] at hjoined htaken
    exact ⟨hstart, happ, .inr (hjoined.resolve_left id), .inr (htaken.resolve_left id)⟩
  | close =>
    refine ⟨hstart, happ, ?_, ?_⟩
    · rcases hjoined with hu | hj
      · have hblank := untaken_blank hp (unjoined_untaken hu)
        exact .inl hblank
      · exact .inr hj
    · rcases htaken with hu | ht
      · have hblank := untaken_blank hp hu
        exact .inl hblank
      · exact .inr ht

theorem head_le {l : List (EventEnvelope V)} (hl : l.Pairwise fun a b => a.id < b.id)
    {b x : EventEnvelope V} (hb : l.head? = some b) (hx : x ∈ l) : b.id ≤ x.id := by
  cases l with
  | nil => cases hb
  | cons y l =>
    cases hb
    rcases List.mem_cons.mp hx with rfl | hx
    · exact le_rfl
    · exact ((List.pairwise_cons.mp hl).1 x hx).le

theorem Taken.head_next (ho : InOrder h) (ht : Taken h d) (hs : d.startFrom = some (last + 1))
    {b : EventEnvelope V} (hb : d.snapshot.head? = some b) :
    last < b.id ∧ ∀ n, last < n → n < b.id → n ≤ d.appendedAt - h.bus.backlogLimit := by
  obtain ⟨hpushed, hskip, hle⟩ := (mem_snapshot_iff ho ht hs).mp (List.mem_of_mem_head? hb)
  unfold skipped at hskip
  refine ⟨by omega, fun n h₁ h₂ => ?_⟩
  by_contra hkept
  obtain ⟨x, hx, rfl⟩ := exists_between ho hpushed (by omega) h₂
  have hmem : x ∈ d.snapshot := by
    rw [mem_snapshot_iff ho ht hs]
    refine ⟨hx, ?_, by omega⟩
    unfold skipped
    omega
  have := head_le (ho.numbered.pairwise.sublist ht.snapshot_sublist) hb hmem
  omega

/-- **What a session begins with** that asked for what is behind the event `e`. -/
theorem Resumed.continues (ho : InOrder h) (hp : PcDelivery h d.kind d d.pc)
    {e b : EventEnvelope V} (he : e ∈ h.pushed) (hr : Resumed h e.id d)
    (hb : d.delivered.head? = some b) :
    (e.id < b.id ∧ ∀ n, e.id < n → n < b.id →
      n ∈ d.missedIds ∨ n ≤ d.appendedAt - h.bus.backlogLimit) ∨
    (e = b ∧ e.id = d.joined + 1) := by
  have hne : d.delivered ≠ [] := by
    intro hnil
    rw [hnil] at hb
    cases hb
  have hjoined := hr.joined.resolve_left fun hu => hne (untaken_blank hp (unjoined_untaken hu))
  have htaken := hr.taken.resolve_left fun hu => hne (untaken_blank hp hu)
  have snapshot : ∀ (ht : Taken h d), d.snapshot.head? = some b → e.id < b.id ∧
      ∀ n, e.id < n → n < b.id → n ∈ d.missedIds ∨ n ≤ d.appendedAt - h.bus.backlogLimit := by
    intro ht hhead
    obtain ⟨hlt, hgap⟩ := ht.head_next ho hr.startFrom hhead
    exact ⟨hlt, fun n h₁ h₂ => .inr (hgap n h₁ h₂)⟩
  cases hp.delivery with
  | blank hblank => exact absurd hblank.delivered hne
  | replaying hrep =>
    refine .inl (snapshot hrep.taken ?_)
    rw [← hrep.split, List.head?_append, hb]
    rfl
  | live hl =>
    by_cases hsnap : d.snapshot = []
    · -- everything comes from the queue, which begins at `e` or right behind it
      obtain ⟨hj, ha, hdrop⟩ := hl.taken.present _ hr.startFrom
      have hid : 0 < e.id := ho.numbered.pos he
      have hlimit := ho.windowed.limit
      have hlen := congrArg List.length (hdrop.symm.trans hsnap)
      rw [List.length_drop, List.length_take_of_le (ha.trans ho.appended_pushed.length_le),
        List.length_nil] at hlen
      unfold skipped at hlen
      have hcov : d.covered = 0 := by
        unfold Client.covered
        rw [hsnap]
        rfl
      have hqueue : b ∈ fromQueue h d := by
        have hmem := List.mem_of_mem_head? hb
        rwa [hl.delivered, hsnap, List.nil_append] at hmem
      obtain ⟨hpushed, hlow, hhigh, -⟩ := (mem_fromQueue_iff ho).mp hqueue
      by_cases heq : e.id = b.id
      · exact .inr ⟨ho.numbered.inj he hpushed heq, by omega⟩
      · refine .inl ⟨by omega, fun n h₁ h₂ => .inl ?_⟩
        by_contra hread
        obtain ⟨x, hx, rfl⟩ := exists_between ho hpushed (by omega) h₂
        have hmem : x ∈ d.delivered := by
          rw [hl.delivered, List.mem_append, mem_fromQueue_iff ho]
          exact .inr ⟨hx, by omega, by omega, hread⟩
        have := head_le (hl.increasing ho) hb hmem
        omega
    · refine .inl (snapshot hl.taken ?_)
      rw [hl.delivered, List.head?_append] at hb
      cases hs : d.snapshot with
      | nil => exact absurd hs hsnap
      | cons y l =>
        rw [hs] at hb
        exact hb

end Resumed

/-! ## Over all sessions -/

/-- What follows what within one session. -/
theorem Delivery.chain {h : Hub V} {d : Client V} (ho : InOrder h) (hd : Delivery h d)
    {sessions : List (Client V)} (hmem : d ∈ sessions) :
    d.delivered.IsChain (Continues h.bus.backlogLimit sessions) := by
  obtain ⟨hinc, -, hgap⟩ := hd.ordered ho
  rw [List.isChain_iff_getElem]
  intro i hi
  refine .inl ⟨List.pairwise_iff_getElem.mp hinc i (i + 1) (by omega) hi (by omega), ?_⟩
  intro n h₁ h₂
  exact .inl ⟨d, hmem, List.isChain_iff_getElem.mp hgap i hi n h₁ h₂⟩

theorem Delivery.appended {h : Hub V} {d : Client V} (ho : InOrder h) (hd : Delivery h d)
    {e : EventEnvelope V} (he : e ∈ d.delivered) : e.id ≤ h.appended.length := by
  have snapshot : Taken h d → e ∈ d.snapshot → e.id ≤ h.appended.length := by
    intro ht hs
    obtain ⟨s, hstart⟩ := ht.startFrom (List.ne_nil_of_mem hs)
    exact ((mem_snapshot_iff ho ht hstart).mp hs).2.2.trans (ht.present s hstart).2.1
  cases hd with
  | blank hb =>
    rw [hb.delivered] at he
    cases he
  | replaying hr =>
    refine snapshot hr.taken ?_
    rw [← hr.split]
    exact List.mem_append_left _ he
  | live hl =>
    rw [hl.delivered] at he
    rcases List.mem_append.mp he with he | he
    · exact snapshot hl.taken he
    · exact ((mem_fromQueue_iff ho).mp he).2.2.1.trans
        (hl.next.trans ho.sent_appended.length_le)

/-- What is known of a reader. -/
structure Kept (c : EventConf V) (s : Subscriber V) : Prop where
  present : ∃ d, clientAt c s.session = some d ∧ d.startFrom = s.next ∧
    ∀ e, s.received.getLast? = some e → Resumed c.shared e.id d
  pushed : ∀ e ∈ s.received, e ∈ c.shared.pushed ∧ e.id ≤ c.shared.appended.length
  chain : s.received.IsChain (Continues c.shared.bus.backlogLimit (s.past.map Prod.fst))

section Kept

variable {c c' : EventConf V} {s : Subscriber V} {d : Client V}

/-- What a reader has when the present session has not lost anything on the way. -/
theorem Kept.history (ho : InOrder c.shared)
    (hp : PcDelivery c.shared d.kind d d.pc) (hk : Kept c s)
    (hd : clientAt c s.session = some d) :
    (∀ e ∈ s.received ++ d.delivered, e ∈ c.shared.pushed ∧ e.id ≤ c.shared.appended.length) ∧
    (s.received ++ d.delivered).IsChain (Continues c.shared.bus.backlogLimit (s.sessions d)) := by
  obtain ⟨d', hd', -, hresumed⟩ := hk.present
  obtain rfl : d' = d := Option.some.inj (hd'.symm.trans hd)
  have hlast : d' ∈ s.sessions d' := List.mem_append_right _ (List.mem_singleton_self _)
  refine ⟨fun e he => ?_, List.isChain_append.mpr ⟨?_, hp.delivery.chain ho hlast, ?_⟩⟩
  · rcases List.mem_append.mp he with he | he
    · exact hk.pushed e he
    · exact ⟨(hp.delivery.ordered ho).2.1 e he, hp.delivery.appended ho he⟩
  · exact hk.chain.imp fun _ _ hab => hab.mono (List.prefix_append _ _)
  · intro e he b hb
    have hmem : e ∈ s.received := List.mem_of_getLast? he
    have htail : d' ∈ (s.sessions d').tail := by
      cases hpast : s.past with
      | nil =>
        rw [Subscriber.received, hpast] at hmem
        cases hmem
      | cons p past => simp [Subscriber.sessions, hpast]
    rcases (hresumed e he).continues ho hp (hk.pushed e hmem).1 hb with ⟨hlt, hgap⟩ | ⟨heq, hj⟩
    · refine .inl ⟨hlt, fun n h₁ h₂ => ?_⟩
      rcases hgap n h₁ h₂ with hmissed | hevicted
      · exact .inl ⟨d', hlast, hmissed⟩
      · exact .inr ⟨d', htail, _, (hresumed e he).startFrom, h₁, hevicted⟩
    · exact .inr ⟨heq, d', htail, hj⟩

theorem clientAt_step {a : EventAct V} (hs : eventStep c a = some c') {i : ℕ}
    (hd : clientAt c i = some d) : Grows c.shared c'.shared ∧
      ∃ d', clientAt c' i = some d' ∧
        (d' = d ∨ c'.shared = c.shared ∧ ClientStep c.shared d d') := by
  have hget : c.tasks[i]? = some (.client d) := by
    unfold clientAt at hd
    split at hd
    · next ht =>
      cases hd
      exact ht
    · cases hd
  have hi := (List.getElem?_eq_some_iff.mp hget).1
  cases a with
  | task j a =>
    obtain ⟨t, h', t', ht, hr, rfl⟩ := Tasks.step_task hs
    change taskStep c.shared t a = some (h', t') at hr
    refine ⟨grows_taskStep hr, ?_⟩
    by_cases hij : j = i
    · subst hij
      obtain rfl : t = .client d := Option.some.inj (ht.symm.trans hget)
      rcases taskStep_cases hr with ⟨s, s', b', hcl, -⟩ | ⟨x, d', hcl, rfl, rfl, hstep⟩
      · cases hcl
      · cases hcl
        refine ⟨d', ?_, .inr ⟨rfl, hstep⟩⟩
        rw [clientAt, List.getElem?_set_self hi]
    · refine ⟨d, ?_, .inl rfl⟩
      rw [clientAt, List.getElem?_set_ne hij, hget]
  | env a =>
    obtain ⟨h', hr, rfl⟩ := Tasks.step_env hs
    exact ⟨grows_producerStep hr, d, hd, .inl rfl⟩
  | spawn x =>
    obtain rfl := Tasks.step_spawn hs
    refine ⟨Grows.refl _, d, ?_, .inl rfl⟩
    rw [clientAt, List.getElem?_append_left hi, hget]

theorem kept_event {a : EventAct V} (ho : InOrder c.shared)
    (hall : ∀ d, .client d ∈ c.tasks → PcDelivery c.shared d.kind d d.pc) (hk : Kept c s)
    (hs : eventStep c a = some c') : Kept c' s := by
  obtain ⟨d, hd, hstart, hresumed⟩ := hk.present
  obtain ⟨hg, d', hd', hmove⟩ := clientAt_step hs hd
  refine ⟨⟨d', hd', ?_, fun e he => ?_⟩, fun e he => ?_, ?_⟩
  · rcases hmove with rfl | ⟨-, hstep⟩
    · exact hstart
    · rw [← hstart]
      cases hstep <;> rfl
  · rcases hmove with rfl | ⟨hshared, hstep⟩
    · exact (hresumed e he).mono hg
    · rw [hshared]
      exact resumed_step ho (hall d (clientAt_mem hd)) (hresumed e he) hstep
  · obtain ⟨hmem, hle⟩ := hk.pushed e he
    exact ⟨hg.pushed.subset hmem, hle.trans hg.appended.length_le⟩
  · rw [hg.limit]
    exact hk.chain

theorem clientAt_spawn {kind : Kind} {startFrom : Option ℕ}
    (hs : eventStep c (.spawn (.client kind startFrom)) = some c') :
    c'.shared = c.shared ∧ clientAt c' c.tasks.length = some (.new kind startFrom) := by
  obtain rfl := Tasks.step_spawn hs
  refine ⟨rfl, ?_⟩
  have hget : (c.tasks ++ [Task.client (.new kind startFrom)])[c.tasks.length]? =
      some (.client (.new kind startFrom)) := List.getElem?_concat_length
  simp only [clientAt, eventProgram, Arrival.task, hget]

theorem kept_begin {kind : Kind} {startFrom : Option ℕ}
    (hs : eventStep c (.spawn (.client kind startFrom)) = some c') :
    Kept c' ⟨startFrom, [], c.tasks.length⟩ := by
  obtain ⟨-, hnew⟩ := clientAt_spawn hs
  exact ⟨⟨_, hnew, rfl, fun e he => (by cases he)⟩, fun e he => (by cases he), .nil⟩

/-- **The reader begins another session.** -/
theorem kept_resume {kind : Kind} {arrived : ℕ} (ho : InOrder c.shared)
    (hall : ∀ d, .client d ∈ c.tasks → PcDelivery c.shared d.kind d d.pc) (hk : Kept c s)
    (hd : clientAt c s.session = some d) {s' : Subscriber V}
    (hs' : s' = { s with past := s.past ++ [(d, arrived)], session := c.tasks.length })
    (hs : eventStep c (.spawn (.client kind s'.next)) = some c') : Kept c' s' := by
  obtain ⟨hshared, hnew⟩ := clientAt_spawn hs
  obtain ⟨hmem, hchain⟩ := hk.history ho (hall d (clientAt_mem hd)) hd
  have hreceived : s'.received = s.received ++ d.delivered.take arrived := by
    rw [hs', Subscriber.received, List.flatMap_append, List.flatMap_singleton]
    rfl
  have hpre : s'.received <+: s.received ++ d.delivered := by
    rw [hreceived]
    exact (List.prefix_append_right_inj _).mpr (List.take_prefix _ _)
  have hpast : s'.past.map Prod.fst = s.sessions d := by
    rw [hs', Subscriber.sessions, List.map_append]
    rfl
  have hpushed : ∀ e ∈ s'.received,
      e ∈ c'.shared.pushed ∧ e.id ≤ c'.shared.appended.length := by
    intro e he
    rw [hshared]
    exact hmem e (hpre.subset he)
  have hfresh : clientAt c' s'.session = some (.new kind s'.next) := by
    rw [hs']
    rw [hs'] at hnew
    exact hnew
  refine ⟨⟨.new kind s'.next, hfresh, rfl, fun e he => ⟨?_, ?_, .inl trivial, .inl trivial⟩⟩,
    hpushed, ?_⟩
  · change s'.next = some (e.id + 1)
    rw [Subscriber.next, he]
  · exact (hpushed e (List.mem_of_getLast? he)).2
  · rw [hshared, hpast]
    exact hchain.prefix hpre

end Kept

/-! ## Every run -/

theorem sessionStep_events :
    Simulates (sessionStep (V := V)) eventStep fun c events => events = c.events := by
  rintro c _ a c' rfl hs
  cases a with
  | event a =>
    obtain ⟨events, he, rfl⟩ := Option.map_eq_some_iff.mp hs
    exact ⟨_, Reaches.single he, rfl⟩
  | begin kind startFrom =>
    simp only [sessionStep] at hs
    obtain ⟨events, he, rfl⟩ := Option.map_eq_some_iff.mp hs
    exact ⟨_, Reaches.single he, rfl⟩
  | resume j kind arrived =>
    obtain ⟨s, -, hs⟩ := Option.bind_eq_some_iff.mp hs
    obtain ⟨d, -, hs⟩ := Option.bind_eq_some_iff.mp hs
    obtain ⟨events, he, rfl⟩ := Option.map_eq_some_iff.mp hs
    exact ⟨_, Reaches.single he, rfl⟩

theorem kept_reaches {backlogLimit broadcastCapacity : ℕ} {metrics : Bool} {c : Sessions V}
    (h : Reaches sessionStep (sessionInit backlogLimit broadcastCapacity metrics) c) :
    Reaches eventStep (eventInit 1 backlogLimit broadcastCapacity metrics) c.events ∧
      ∀ s ∈ c.subscribers, Kept c.events s := by
  refine h.invariant (I := fun c => Reaches eventStep
    (eventInit 1 backlogLimit broadcastCapacity metrics) c.events ∧
      ∀ s ∈ c.subscribers, Kept c.events s) ⟨.refl _, fun s hs => (by cases hs)⟩ ?_
  rintro c a c' ⟨hreach, hkept⟩ hs
  obtain ⟨ho, hall⟩ := delivery_reaches hreach
  obtain ⟨_, hstep, rfl⟩ := sessionStep_events c c.events a c' rfl hs
  refine ⟨hreach.trans hstep, ?_⟩
  cases a with
  | event a =>
    obtain ⟨events, he, rfl⟩ := Option.map_eq_some_iff.mp hs
    exact fun s hmem => kept_event ho hall (hkept s hmem) he
  | begin kind startFrom =>
    simp only [sessionStep] at hs
    obtain ⟨events, he, rfl⟩ := Option.map_eq_some_iff.mp hs
    intro s hmem
    rcases List.mem_append.mp hmem with hmem | hmem
    · exact kept_event ho hall (hkept s hmem) he
    · rw [List.mem_singleton.mp hmem]
      exact kept_begin he
  | resume j kind arrived =>
    obtain ⟨s₀, hj, hs⟩ := Option.bind_eq_some_iff.mp hs
    obtain ⟨d, hd, hs⟩ := Option.bind_eq_some_iff.mp hs
    obtain ⟨events, he, rfl⟩ := Option.map_eq_some_iff.mp hs
    intro s hmem
    rcases List.mem_or_eq_of_mem_set hmem with hmem | rfl
    · exact kept_event ho hall (hkept s hmem) he
    · exact kept_resume ho hall (hkept s₀ (List.mem_of_getElem? hj)) hd rfl he

/-- **Reading on.** With one producer, in every reachable state, for a reader that always asks for
what is behind the last event that has arrived, over any number of sessions of either handler:
every event is one that was pushed; each one is later than the one before it, and what lies between
them was reported as lagged or was evicted before the snapshot of a later session; or it is the same
once more, which needs a session that subscribed while this very event was being pushed. With no lag
and every snapshot in time, what arrives goes through an interval of the log. -/
theorem sessions_follow {backlogLimit broadcastCapacity : ℕ} {metrics : Bool} {c : Sessions V}
    (h : Reaches sessionStep (sessionInit backlogLimit broadcastCapacity metrics) c)
    {s : Subscriber V} (hs : s ∈ c.subscribers) {d : Client V}
    (hd : clientAt c.events s.session = some d) :
    (∀ e ∈ s.received ++ d.delivered, e ∈ c.events.shared.pushed) ∧
    (s.received ++ d.delivered).IsChain (Continues (max backlogLimit 1) (s.sessions d)) ∧
    ((∀ x ∈ s.sessions d, x.missed = []) →
      (∀ x ∈ (s.sessions d).tail, ∀ f, x.startFrom = some f →
        x.appendedAt - max backlogLimit 1 < f) →
      ∃ part, part <:+: c.events.shared.pushed ∧ Stutters part (s.received ++ d.delivered)) := by
  obtain ⟨hreach, hkept⟩ := kept_reaches h
  obtain ⟨ho, hall⟩ := delivery_reaches hreach
  obtain ⟨hmem, hchain⟩ := (hkept s hs).history ho (hall d (clientAt_mem hd)) hd
  rw [limit_reaches hreach] at hchain
  refine ⟨fun e he => (hmem e he).1, hchain, fun hlag hintime => ?_⟩
  have hexcused : ∀ n, ¬ Excused (max backlogLimit 1) (s.sessions d) n := by
    rintro n (⟨x, hx, hn⟩ | ⟨x, hx, f, hf, hle, hn⟩)
    · unfold Client.missedIds at hn
      rw [hlag x hx] at hn
      cases hn
    · have := hintime x hx f hf
      omega
  refine stutters_of_chain ho.numbered (fun e he => (hmem e he).1) (hchain.imp ?_)
  rintro a b (⟨hlt, hgap⟩ | ⟨heq, -⟩)
  · left
    by_contra hne
    exact hexcused (a.id + 1) (hgap (a.id + 1) (by omega) (by omega))
  · exact .inr heq

/-- An event arrives from the backlog while it is being pushed, and once more in the next session,
which has subscribed before it is broadcast. -/
def resumeRun : List (SessionAct ℕ) :=
  [.event (.spawn (.setter 7)), .event (.task 0 .run), .event (.task 0 .run),
    .begin .sse (some 0), .event (.env (.push 0 10)), .event (.env (.run 0)),
    .event (.task 1 .run), .event (.task 1 .run), .event (.task 1 .run), .event (.task 1 .run),
    .event (.task 1 .run), .event (.task 1 .run), .resume 0 .sse 1, .event (.task 2 .run),
    .event (.task 2 .run), .event (.task 2 .run), .event (.task 2 .run), .event (.task 2 .run),
    .event (.task 2 .run), .event (.env (.run 0)), .event (.task 2 .run),
    .event (.env (.push 0 20)), .event (.env (.run 0)), .event (.env (.run 0)),
    .event (.task 2 .run)]

/-- The first reader and its present session. -/
def readerAt (c : Sessions V) : Option (Subscriber V × Client V) :=
  (c.subscribers[0]?).bind fun s => (clientAt c.events s.session).map fun d => (s, d)

theorem resumeRun_seen :
    (exec sessionStep (sessionInit 4 4 false) resumeRun).bind (fun c => (readerAt c).map fun p =>
      ((p.1.received ++ p.2.delivered).map (·.id), (p.1.sessions p.2).map (·.missed.length),
        (p.1.sessions p.2).tail.map fun x => (x.startFrom, x.appendedAt))) =
      some ([1, 1, 2], [0, 0], [(some 2, 1)]) := rfl

theorem sessions_follow_resumed :
    ∃ c s d, exec sessionStep (sessionInit 4 4 false) resumeRun = some c ∧ s ∈ c.subscribers ∧
      clientAt c.events s.session = some d ∧ (s.received ++ d.delivered).map (·.id) = [1, 1, 2] ∧
      ∃ part, part <:+: c.events.shared.pushed ∧ Stutters part (s.received ++ d.delivered) := by
  obtain ⟨c, ⟨s, d⟩, hc, hreader, hseen⟩ := exec_observed resumeRun_seen
  obtain ⟨s', hs, hmap⟩ := Option.bind_eq_some_iff.mp hreader
  obtain ⟨d', hd, hpair⟩ := Option.map_eq_some_iff.mp hmap
  obtain ⟨rfl, rfl⟩ := Prod.mk.inj hpair
  simp only [Prod.mk.injEq] at hseen
  obtain ⟨hids, hmissed, hstarts⟩ := hseen
  have hmem := List.mem_of_getElem? hs
  refine ⟨c, s', d', hc, hmem, hd, hids, (sessions_follow ⟨_, hc⟩ hmem hd).2.2 ?_ ?_⟩
  · intro x hx
    have hlen : x.missed.length ∈ [0, 0] := hmissed ▸ List.mem_map_of_mem hx
    exact List.length_eq_zero_iff.mp (by simpa using hlen)
  · intro x hx f hf
    have hstart : (x.startFrom, x.appendedAt) ∈ [(some 2, 1)] := hstarts ▸
      List.mem_map_of_mem (f := fun x : Client ℕ => (x.startFrom, x.appendedAt)) hx
    simp only [List.mem_singleton, Prod.mk.injEq] at hstart
    obtain rfl : f = 2 := Option.some.inj (hf.symm.trans hstart.1)
    omega

end CasperNodeProxy
