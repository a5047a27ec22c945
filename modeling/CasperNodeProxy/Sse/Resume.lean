import CasperNodeProxy.Sse.Repeats

/-!
# What several lifetimes push

The process may stop at any point and start again. The resume position is then the id in Redis,
which may be behind what was pushed, and ahead of it by the event that was received last.

* `Service`, `serviceStep`: lifetimes of the listener one after the other.
* `Covered`: an interval of the log of which everything was pushed by some lifetime; every id that
  was saved, and the listener itself, stand in it or at its end.
* `covered_listener`: a step of the listener keeps such an interval.
* **`ingestion_lossless`**: from the first id that was stored on, nothing is lost.
-/

namespace CasperNodeProxy

open Log Run Stutter

variable {E V : Type} {p : Process E V}

/-! ## Lifetimes -/

/-- All lifetimes of the listener, and what outlives them. -/
structure Service (E V : Type) where
  world : World E
  /-- What the earlier lifetimes left, for the proofs. -/
  past : List (Listener E V)
  listener : Listener E V

/-- A step of the present lifetime, or the process stops. -/
inductive ServiceAct (E : Type)
  | feed (a : FeedAct E)
  | crash
  deriving DecidableEq, Repr

/-- The write that Redis may still carry out when the process stops. -/
def Listener.inFlight (l : Listener E V) : List ℕ :=
  match l.pc with
  | .set _ id => [id]
  | _ => []

/-- A step of any lifetime; after a crash a new one begins. -/
def serviceStep (p : Process E V) (s : Service E V) : ServiceAct E → Option (Service E V)
  | .feed a => (feedStep p ⟨s.world, s.listener⟩ a).map fun c =>
      { s with world := c.world, listener := c.listener }
  | .crash => some {
      world := { s.world with lost := s.world.lost ++ s.listener.inFlight }
      past := s.past ++ [s.listener]
      listener := .new p }

/-- The first start: nothing is stored yet. -/
def serviceInit (p : Process E V) (log : List (Entry E)) : Service E V :=
  ⟨⟨log, none, [], none⟩, [], .new p⟩

/-- All lifetimes, the present one last. -/
def Service.lifetimes (s : Service E V) : List (Listener E V) := s.past ++ [s.listener]

/-- After a crash, Redis can be read and has an id. -/
def RestartReads (p : Process E V) (s : Service E V) : ServiceAct E → Prop
  | .feed (.listener a) =>
    s.past.isEmpty = true ∨
      match s.listener.pc with
      | .connectRedis => a = .ok ∧ p.redisClient = true
      | .loadLastId => a = .ok ∧ s.world.stored.isSome = true
      | _ => True
  | _ => True

instance (p : Process E V) [DecidableEq E] (s : Service E V) :
    ∀ a, Decidable (RestartReads p s a)
  | .feed (.listener a) => by
    unfold RestartReads
    dsimp only
    split <;> infer_instance
  | .feed (.publish _) | .feed (.arrive _) | .crash => .isTrue trivial

/-! ## What is covered -/

/-- The id stands in the interval `[lo, hi]` of the log. -/
def Within (log : List (Entry E)) (lo hi id : ℕ) : Prop :=
  ∃ k e, log[k]? = some e ∧ e.id = id ∧ lo ≤ k ∧ k ≤ hi

/-- The listener stands in the interval. -/
def coveredPlace (log : List (Entry E)) (lo hi : ℕ) : Place where
  boot := True
  noted startFrom := ∀ id, startFrom = some id → Within log lo hi id
  stream st := lo ≤ st.position ∧ st.position ≤ hi
  event k _ := lo ≤ k ∧ k ≤ hi

/-- The ids that Redis has, may still get, or got first. -/
def World.Saved (w : World E) (id : ℕ) : Prop :=
  w.stored = some id ∨ id ∈ w.lost ∨ w.firstStored = some id

/-- **An interval without gaps.** -/
structure Covered (p : Process E V) (s : Service E V) (lo hi : ℕ) : Prop where
  length : hi ≤ s.world.log.length
  pushed : ∀ k e, s.world.log[k]? = some e → lo ≤ k → k < hi → p.pushes e.data = true →
    ∃ l ∈ s.lifetimes, e.envelope ∈ l.pushed.map Pushed.source
  saved : ∀ id, s.world.Saved id → Within s.world.log lo hi id
  processed : ∀ l ∈ s.lifetimes, ∀ id ∈ l.processed,
    ∃ k e, s.world.log[k]? = some e ∧ e.id = id ∧ k < hi
  standing : Standing (coveredPlace s.world.log lo hi) s.world.log s.listener

/-- Nothing was received yet, in any lifetime. -/
def Untouched (s : Service E V) : Prop :=
  (∀ id, ¬ s.world.Saved id) ∧ ∀ l ∈ s.lifetimes, l.processed = []

/-- The listener has no position that it could resume from. -/
def Unplaced (s : Service E V) : Prop :=
  match s.listener.pc with
  | .connectRedis | .loadLastId => s.past = []
  | _ => s.listener.startFrom = none

/-- What holds in every state of a run. -/
structure Ingesting (p : Process E V) (s : Service E V) : Prop where
  increasing : Increasing s.world.log
  lives : ∀ l ∈ s.lifetimes, (∃ a b, Segment p s.world.log a b l) ∧ OnBus l
  untouched : Unplaced s → Untouched s
  redisConn : s.listener.pc = .loadLastId → s.past ≠ [] → s.listener.redisConn = true
  covered : ∃ lo hi, Covered p s lo hi

/-! ## Lemmas about intervals -/

section Within

variable {log : List (Entry E)} {lo hi id : ℕ}

theorem Within.mono {log' : List (Entry E)} {hi' : ℕ} (h : Within log lo hi id)
    (hpre : log <+: log') (hhi : hi ≤ hi') : Within log' lo hi' id := by
  obtain ⟨k, e, he, hid, h1, h2⟩ := h
  exact ⟨k, e, prefix_getElem? hpre he, hid, h1, h2.trans hhi⟩

theorem coveredPlace_mono {log' : List (Entry E)} {hi' : ℕ} {l : Listener E V}
    (h : Standing (coveredPlace log lo hi) log l) (hpre : log <+: log') (hhi : hi ≤ hi') :
    Standing (coveredPlace log' lo hi') log' l :=
  Standing.mono (P := coveredPlace log lo hi) (fun _ hn id hs => (hn id hs).mono hpre hhi)
    (fun _ ho => ⟨ho.1, ho.2.trans hhi⟩) (fun _ _ hk => ⟨hk.1, hk.2.trans hhi⟩) hpre id h

theorem inHand_within {startFrom : Option ℕ} {item : Item E}
    (h : InHand (coveredPlace log lo hi) log startFrom item) (hid : item.envelope.id = some id) :
    Within log lo hi id := by
  cases h with
  | noId version stream hn ho => cases hid
  | entry k e again he hk => exact ⟨k, e, he, Option.some.inj hid, hk.1, hk.2⟩

/-- A write that is made, or may be made, is of an event of the interval. -/
theorem inFlight_within {l : Listener E V} (h : Standing (coveredPlace log lo hi) log l)
    (hid : id ∈ l.inFlight) : Within log lo hi id := by
  unfold Listener.inFlight at hid
  split at hid
  · next item id' hpc =>
    unfold Standing at h
    rw [hpc] at h
    rw [List.mem_singleton.mp hid]
    exact inHand_within h.1 h.2.1
  · cases hid

end Within

theorem saved_store {w : World E} {id id' : ℕ} (h : (w.store id).Saved id') :
    id' = id ∨ w.Saved id' := by
  rcases h with h | h | h
  · exact .inl (Option.some.inj h).symm
  · exact .inr (.inr (.inl h))
  · change w.firstStored.or (some id) = some id' at h
    cases hf : w.firstStored with
    | none =>
      rw [hf] at h
      exact .inl (Option.some.inj h).symm
    | some first =>
      rw [hf] at h
      exact .inr (.inr (.inr (hf.trans h)))

/-- A step of the listener saves nothing but the write that is in flight. -/
theorem saved_listenerStep {w w' : World E} {l l' : Listener E V} {a : ListenerAct E} {id : ℕ}
    (hs : ListenerStep p w l a w' l') (h : w'.Saved id) : id ∈ l.inFlight ∨ w.Saved id := by
  cases hs with
  | set item id' hpc =>
    rcases saved_store h with rfl | h
    · left
      unfold Listener.inFlight
      rw [hpc]
      exact List.mem_singleton.mpr rfl
    · exact .inr h
  | setFails item id' hpc =>
    rcases h with h | h | h
    · exact .inr (.inl h)
    · rcases List.mem_append.mp h with h | h
      · exact .inr (.inr (.inl h))
      · left
        unfold Listener.inFlight
        rw [hpc]
        exact h
    · exact .inr (.inr (.inr h))
  | _ => exact .inr h

theorem sources_mono {w w' : World E} {l l' : Listener E V} {a : ListenerAct E}
    (hs : ListenerStep p w l a w' l') {x : SseEnvelope E} (hx : x ∈ l.pushed.map Pushed.source) :
    x ∈ l'.pushed.map Pushed.source := by
  rcases listenerStep_delivers hs with ⟨item, -, -, -, rfl⟩ | ⟨-, hpushed, -⟩
  · change x ∈ (l.feed p item.envelope).pushed.map Pushed.source
    rw [feed_sources]
    exact List.mem_append_left _ hx
  · rw [hpushed]
    exact hx

theorem mem_lifetimes {s : Service E V} {l : Listener E V} :
    l ∈ s.lifetimes ↔ l ∈ s.past ∨ l = s.listener := by
  simp [Service.lifetimes]

/-! ## Steps of the listener -/

section Step

variable {s : Service E V} {w' : World E} {l' : Listener E V} {a : ListenerAct E} {lo hi : ℕ}

theorem pushed_mono (hs : ListenerStep p s.world s.listener a w' l') {x : SseEnvelope E}
    (h : ∃ l ∈ s.lifetimes, x ∈ l.pushed.map Pushed.source) :
    ∃ l ∈ (⟨w', s.past, l'⟩ : Service E V).lifetimes, x ∈ l.pushed.map Pushed.source := by
  obtain ⟨l, hl, hx⟩ := h
  rcases mem_lifetimes.mp hl with hl | rfl
  · exact ⟨l, mem_lifetimes.mpr (.inl hl), hx⟩
  · exact ⟨l', mem_lifetimes.mpr (.inr rfl), sources_mono hs hx⟩

/-- Delivering an event at the end of the interval makes it longer. -/
theorem covered_deliver {k : ℕ} {e : Entry E} {again : Bool}
    (hc : Covered p s lo hi) (he : s.world.log[k]? = some e) (hlo : lo ≤ k) (hhi : k ≤ hi)
    (hst : s.listener.startFrom = some e.id)
    (hpc : s.listener.pc = .deliver ⟨e.envelope, ⟨k + 1, false⟩, again⟩) :
    Covered p ⟨s.world, s.past, s.listener.deliver p ⟨e.envelope, ⟨k + 1, false⟩, again⟩⟩ lo
      (max hi (k + 1)) := by
  have hs : ListenerStep p s.world s.listener .ok s.world
      (s.listener.deliver p ⟨e.envelope, ⟨k + 1, false⟩, again⟩) := .deliver _ hpc
  have hlen : k < s.world.log.length := (List.getElem?_eq_some_iff.mp he).1
  have hle : hi ≤ max hi (k + 1) := le_max_left _ _
  have hk : k + 1 ≤ max hi (k + 1) := le_max_right _ _
  refine ⟨max_le hc.length hlen, fun k' e' he' h1 h2 hp => ?_, fun id hid => ?_, ?_, ?_⟩
  · rcases Nat.lt_or_ge k' hi with hlt | hge
    · exact pushed_mono hs (hc.pushed k' e' he' h1 hlt hp)
    · -- the event that is delivered now
      obtain rfl : k' = k := by omega
      obtain rfl : e' = e := Option.some.inj (he'.symm.trans he)
      refine ⟨_, mem_lifetimes.mpr (.inr rfl), ?_⟩
      change e'.envelope ∈ (s.listener.feed p e'.envelope).pushed.map Pushed.source
      have hpe : p.pushes e'.envelope.data = true := hp
      rw [feed_sources, if_pos hpe]
      exact List.mem_append_right _ (List.mem_singleton.mpr rfl)
  · exact (hc.saved id hid).mono (List.prefix_refl _) hle
  · intro l hl id hid
    rcases mem_lifetimes.mp hl with hl | rfl
    · obtain ⟨j, e', he', hide, hj⟩ := hc.processed l (mem_lifetimes.mpr (.inl hl)) id hid
      exact ⟨j, e', he', hide, hj.trans_le hle⟩
    · rcases List.mem_append.mp hid with hid | hid
      · obtain ⟨j, e', he', hide, hj⟩ :=
          hc.processed s.listener (mem_lifetimes.mpr (.inr rfl)) id hid
        exact ⟨j, e', he', hide, hj.trans_le hle⟩
      · exact ⟨k, e, he, (List.mem_singleton.mp hid).symm, hk⟩
  · refine standing_delivered (fun id hid => ?_) ⟨by dsimp only; omega, hk⟩
    rw [hst] at hid
    exact ⟨k, e, he, Option.some.inj hid, hlo, hhi.trans hle⟩

theorem covered_keep (hc : Covered p s lo hi)
    (hs : ListenerStep p s.world s.listener a w' l') (hproc : l'.processed = s.listener.processed)
    (hst : Standing (coveredPlace s.world.log lo hi) s.world.log l') :
    Covered p ⟨w', s.past, l'⟩ lo hi := by
  have hw := listenerStep_log hs
  refine ⟨?_, ?_, ?_, ?_, ?_⟩ <;> dsimp only <;> rw [hw]
  · exact hc.length
  · exact fun k e he h1 h2 hp => pushed_mono hs (hc.pushed k e he h1 h2 hp)
  · intro id hid
    rcases saved_listenerStep hs hid with hid | hid
    · exact inFlight_within hc.standing hid
    · exact hc.saved id hid
  · intro l hl id hid
    rcases mem_lifetimes.mp hl with hl | rfl
    · exact hc.processed l (mem_lifetimes.mpr (.inl hl)) id hid
    · rw [hproc] at hid
      exact hc.processed s.listener (mem_lifetimes.mpr (.inr rfl)) id hid
  · exact hst

/-- **A step of the listener leaves no gap.** -/
theorem covered_listener (hlog : Increasing s.world.log) (hun : Unplaced s → Untouched s)
    (hc : Covered p s lo hi) (hs : ListenerStep p s.world s.listener a w' l') :
    ∃ lo' hi', Covered p ⟨w', s.past, l'⟩ lo' hi' := by
  rcases listenerStep_delivers hs with ⟨item, hpc, -, rfl, rfl⟩ | ⟨hend, -, hproc⟩
  · obtain ⟨hhand, hst⟩ := standing_deliver hc.standing hpc
    cases hhand with
    | noId version stream hn ho =>
      exact ⟨lo, hi, covered_keep hc hs (deliver_noId p s.listener version stream false).1
        (standing_delivered hn ho)⟩
    | entry k e again he hk =>
      exact ⟨lo, _, covered_deliver hc he hk.1 hk.2 (hst e.id rfl) hpc⟩
  · by_cases hlive : ∃ n, a = .okLive n
    · -- nothing was received yet, so the interval may begin here
      obtain ⟨n, rfl⟩ := hlive
      cases hs with
      | connectRedis act conn hpc ha => simp at ha
      | loadLastId act startFrom hpc ha => simp at ha
      | connectLive n hpc hsf hn =>
        have hunplaced : Unplaced s := by
          unfold Unplaced
          rw [hpc]
          exact hsf
        obtain ⟨hsaved, hnone⟩ := hun hunplaced
        refine ⟨n, n, hn, ?_, fun id hid => absurd hid (hsaved id), ?_, ?_⟩
        · exact fun k e _ h1 h2 _ => absurd (h1.trans_lt h2) (lt_irrefl n)
        · intro l hl id hid
          have hl' : l.processed = [] := by
            rcases mem_lifetimes.mp hl with hl | rfl
            · exact hnone l (mem_lifetimes.mpr (.inl hl))
            · exact hnone s.listener (mem_lifetimes.mpr (.inr rfl))
          rw [hl'] at hid
          cases hid
        · refine ⟨fun id hid => ?_, le_rfl, le_rfl⟩
          rw [hsf] at hid
          cases hid
    · refine ⟨lo, hi, covered_keep hc hs hproc (standing_step hc.standing hs hend ?_ ?_ ?_ ?_)⟩
      · rintro s' - (rfl | rfl) id hid
        · cases hid
        · exact hc.saved id (.inl hid)
      · intro s' _ hn
        obtain ⟨k, e, he, rfl, h1, h2⟩ := hn s' rfl
        have hpos : s.world.position e.id = k := increasing_findIdx hlog he
        exact ⟨hpos ▸ h1, hpos ▸ h2⟩
      · exact fun n _ _ _ ha => absurd ⟨n, ha⟩ hlive
      · exact fun _ _ ho _ => ho

theorem unplaced_of_none (hsf : s.listener.startFrom = none)
    (h₁ : s.listener.pc ≠ .connectRedis) (h₂ : s.listener.pc ≠ .loadLastId) : Unplaced s := by
  unfold Unplaced
  split
  · next hpc => exact absurd hpc h₁
  · next hpc => exact absurd hpc h₂
  · exact hsf

/-- **After a crash the listener finds its position again**, in Redis; without a crash it has none
only if nothing was received yet. -/
theorem untouched_listener (h : Ingesting p s) (hs : ListenerStep p s.world s.listener a w' l')
    (hr : RestartReads p s (.feed (.listener a))) (hun : Unplaced ⟨w', s.past, l'⟩) :
    Untouched ⟨w', s.past, l'⟩ := by
  obtain ⟨lo, hi, hc⟩ := h.covered
  have hst := hc.standing
  have keep : w' = s.world → l'.processed = s.listener.processed → Unplaced s →
      Untouched ⟨w', s.past, l'⟩ := by
    rintro rfl hproc hun
    obtain ⟨hsaved, hnone⟩ := h.untouched hun
    refine ⟨hsaved, fun l hl => ?_⟩
    rcases mem_lifetimes.mp hl with hl | rfl
    · exact hnone l (mem_lifetimes.mpr (.inl hl))
    · exact hproc.trans (hnone s.listener (mem_lifetimes.mpr (.inr rfl)))
  unfold Standing at hst
  cases hs with
  | connectRedis act conn hpc ha =>
    refine keep rfl rfl ?_
    unfold Unplaced
    rw [hpc]
    exact hun
  | loadLastId act startFrom hpc ha =>
    by_cases hpast : s.past = []
    · refine keep rfl rfl ?_
      unfold Unplaced
      rw [hpc]
      exact hpast
    · -- a restart reads the id that is stored
      have hload : a = .ok ∧ s.world.stored.isSome = true := by
        rcases hr with hr | hr
        · exact absurd (List.isEmpty_iff.mp hr) hpast
        · rw [hpc] at hr
          exact hr
      have hnone : startFrom = none := hun
      rcases ha with ⟨-, hsf⟩ | ⟨herr, -⟩
      · rw [h.redisConn hpc hpast, if_pos rfl, hnone] at hsf
        rw [← hsf] at hload
        simp at hload
      · rw [hload.1] at herr
        cases herr
  | note item id pc hpc hid hc =>
    rcases hc with rfl | rfl <;> cases hun
  | set item id hpc | setFails item id hpc =>
    rw [hpc] at hst
    have hnone : s.listener.startFrom = none := hun
    rw [hst.2.2] at hnone
    cases hnone
  | deliver item hpc =>
    have hnone : (s.listener.feed p item.envelope).startFrom = none := hun
    rw [feed_startFrom] at hnone
    obtain ⟨hhand, hsome⟩ := standing_deliver hc.standing hpc
    cases hhand with
    | noId version stream hn ho =>
      exact keep rfl (deliver_noId p s.listener version stream false).1
        (unplaced_of_none hnone (by simp [hpc]) (by simp [hpc]))
    | entry k e again he hk =>
      rw [hsome e.id rfl] at hnone
      cases hnone
  | disconnect hpc =>
    refine keep rfl rfl (unplaced_of_none hun ?_ ?_) <;>
      rcases hpc with hpc | ⟨stream, hpc⟩ <;> simp [hpc]
  | connect s' hpc | connectLive n hpc | stop hpc | item stream e hpc | apiVersion stream v hpc
  | noId item hpc | redis item id hpc | noRedis item id hpc | retry hpc =>
    exact keep rfl rfl (unplaced_of_none hun (by simp [hpc]) (by simp [hpc]))

theorem redisConn_listener (hs : ListenerStep p s.world s.listener a w' l')
    (hr : RestartReads p s (.feed (.listener a))) (hpc' : l'.pc = .loadLastId)
    (hpast : s.past ≠ []) : l'.redisConn = true := by
  cases hs with
  | connectRedis act conn hpc ha =>
    rcases hr with hr | hr
    · exact absurd (List.isEmpty_iff.mp hr) hpast
    · rw [hpc] at hr
      rcases ha with ⟨-, rfl⟩ | ⟨herr, -⟩
      · exact hr.2
      · rw [hr.1] at herr
        cases herr
  | note item id pc hpc hid hc => rcases hc with rfl | rfl <;> cases hpc'
  | _ => cases hpc'

end Step

/-! ## Every step -/

section Service

variable {s s' : Service E V}

theorem ingesting_init (p : Process E V) {log : List (Entry E)} (hlog : Increasing log) :
    Ingesting p (serviceInit p log) := by
  have hsaved : ∀ id, ¬ (serviceInit p log).world.Saved id := by
    rintro id (h | h | h) <;> cases h
  refine ⟨hlog, ?_, fun _ => ⟨hsaved, ?_⟩, (fun hpc => by cases hpc), 0, 0, Nat.zero_le _, ?_, ?_,
    ?_, trivial⟩
  · intro l hl
    obtain rfl := List.mem_singleton.mp hl
    exact ⟨⟨0, 0, segment_new p log⟩, numbered_nil, rfl, rfl⟩
  · intro l hl
    obtain rfl := List.mem_singleton.mp hl
    rfl
  · exact fun k e _ _ hk => absurd hk (Nat.not_lt_zero k)
  · exact fun id hid => absurd hid (hsaved id)
  · intro l hl id hid
    obtain rfl := List.mem_singleton.mp hl
    cases hid

theorem ingesting_publish {e : Entry E} {w' : World E} (h : Ingesting p s)
    (hw : s.world.publish e = some w') : Ingesting p ⟨w', s.past, s.listener⟩ := by
  obtain ⟨hlog, hlives, hun, hconn, lo, hi, hc⟩ := h
  obtain ⟨rfl, hlog'⟩ := publish_cases hw hlog
  have hpre : s.world.log <+: s.world.log ++ [e] := List.prefix_append _ _
  refine ⟨hlog', fun l hl => ?_, hun, hconn, lo, hi, ?_, ?_, ?_, ?_, ?_⟩
  · obtain ⟨⟨a, b, hseg⟩, hbus⟩ := hlives l hl
    exact ⟨⟨a, b, hseg.mono hpre⟩, hbus⟩
  · exact hc.length.trans hpre.length_le
  · intro k e' he' h1 h2 hp
    have hk : k < s.world.log.length := h2.trans_le hc.length
    have he' : (s.world.log ++ [e])[k]? = some e' := he'
    rw [List.getElem?_append_left hk] at he'
    exact hc.pushed k e' he' h1 h2 hp
  · exact fun id hid => (hc.saved id hid).mono hpre le_rfl
  · intro l hl id hid
    obtain ⟨k, e', he', hide, hk⟩ := hc.processed l hl id hid
    exact ⟨k, e', prefix_getElem? hpre he', hide, hk⟩
  · exact coveredPlace_mono hc.standing hpre le_rfl

theorem ingesting_arrive {i : ℕ} {w' : World E} (h : Ingesting p s)
    (hw : s.world.arrive i = some w') : Ingesting p ⟨w', s.past, s.listener⟩ := by
  obtain ⟨hlog, hlives, hun, hconn, lo, hi, hc⟩ := h
  obtain ⟨id, hid, rfl⟩ := arrive_cases hw
  have hsaved : s.world.Saved id := .inr (.inl hid)
  refine ⟨hlog, hlives, fun h => absurd hsaved ((hun h).1 id), hconn, lo, hi, hc.length, hc.pushed,
    fun id' hid' => ?_, hc.processed, hc.standing⟩
  have hid'' : id' = id ∨ s.world.Saved id' := by
    rcases hid' with h | h | h
    · exact saved_store (.inl h)
    · exact .inr (.inr (.inl (List.mem_of_mem_eraseIdx h)))
    · exact saved_store (.inr (.inr h))
  rcases hid'' with rfl | hid''
  · exact hc.saved _ hsaved
  · exact hc.saved _ hid''

theorem ingesting_listener {a : ListenerAct E} {w' : World E} {l' : Listener E V}
    (h : Ingesting p s) (hr : RestartReads p s (.feed (.listener a)))
    (hs : ListenerStep p s.world s.listener a w' l') : Ingesting p ⟨w', s.past, l'⟩ := by
  have hlog := listenerStep_log hs
  obtain ⟨lo, hi, hc⟩ := h.covered
  refine ⟨hlog ▸ h.increasing, fun l hl => ?_, untouched_listener h hs hr,
    fun hpc hpast => redisConn_listener hs hr hpc hpast,
    covered_listener h.increasing h.untouched hc hs⟩
  dsimp only
  rw [hlog]
  rcases mem_lifetimes.mp hl with hl | rfl
  · exact h.lives l (mem_lifetimes.mpr (.inl hl))
  · obtain ⟨⟨a, b, hseg⟩, hbus⟩ := h.lives s.listener (mem_lifetimes.mpr (.inr rfl))
    exact ⟨segment_step h.increasing hseg hs, onBus_listenerStep hbus hs⟩

theorem ingesting_crash (h : Ingesting p s) :
    Ingesting p ⟨{ s.world with lost := s.world.lost ++ s.listener.inFlight },
      s.past ++ [s.listener], .new p⟩ := by
  obtain ⟨hlog, hlives, -, -, lo, hi, hc⟩ := h
  have hnew : ∀ l ∈ (s.past ++ [s.listener]) ++ [Listener.new p],
      l ∈ s.lifetimes ∨ l = Listener.new p := by
    intro l hl
    simpa [Service.lifetimes, or_assoc] using hl
  refine ⟨hlog, fun l hl => ?_, fun hun => ?_, (fun hpc => by cases hpc), lo, hi, hc.length, ?_, ?_,
    ?_, trivial⟩
  · rcases hnew l hl with hl | rfl
    · exact hlives l hl
    · exact ⟨⟨0, 0, segment_new p _⟩, numbered_nil, rfl, rfl⟩
  · exact absurd hun (by simp [Unplaced, Listener.new])
  · intro k e he h1 h2 hp
    obtain ⟨l, hl, hx⟩ := hc.pushed k e he h1 h2 hp
    exact ⟨l, List.mem_append_left _ hl, hx⟩
  · rintro id (hid | hid | hid)
    · exact hc.saved id (.inl hid)
    · rcases List.mem_append.mp hid with hid | hid
      · exact hc.saved id (.inr (.inl hid))
      · exact inFlight_within hc.standing hid
    · exact hc.saved id (.inr (.inr hid))
  · intro l hl id hid
    rcases hnew l hl with hl | rfl
    · exact hc.processed l hl id hid
    · cases hid

/-- **Every step keeps the interval without gaps**, if Redis can be read after a crash. -/
theorem ingesting_step {act : ServiceAct E} (h : Ingesting p s) (hr : RestartReads p s act)
    (hs : serviceStep p s act = some s') : Ingesting p s' := by
  cases act with
  | crash =>
    cases hs
    exact ingesting_crash h
  | feed act =>
    obtain ⟨c, hc, rfl⟩ := Option.map_eq_some_iff.mp hs
    rcases feedStep_cases hc with ⟨a, rfl, hx⟩ | ⟨e, rfl, hw, hl⟩ | ⟨i, rfl, hw, hl⟩
    · exact ingesting_listener h hr hx
    · rw [hl]
      exact ingesting_publish h hw
    · rw [hl]
      exact ingesting_arrive h hw

end Service

/-! ## Every run -/

/-- The bus of a lifetime was given the event. -/
def PushedBy (e : Entry E) (l : Listener E V) : Prop :=
  ∃ x ∈ l.pushed, x.source = e.envelope ∧ x.event ∈ l.bus.sender.sent

theorem pushedBy_of_source {s : Service E V} (h : Ingesting p s) {e : Entry E}
    (he : ∃ l ∈ s.lifetimes, e.envelope ∈ l.pushed.map Pushed.source) :
    ∃ l ∈ s.lifetimes, PushedBy e l := by
  obtain ⟨l, hl, hmem⟩ := he
  obtain ⟨x, hx, hsource⟩ := List.mem_map.mp hmem
  refine ⟨l, hl, x, hx, hsource, ?_⟩
  rw [(h.lives l hl).2.sent]
  exact List.mem_map_of_mem hx

/-- From the first id that was stored up to any event that was processed there is no gap. -/
theorem Ingesting.no_gap {s : Service E V} (h : Ingesting p s) {first last : ℕ} {e : Entry E}
    (hfirst : s.world.firstStored = some first) (hlast : ∃ l ∈ s.lifetimes, last ∈ l.processed)
    (he : e ∈ s.world.log) (h₁ : first < e.id) (h₂ : e.id ≤ last)
    (hp : p.pushes e.data = true) : ∃ l ∈ s.lifetimes, PushedBy e l := by
  obtain ⟨lo, hi, hc⟩ := h.covered
  obtain ⟨i, f, hf, rfl, hlo, -⟩ := hc.saved first (.inr (.inr hfirst))
  obtain ⟨l, hl, hmem⟩ := hlast
  obtain ⟨j, g, hg, rfl, hhi⟩ := hc.processed l hl last hmem
  obtain ⟨k, hk⟩ := List.mem_iff_getElem?.mp he
  have hik : i < k := (increasing_lt_iff h.increasing hf hk).mp h₁
  have hkj : ¬ j < k := mt (increasing_lt_iff h.increasing hg hk).mpr h₂.not_gt
  exact pushedBy_of_source h (hc.pushed k e hk (by omega) (by omega) hp)

/-- **Ingestion loses nothing.** Take any run of any number of lifetimes, with a crash possible
after every step, in which Redis can be read and has an id after each crash, and assume that events
can be serialised. Every event of the upstream behind the first id that was stored, up to any event
that was processed, was pushed in some lifetime, unless it is an ApiVersion; without its repeats,
what a lifetime pushed is an interval of the upstream log without the ApiVersions; and no ApiVersion
was pushed. -/
theorem ingestion_lossless [DecidableEq E] (p : Process E V)
    (hser : ∀ data, (p.sseToValue data).isSome = true) (log : List (Entry E))
    (hlog : Increasing log) (acts : List (ServiceAct E)) {s : Service E V}
    (hrun : exec (serviceStep p) (serviceInit p log) acts = some s)
    (hread : Meets (serviceStep p) (RestartReads p) (serviceInit p log) acts) :
    (∀ first last e, s.world.firstStored = some first →
      (∃ l ∈ s.lifetimes, last ∈ l.processed) → e ∈ s.world.log → first < e.id → e.id ≤ last →
      e.data.isApiVersion = false → ∃ l ∈ s.lifetimes, PushedBy e l) ∧
    (∀ l ∈ s.lifetimes, ∃ a b, (l.pushed.map Pushed.source).destutter (· ≠ ·) =
      (((s.world.log.take b).drop a).filter fun e => !e.data.isApiVersion).map Entry.envelope) ∧
    (∀ l ∈ s.lifetimes, ∀ x ∈ l.pushed, x.source.data.isApiVersion = false) := by
  have hpushes : ∀ data, p.pushes data = !data.isApiVersion := by
    intro data
    unfold Process.pushes
    rw [hser data, Bool.and_true]
  have h : Ingesting p s :=
    (always_of_meets (fun _ _ _ hi hr hs => ingesting_step hi hr hs) (ingesting_init p hlog)
      hread).last hrun
  refine ⟨?_, fun l hl => ?_, fun l hl x hx => ?_⟩
  · intro first last e hfirst hlast he h₁ h₂ hdata
    exact h.no_gap hfirst hlast he h₁ h₂ (by rw [hpushes, hdata]; rfl)
  · obtain ⟨⟨a, b, hseg⟩, -⟩ := h.lives l hl
    refine ⟨a, b, ?_⟩
    rw [hseg.pushed.destutter (segment_nodup p h.increasing a b)]
    unfold segment
    simp only [hpushes]
  · obtain ⟨⟨a, b, hseg⟩, -⟩ := h.lives l hl
    have hmem := hseg.pushed.mem_iff.mp (List.mem_map_of_mem hx)
    obtain ⟨e, he, hxe⟩ := List.mem_map.mp hmem
    have hdata := (List.mem_filter.mp he).2
    rw [hpushes] at hdata
    rw [← hxe]
    exact Bool.not_eq_true' _ ▸ hdata

/-- The process crashes after the first event was stored and before it is pushed. The next lifetime
receives it again, then an ApiVersion, twice because of a disconnect, and a third event while Redis
fails. -/
def crashingRun : List (ServiceAct ℕ) :=
  [.feed (.listener .ok), .feed (.listener .ok), .feed (.listener (.okLive 0)),
    .feed (.publish ⟨1, .other 10⟩), .feed (.listener .ok), .feed (.listener .ok),
    .feed (.listener .ok), .feed (.listener .ok), .crash,
    .feed (.listener .ok), .feed (.listener .ok), .feed (.listener .ok), .feed (.listener .ok),
    .feed (.listener .ok), .feed (.listener .ok), .feed (.listener .ok), .feed (.listener .ok),
    .feed (.publish ⟨2, .apiVersion 7⟩), .feed (.publish ⟨3, .other 30⟩),
    .feed (.listener .ok), .feed (.listener .ok), .feed (.listener .ok), .feed (.listener .ok),
    .feed (.listener .ok), .feed (.listener .err), .feed (.listener .ok), .feed (.listener .ok),
    .feed (.listener .ok), .feed (.listener .ok), .feed (.listener .ok), .feed (.listener .ok),
    .feed (.listener .ok), .feed (.listener .ok), .feed (.listener .ok), .feed (.listener .ok),
    .feed (.listener .err), .feed (.listener .ok)]

theorem crashingRun_state :
    (exec (serviceStep plainProcess) (serviceInit plainProcess []) crashingRun).map
      (fun s => (s.world, s.past.map (fun l => l.pushed), s.listener.processed,
        s.listener.pushed)) =
    some (⟨[⟨1, .other 10⟩, ⟨2, .apiVersion 7⟩, ⟨3, .other 30⟩], some 2, [3], some 1⟩, [[]],
      [1, 2, 2, 3],
      [⟨⟨1, 10⟩, ⟨some 1, .other 10⟩⟩, ⟨⟨2, 30⟩, ⟨some 3, .other 30⟩⟩]) := rfl

theorem ingestion_lossless_crashing :
    ∃ s, exec (serviceStep plainProcess) (serviceInit plainProcess []) crashingRun = some s ∧
      s.world.firstStored = some 1 ∧ ∃ l ∈ s.lifetimes, PushedBy ⟨3, .other 30⟩ l := by
  obtain ⟨s, hs, hfields⟩ := Option.map_eq_some_iff.mp crashingRun_state
  simp only [Prod.mk.injEq] at hfields
  obtain ⟨hworld, -, hproc, -⟩ := hfields
  have hser : ∀ data, (plainProcess.sseToValue data).isSome = true := by
    intro data
    cases data <;> rfl
  have hfirst : s.world.firstStored = some 1 := by rw [hworld]
  refine ⟨s, hs, hfirst, (ingestion_lossless plainProcess hser [] .nil crashingRun hs (by decide)).1
    1 3 ⟨3, .other 30⟩ hfirst ⟨s.listener, mem_lifetimes.mpr (.inr rfl), ?_⟩ ?_ (by decide)
    le_rfl rfl⟩
  · rw [hproc]
    decide
  · rw [hworld]
    decide

end CasperNodeProxy
