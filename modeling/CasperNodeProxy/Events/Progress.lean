import CasperNodeProxy.Events.ApiVersion
import CasperNodeProxy.Events.Order

/-!
# Clients catch up

A client that nobody else disturbs goes on, whatever the others have done before.

* `Awake`: the client is open, and has a wake-up if it waits for one.
* `Client.todo`: how many steps it needs at most; `todo_le`.
* `awake_step`: it takes a step and needs fewer, or it has read all that was broadcast.
* **`clients_catch_up`**: so it can always be sent all of it, by steps of its own alone.
* `Client.Fresh`, `fresh_run`: a client that comes and goes on alone is delivered what it asked for.
-/

namespace CasperNodeProxy

open Channel Log Run

variable {V : Type}

/-! ## Steps that are left -/

/-- How many steps a receiver needs at most to read everything; the first one may report a lag. -/
def behind (s : Sender (EventEnvelope V)) (rx : Receiver) : ℕ :=
  if rx.next + s.slots < s.sent.length then s.slots + 1 else s.sent.length - rx.next

/-- The steps of `wait_for_api_version`. -/
def WaitPc.rank : WaitPc V → ℕ
  | .blocked _ => 3
  | .create => 2
  | .read _ => 1
  | .returned _ => 0

namespace Client

/-- The steps in front of the queue, without those that replay an event. -/
def stage (d : Client V) : ℕ :=
  match d.pc with
  | .subscribe => 6
  | .wait w => w.rank + d.kind.select 3 2
  | .snapshot => d.kind.select 2 5
  | .replay => 1
  | .live | .closed => 0

/-- What a snapshot that was not taken yet can come to. -/
def untaken (h : Hub V) (d : Client V) : ℕ :=
  match d.pc with
  | .subscribe | .snapshot => h.bus.backlog.length
  | .wait _ => d.kind.select h.bus.backlog.length 0
  | _ => 0

/-- What is left to be replayed and read. -/
def unread (h : Hub V) (d : Client V) : ℕ :=
  match d.pc with
  | .subscribe => d.backlog.length
  | .live | .closed => behind h.bus.sender d.liveRx
  | _ => d.backlog.length + behind h.bus.sender d.liveRx

/-- How many steps a client needs at most. -/
def todo (h : Hub V) (d : Client V) : ℕ := d.stage + d.untaken h + d.unread h

end Client

/-- The client is open, and if it is blocked, then it has a pending wake-up. -/
structure Awake (h : Hub V) (d : Client V) : Prop where
  opened : d.pc ≠ .closed
  woken : ∀ f, d.pc = .wait (.blocked f) → h.bus.apiVersionNotify.wakes f = true

section Steps

variable {h : Hub V} {d d' : Client V}

@[simp] theorem send_pc (f : Frame V) : (d.send f).pc = d.pc := rfl

theorem behind_subscribe (s : Sender (EventEnvelope V)) : behind s s.subscribe = 0 := by
  unfold behind Sender.subscribe
  dsimp only
  rw [if_neg (by omega), Nat.sub_self]

theorem behind_ok {s : Sender (EventEnvelope V)} {rx rx' : Receiver} {e : EventEnvelope V}
    (hr : s.recv rx = (.ok e, rx')) : behind s rx' < behind s rx := by
  obtain ⟨hget, hnext⟩ := recv_ok hr
  have hlt := (List.getElem?_eq_some_iff.mp hget).1
  have hnear : ¬ rx.next + s.slots < s.sent.length := by
    intro hfar
    rw [Sender.recv, if_pos hfar] at hr
    cases hr
  unfold behind
  rw [hnext, if_neg (by omega), if_neg hnear]
  omega

theorem recv_far {s : Sender (EventEnvelope V)} {rx rx' : Receiver} {n : ℕ}
    (hr : s.recv rx = (.lagged n, rx')) : rx.next + s.slots < s.sent.length := by
  by_contra hnear
  rw [Sender.recv, if_neg hnear] at hr
  split at hr <;> cases hr

theorem behind_lagged {s : Sender (EventEnvelope V)} {rx rx' : Receiver} {n : ℕ}
    (hr : s.recv rx = (.lagged n, rx')) : behind s rx' < behind s rx := by
  obtain ⟨-, -, hlen⟩ := recv_lagged hr
  unfold behind
  rw [if_neg (by omega), if_pos (recv_far hr)]
  omega

/-- A step of the client is possible, and then fewer are left. -/
def Advances (h : Hub V) (d : Client V) : Prop :=
  ∃ d', clientStep h d .run = some d' ∧ Awake h d' ∧ d'.todo h < d.todo h

theorem wait_advances {w : WaitPc V} {data : V} (hv : h.bus.apiVersion = some data)
    (hw : ∀ f, w = .blocked f → h.bus.apiVersionNotify.wakes f = true)
    (hr : ∀ data, w ≠ .returned data) :
    ∃ w', waitStep h.bus w = some w' ∧ (∀ f, w' ≠ .blocked f) ∧ w'.rank < w.rank := by
  cases w with
  | create => exact ⟨.read h.bus.apiVersionNotify.notified, rfl, by simp, by simp [WaitPc.rank]⟩
  | read f =>
    refine ⟨.returned data, ?_, by simp, by simp [WaitPc.rank]⟩
    simp only [waitStep, hv]
  | blocked f =>
    refine ⟨.create, ?_, by simp, by simp [WaitPc.rank]⟩
    simp only [waitStep, hw f rfl, if_true]
  | returned data => exact absurd rfl (hr data)

theorem advances_subscribe (hpc : d.pc = .subscribe) : Advances h d := by
  obtain ⟨kind, startFrom, pc, liveRx, lastSentId, backlog⟩ := d
  obtain rfl : pc = .subscribe := hpc
  have hbehind := behind_subscribe h.bus.sender
  cases kind with
  | websocket =>
    refine ⟨_, rfl, ⟨by simp, by simp⟩, ?_⟩
    simp only [Client.todo, Client.stage, Client.untaken, Client.unread, WaitPc.rank, Kind.select,
      Client.subscribed, EventBus.subscribe, hbehind]
    omega
  | sse =>
    refine ⟨_, rfl, ⟨by simp, by simp⟩, ?_⟩
    simp only [Client.todo, Client.stage, Client.untaken, Client.unread, Kind.select,
      Client.subscribed, EventBus.subscribe, hbehind]
    omega

theorem run_wait {w : WaitPc V} (hpc : d.pc = .wait w) (hr : ∀ data, w ≠ .returned data) :
    clientStep h d .run = (waitStep h.bus w).map fun w => { d with pc := .wait w } := by
  cases w with
  | returned data => exact absurd rfl (hr data)
  | _ =>
    cases hk : d.kind <;> simp only [clientStep, hk, handleEventsSocketStep, sseStreamStep, hpc]

theorem advances_wait {w : WaitPc V} {data : V} (hv : h.bus.apiVersion = some data)
    (hd : Awake h d) (hpc : d.pc = .wait w) : Advances h d := by
  by_cases hr : ∃ data, w = .returned data
  · obtain ⟨data, rfl⟩ := hr
    obtain ⟨kind, startFrom, pc, liveRx, lastSentId, backlog⟩ := d
    obtain rfl : pc = .wait (.returned data) := hpc
    cases kind with
    | websocket =>
      refine ⟨_, rfl, ⟨by simp, by simp⟩, ?_⟩
      simp [Client.todo, Client.stage, Client.untaken, Client.unread, WaitPc.rank, Kind.select,
        Client.send]
    | sse =>
      refine ⟨_, rfl, ⟨by simp, by simp⟩, ?_⟩
      simp [Client.todo, Client.stage, Client.untaken, Client.unread, WaitPc.rank, Kind.select,
        Client.send]
  · have hret : ∀ data, w ≠ .returned data := fun data he => hr ⟨data, he⟩
    obtain ⟨w', hw', hblocked, hrank⟩ :=
      wait_advances hv (fun f hf => hd.woken f (by rw [hpc, hf])) hret
    refine ⟨{ d with pc := .wait w' }, ?_, ⟨by simp, fun f hf => ?_⟩, ?_⟩
    · rw [run_wait hpc hret, hw']
      rfl
    · exact absurd (ClientPc.wait.inj hf) (hblocked f)
    · simp only [Client.todo, Client.stage, Client.untaken, Client.unread, hpc]
      omega

theorem advances_snapshot (hpc : d.pc = .snapshot) : Advances h d := by
  obtain ⟨kind, startFrom, pc, liveRx, lastSentId, backlog⟩ := d
  obtain rfl : pc = .snapshot := hpc
  have hlen : ∀ s, (h.bus.snapshotFrom s).length ≤ h.bus.backlog.length := fun s =>
    List.length_filter_le _ _
  cases startFrom with
  | none =>
    cases kind with
    | websocket =>
      refine ⟨_, rfl, ⟨by simp, by simp⟩, ?_⟩
      simp only [Client.todo, Client.stage, Client.untaken, Client.unread, Kind.select]
      omega
    | sse =>
      refine ⟨_, rfl, ⟨by simp, by simp⟩, ?_⟩
      simp only [Client.todo, Client.stage, Client.untaken, Client.unread, Kind.select,
        WaitPc.rank]
      omega
  | some s =>
    have := hlen s
    cases kind with
    | websocket =>
      refine ⟨_, rfl, ⟨by simp, by simp⟩, ?_⟩
      simp only [Client.todo, Client.stage, Client.untaken, Client.unread, Kind.select,
        Client.snapshotTaken]
      omega
    | sse =>
      refine ⟨_, rfl, ⟨by simp, by simp⟩, ?_⟩
      simp only [Client.todo, Client.stage, Client.untaken, Client.unread, Kind.select,
        Client.snapshotTaken, WaitPc.rank]
      omega

theorem advances_replay (hpc : d.pc = .replay) : Advances h d := by
  obtain ⟨kind, startFrom, pc, liveRx, lastSentId, backlog⟩ := d
  obtain rfl : pc = .replay := hpc
  cases backlog with
  | nil =>
    cases kind <;> exact ⟨_, rfl, ⟨by simp, by simp⟩,
      by simp [Client.todo, Client.stage, Client.untaken, Client.unread]⟩
  | cons e backlog =>
    cases kind <;> exact ⟨_, rfl, ⟨by simp, by simp⟩,
      by simp [Client.todo, Client.stage, Client.untaken, Client.unread, Client.send]⟩

theorem advances_live (hpc : d.pc = .live) (hlt : d.liveRx.next < h.sent.length) :
    Advances h d := by
  have hrun : clientStep h d .run = liveStep h d := by
    cases hk : d.kind <;> simp only [clientStep, hk, handleEventsSocketStep, sseStreamStep, hpc]
  have left : ∀ d' : Client V, d'.pc = .live →
      behind h.bus.sender d'.liveRx < behind h.bus.sender d.liveRx →
      Awake h d' ∧ d'.todo h < d.todo h := by
    intro d' hpc' hlt
    refine ⟨⟨by simp [hpc'], by simp [hpc']⟩, ?_⟩
    simp only [Client.todo, Client.stage, Client.untaken, Client.unread, hpc, hpc']
    omega
  unfold Advances
  rw [hrun]
  unfold liveStep
  cases hr : h.bus.sender.recv d.liveRx with
  | mk r rx =>
    cases r with
    | ok e =>
      dsimp only
      split_ifs
      · exact ⟨_, rfl, left _ hpc (behind_ok hr)⟩
      · exact ⟨_, rfl, left _ hpc (behind_ok hr)⟩
    | lagged n => exact ⟨_, rfl, left _ hpc (behind_lagged hr)⟩
    | pending =>
      have hget : h.bus.sender.sent[d.liveRx.next]? = some _ := List.getElem?_eq_getElem hlt
      unfold Sender.recv at hr
      rw [hget] at hr
      split_ifs at hr <;> cases hr

/-- **A client goes on**, and comes closer, until it has read everything. -/
theorem awake_step {data : V} (hv : h.bus.apiVersion = some data) (hd : Awake h d) :
    (d.pc = .live ∧ h.sent.length ≤ d.liveRx.next) ∨ Advances h d := by
  cases hpc : d.pc with
  | subscribe => exact .inr (advances_subscribe hpc)
  | wait w => exact .inr (advances_wait hv hd hpc)
  | snapshot => exact .inr (advances_snapshot hpc)
  | replay => exact .inr (advances_replay hpc)
  | live =>
    rcases Nat.lt_or_ge d.liveRx.next h.sent.length with hlt | hge
    · exact .inr (advances_live hpc hlt)
    · exact .inl ⟨rfl, hge⟩
  | closed => exact absurd hpc hd.opened

/-- The ring still holds what the client has not read. -/
def Near (h : Hub V) (d : Client V) : Prop :=
  d.pc = .subscribe ∨ h.sent.length ≤ d.liveRx.next + h.bus.sender.slots

theorem near_step (hs : ClientStep h d d') (hopen : d'.pc ≠ .closed) (hn : Near h d) :
    Near h d' ∧ d'.missed = d.missed := by
  unfold Near at hn
  cases hs with
  | subscribe hpc => exact ⟨.inr (Nat.le_add_right _ _), rfl⟩
  | wait hpc | version hpc | snapshot hpc | noSnapshot hpc | replay hpc | replayed hpc =>
    rw [hpc] at hn
    exact ⟨.inr (hn.resolve_left (by simp)), rfl⟩
  | deliver hpc hr hid | discard hpc hr hid =>
    rw [hpc] at hn
    have hnext := (recv_ok hr).2
    have hnear := hn.resolve_left (by simp)
    refine ⟨.inr (hnear.trans ?_), rfl⟩
    dsimp only [Client.send]
    omega
  | lagged hpc hr =>
    rw [hpc] at hn
    exact absurd (recv_far hr) (Nat.not_lt.mpr (hn.resolve_left (by simp)))
  | close => exact absurd rfl hopen

/-- **A client catches up** by itself, without a lag if the ring still holds what it has to read. -/
theorem awake_run {data : V} (hv : h.bus.apiVersion = some data) (hd : Awake h d) :
    ∃ n d', n ≤ d.todo h ∧ exec (clientStep h) d (List.replicate n .run) = some d' ∧
      d'.pc = .live ∧ h.sent.length ≤ d'.liveRx.next ∧ (Near h d → d'.missed = d.missed) := by
  have hstep : ∀ x, Awake h x ∧ (Near h d → Near h x ∧ x.missed = d.missed) →
      (x.pc = .live ∧ h.sent.length ≤ x.liveRx.next) ∨ ∃ x', clientStep h x .run = some x' ∧
        (Awake h x' ∧ (Near h d → Near h x' ∧ x'.missed = d.missed)) ∧ x'.todo h < x.todo h := by
    rintro x ⟨hawake, hkeep⟩
    rcases awake_step hv hawake with hdone | ⟨x', hrun, hawake', hlt⟩
    · exact .inl hdone
    · refine .inr ⟨x', hrun, ⟨hawake', fun h₀ => ?_⟩, hlt⟩
      obtain ⟨hn, hmissed⟩ := hkeep h₀
      obtain ⟨hn', hmissed'⟩ := near_step (clientStep_cases hrun) hawake'.opened hn
      exact ⟨hn', hmissed'.trans hmissed⟩
  obtain ⟨n, d', hn, hexec, ⟨-, hnear⟩, hpc, hread⟩ := exec_variant hstep ⟨hd, fun h₀ => ⟨h₀, rfl⟩⟩
  exact ⟨n, d', hn, hexec, hpc, hread, fun h₀ => (hnear h₀).2⟩

/-! ## A new client -/

/-- What the client asked for, of the backlog as it is now. -/
def Client.asked (h : Hub V) (d : Client V) : List (EventEnvelope V) :=
  (d.startFrom.map h.bus.snapshotFrom).getD []

/-- The handler has not come to its snapshot yet, or is over. -/
def Client.early (d : Client V) : Prop :=
  match d.pc with
  | .subscribe | .snapshot | .closed => True
  | .wait _ => d.kind = .websocket
  | .replay | .live => False

/-- The client came when the bus was as it is now. -/
structure Client.Fresh (h : Hub V) (d : Client V) : Prop where
  joined : d.pc ≠ .subscribe → d.pc ≠ .closed → d.joined = h.sent.length
  absent : d.startFrom = none → d.snapshot = []
  taken : d.early ∨ d.snapshot = d.asked h

theorem fresh_new (kind : Kind) (startFrom : Option ℕ) :
    (Client.new kind startFrom : Client V).Fresh h :=
  ⟨fun hpc => absurd rfl hpc, fun _ => rfl, .inl trivial⟩

theorem fresh_step (hs : ClientStep h d d') (hd : d.Fresh h) : d'.Fresh h := by
  obtain ⟨hjoined, habsent, htaken⟩ := hd
  unfold Client.early at htaken
  cases hs with
  | subscribe hpc =>
    refine ⟨fun _ _ => rfl, habsent, .inl ?_⟩
    cases hk : d.kind <;> simp [Client.early, Client.subscribed, Kind.select, hk]
  | wait hpc hw =>
    rw [hpc] at hjoined htaken
    exact ⟨fun _ _ => hjoined nofun nofun, habsent, htaken⟩
  | version hpc =>
    rw [hpc] at hjoined htaken
    refine ⟨fun _ _ => hjoined nofun nofun, habsent, ?_⟩
    cases hk : d.kind with
    | websocket => exact .inl trivial
    | sse => exact .inr (htaken.resolve_left (by simp [hk]))
  | snapshot hpc hst =>
    rw [hpc] at hjoined
    refine ⟨fun _ _ => hjoined nofun nofun, fun hnone => ?_, .inr ?_⟩
    · cases hst.symm.trans hnone
    · simp [Client.asked, Client.snapshotTaken, hst]
  | noSnapshot hpc hst =>
    rw [hpc] at hjoined
    refine ⟨fun _ _ => hjoined nofun nofun, habsent, .inr ?_⟩
    simp [Client.asked, hst, habsent hst]
  | replay hpc | replayed hpc | deliver hpc | discard hpc | lagged hpc =>
    rw [hpc] at hjoined htaken
    exact ⟨fun _ _ => hjoined nofun nofun, habsent, .inr (htaken.resolve_left id)⟩
  | close => exact ⟨fun _ hpc => absurd rfl hpc, habsent, .inl trivial⟩

theorem fresh_run {acts : List TaskAct} (hrun : exec (clientStep h) d acts = some d')
    (hd : d.Fresh h) : d'.Fresh h :=
  Reaches.invariant (I := Client.Fresh h) ⟨acts, hrun⟩ hd
    fun _ _ _ hx hs => fresh_step (clientStep_cases hs) hx

end Steps

/-! ## Among the others -/

theorem exec_client {c : EventConf V} {i : ℕ} {d d' : Client V} {acts : List TaskAct}
    (hi : c.tasks[i]? = some (.client d)) (h : exec (clientStep c.shared) d acts = some d') :
    exec eventStep c (acts.map (Tasks.Act.task i)) =
      some ⟨c.shared, c.tasks.set i (.client d')⟩ := by
  refine Tasks.exec_solo (x := (c.shared, .client d')) hi ?_
  clear hi
  induction acts generalizing d with
  | nil =>
    cases h
    rfl
  | cons a acts ih =>
    obtain ⟨x, hx, hrest⟩ := exec_cons_eq_some.mp h
    have hstep : eventProgram.solo i (c.shared, Task.client d) a = some (c.shared, .client x) := by
      simp only [Tasks.Program.solo, eventProgram, taskStep, hx, Option.map_some]
    rw [exec, hstep]
    exact ih hrest

theorem version_reaches {k backlogLimit broadcastCapacity : ℕ} {metrics : Bool} {c : EventConf V}
    (h : Reaches eventStep (eventInit k backlogLimit broadcastCapacity metrics) c) {t : Task V}
    (ht : t ∈ c.tasks) : TaskVersion c.shared t := by
  have h₀ : Tasks.Holds HubVersion (fun h _ t => TaskVersion h t)
      (eventInit (V := V) k backlogLimit broadcastCapacity metrics) := ⟨fun _ => rfl, nofun⟩
  obtain ⟨i, hi⟩ := List.mem_iff_getElem?.mp ht
  exact (version_owned.reaches h₀ h).2 i t hi

theorem slots_reaches {k backlogLimit broadcastCapacity : ℕ} {metrics : Bool} {c : EventConf V}
    (h : Reaches eventStep (eventInit k backlogLimit broadcastCapacity metrics) c) :
    c.shared.bus.sender.slots = ringSize (max broadcastCapacity 1) := by
  refine h.invariant
    (I := fun d => d.shared.bus.sender.slots = ringSize (max broadcastCapacity 1)) rfl ?_
  intro u a v hu hs
  cases a with
  | task i a =>
    obtain ⟨t, h', t', -, hr, rfl⟩ := Tasks.step_task hs
    rcases taskStep_cases hr with ⟨s, s', b', -, -, rfl, hb⟩ | ⟨d, d', -, -, rfl, -⟩
    · cases hb <;> exact hu
    · exact hu
  | env e =>
    obtain ⟨h', hr, rfl⟩ := Tasks.step_env hs
    cases producerStep_cases hr with
    | push i data hi he => exact he ▸ hu
    | append i e hi he =>
      rw [he]
      dsimp only
      rw [(append_fields u.shared.bus e).1]
      exact hu
    | broadcast i e len hi he => exact he ▸ hu
  | spawn x =>
    rw [Tasks.step_spawn hs]
    exact hu

/-! ## How long it takes -/

section Bounds

variable {h : Hub V} {d : Client V}

theorem behind_le (s : Sender (EventEnvelope V)) (rx : Receiver) : behind s rx ≤ s.slots + 1 := by
  unfold behind
  split_ifs <;> omega

theorem Taken.length_snapshot (ht : Taken h d) : d.snapshot.length ≤ h.bus.backlogLimit := by
  cases hs : d.startFrom with
  | none =>
    rw [ht.absent hs]
    exact Nat.zero_le _
  | some s =>
    rw [(ht.present s hs).2.2, List.length_drop, List.length_take]
    unfold skipped
    omega

theorem Replaying.length_backlog (hr : Replaying h d) :
    d.backlog.length ≤ h.bus.backlogLimit := by
  have hlen := congrArg List.length hr.split
  have := hr.taken.length_snapshot
  rw [List.length_append] at hlen
  omega

/-- **A client needs a bounded number of steps**, however much was pushed. -/
theorem todo_le (ho : InOrder h) (hp : PcDelivery h d.kind d d.pc) :
    d.todo h ≤ h.bus.backlogLimit + h.bus.sender.slots + 7 := by
  have hbehind := behind_le h.bus.sender d.liveRx
  have hwindow : h.bus.backlog.length ≤ h.bus.backlogLimit := by
    rw [ho.windowed.backlog, length_window]
    exact min_le_right _ _
  unfold Client.todo Client.stage Client.untaken Client.unread
  cases hpc : d.pc with
  | subscribe =>
    rw [hpc] at hp
    have hb : d.backlog = [] := Blank.backlog hp
    simp only [hb, List.length_nil]
    omega
  | wait w =>
    rw [hpc] at hp
    have hrank : w.rank ≤ 3 := by cases w <;> simp [WaitPc.rank]
    cases hk : d.kind with
    | websocket =>
      rw [hk] at hp
      have hb : d.backlog = [] := hp.1.backlog
      simp only [hb, List.length_nil, Kind.select]
      omega
    | sse =>
      rw [hk] at hp
      have := hp.1.length_backlog
      simp only [Kind.select]
      omega
  | snapshot =>
    rw [hpc] at hp
    have hb : d.backlog = [] := hp.1.backlog
    simp only [hb, List.length_nil]
    cases d.kind <;> simp only [Kind.select] <;> omega
  | replay =>
    rw [hpc] at hp
    have := hp.1.length_backlog
    dsimp only
    omega
  | live | closed =>
    dsimp only
    omega

end Bounds

/-! ## Every run -/

/-- The client has been sent its snapshot, and what was broadcast behind it without what was
reported as lagged. -/
structure Client.CaughtUp (h : Hub V) (d : Client V) : Prop where
  live : d.pc = .live
  delivered : d.delivered = d.snapshot ++ (h.sent.drop (max d.joined d.covered)).filter
    (fun e => e.id ∉ d.missedIds)

/-- A client that came when the bus was as it is now, and is caught up, was delivered what it asked
for. -/
theorem Client.CaughtUp.fresh {h : Hub V} {d : Client V} (hd : d.CaughtUp h) (hf : d.Fresh h) :
    d.delivered = d.asked h := by
  have htaken := hf.taken
  unfold Client.early at htaken
  rw [hd.live] at htaken
  have hjoined := hf.joined (by simp [hd.live]) (by simp [hd.live])
  have hqueue : h.sent.drop (max d.joined d.covered) = [] :=
    List.drop_eq_nil_of_le (hjoined.symm.le.trans (le_max_left _ _))
  rw [hd.delivered, hqueue, List.filter_nil, List.append_nil]
  exact htaken.resolve_left id

theorem catch_up_reaches {backlogLimit broadcastCapacity : ℕ} {metrics : Bool} {c : EventConf V}
    (h : Reaches eventStep (eventInit 1 backlogLimit broadcastCapacity metrics) c) {s : Setter V}
    (hs : .setter s ∈ c.tasks) (hstored : s.pc = .returned true) {i : ℕ} {d : Client V}
    (hi : c.tasks[i]? = some (.client d)) (hopen : d.pc ≠ .closed) :
    ∃ n d', n ≤ max backlogLimit 1 + ringSize (max broadcastCapacity 1) + 7 ∧
      exec eventStep c (List.replicate n (.task i .run)) =
        some ⟨c.shared, c.tasks.set i (.client d')⟩ ∧
      d'.CaughtUp c.shared ∧ (Near c.shared d → d'.missed = d.missed) ∧
      (d.Fresh c.shared → d'.Fresh c.shared) := by
  obtain ⟨ho, hall⟩ := delivery_reaches h
  have hmem : Task.client d ∈ c.tasks := List.mem_of_getElem? hi
  have hsetter : SetterVersion c.shared s := version_reaches h hs
  unfold SetterVersion at hsetter
  rw [hstored] at hsetter
  obtain ⟨hv, hcalls⟩ := hsetter
  have hawake : Awake c.shared d := by
    refine ⟨hopen, fun f hf => ?_⟩
    have hp : PcVersion c.shared d.kind d.frames d.pc := version_reaches h hmem
    rw [hf] at hp
    have hseen : f.seen = 0 := hp.2
    rw [Notify.wakes_iff, hseen]
    exact hcalls
  obtain ⟨n, d', hn, hexec, hpc, hread, hnear⟩ := awake_run hv hawake
  have hrun : exec eventStep c (List.replicate n (.task i .run)) =
      some ⟨c.shared, c.tasks.set i (.client d')⟩ := by
    rw [← List.map_replicate]
    exact exec_client hi hexec
  have hlive : Live c.shared d' := by
    have hmem' : Task.client d' ∈ c.tasks.set i (.client d') :=
      List.mem_of_getElem? (List.getElem?_set_self (List.getElem?_eq_some_iff.mp hi).1)
    have hp := (delivery_reaches (h.trans ⟨_, hrun⟩)).2 d' hmem'
    rw [hpc] at hp
    exact hp
  refine ⟨n, d', ?_, hrun, ⟨hpc, ?_⟩, hnear, fresh_run hexec⟩
  · have hle := todo_le ho (hall d hmem)
    rw [limit_reaches h, slots_reaches h] at hle
    exact hn.trans hle
  · have hnext : d'.liveRx.next = c.shared.sent.length := le_antisymm hlive.next hread
    have hsent : c.shared.pushed.take c.shared.sent.length = c.shared.sent := by
      rw [prefix_take (ho.sent_appended.trans ho.appended_pushed) le_rfl, List.take_length]
    rw [hlive.delivered, fromQueue, hnext, hsent]

/-- **Clients catch up.** With one producer, in every reachable state in which a call of
`remember_api_version` has stored the ApiVersion and returned: any client that is open can be sent
all that was broadcast, by a bounded number of its own steps, whatever the others did and wherever
they stand. What it has been sent then is its snapshot, and what was broadcast behind it without
what was reported as lagged; and no new lag is reported if the ring still holds what it has to
read. -/
theorem clients_catch_up {backlogLimit broadcastCapacity : ℕ} {metrics : Bool} {c : EventConf V}
    (h : Reaches eventStep (eventInit 1 backlogLimit broadcastCapacity metrics) c) {s : Setter V}
    (hs : .setter s ∈ c.tasks) (hstored : s.pc = .returned true) {i : ℕ} {d : Client V}
    (hd : clientAt c i = some d) (hopen : d.pc ≠ .closed) :
    ∃ n d', n ≤ max backlogLimit 1 + ringSize (max broadcastCapacity 1) + 7 ∧
      exec eventStep c (List.replicate n (.task i .run)) =
        some ⟨c.shared, c.tasks.set i (.client d')⟩ ∧
      d'.pc = .live ∧
      d'.delivered = d'.snapshot ++ (c.shared.sent.drop (max d'.joined d'.covered)).filter
        (fun e => e.id ∉ d'.missedIds) ∧
      (Near c.shared d → d'.missed = d.missed) := by
  have hi : c.tasks[i]? = some (.client d) := by
    unfold clientAt at hd
    split at hd
    · next ht =>
      cases hd
      exact ht
    · cases hd
  obtain ⟨n, d', hn, hrun, hcaught, hnear, -⟩ := catch_up_reaches h hs hstored hi hopen
  exact ⟨n, d', hn, hrun, hcaught.live, hcaught.delivered, hnear⟩

/-- The ApiVersion is stored, a client subscribes, and an event is pushed. -/
def subscribedRun : List (EventAct ℕ) :=
  [.spawn (.setter 7), .task 0 .run, .task 0 .run, .spawn (.client .sse none), .task 1 .run,
    .env (.push 0 10), .env (.run 0), .env (.run 0)]

theorem subscribedRun_tasks :
    (exec eventStep (eventInit 1 4 4 false) subscribedRun).map (fun c => (c.tasks, c.shared.sent)) =
      some ([.setter ⟨7, .returned true⟩, .client { (Client.new .sse none : Client ℕ) with
        pc := .snapshot }], [⟨1, 10⟩]) := rfl

theorem clients_catch_up_subscribed :
    ∃ c n d', n ≤ 15 ∧ exec eventStep (eventInit 1 4 4 false) subscribedRun = some c ∧
      exec eventStep c (List.replicate n (.task 1 .run)) =
        some ⟨c.shared, c.tasks.set 1 (.client d')⟩ ∧
      d'.pc = .live ∧ d'.delivered = d'.snapshot ++ ([⟨1, 10⟩] : List (EventEnvelope ℕ)).drop
        (max d'.joined d'.covered) := by
  obtain ⟨c, hc, hseen⟩ := Option.map_eq_some_iff.mp subscribedRun_tasks
  simp only [Prod.mk.injEq] at hseen
  obtain ⟨htasks, hsent⟩ := hseen
  have hclient : clientAt c 1 =
      some { (Client.new .sse none : Client ℕ) with pc := .snapshot } := by
    simp [clientAt, htasks]
  have hsetter : Task.setter ⟨7, .returned true⟩ ∈ c.tasks := by simp [htasks]
  obtain ⟨n, d', hn, hrun, hpc, hdel, hnear⟩ :=
    clients_catch_up ⟨_, hc⟩ hsetter rfl hclient nofun
  have hmissed : d'.missed = [] := by
    refine hnear (.inr ?_)
    rw [hsent, slots_reaches ⟨_, hc⟩]
    decide
  refine ⟨c, n, d', hn, hc, hrun, hpc, ?_⟩
  rw [hdel, hsent]
  simp [Client.missedIds, hmissed]

end CasperNodeProxy
