import CasperNodeProxy.Events.Handlers

/-!
# The hand-off of the ApiVersion

* `Setter.Won`, `Started`: a setter that stored its value, a client that has been sent it.
* `HubVersion`, `TaskVersion`: the invariant of the bus and the one of each task.
* `winners_eq`: the cell is full just when exactly one setter has won.
* **`api_version_handoff`**: no lost wake-up, one winner, one value for all clients, and no event
  before it.
-/

namespace CasperNodeProxy

open Channel Run

variable {V : Type}

/-- The call of `remember_api_version` stored its value: it returns `true`, or will. -/
def Setter.Won (s : Setter V) : Prop := s.pc = .notify ∨ s.pc = .returned true

/-- These frames begin with this ApiVersion, and are events from then on. -/
def Started (frames : List (Frame V)) (data : V) : Prop :=
  ∃ es : List (EventEnvelope V), frames = .apiVersion data :: es.map .event

/-- `wait_for_api_version` returned this value to the client. -/
def Client.Got (c : Client V) (data : V) : Prop :=
  c.pc = .wait (.returned data) ∨ .apiVersion data ∈ c.frames

/-- Nobody is woken before the cell is full. -/
def HubVersion (h : Hub V) : Prop := h.bus.apiVersion = none → h.bus.apiVersionNotify.calls = 0

/-- What a setter knows of the bus. -/
def SetterVersion (h : Hub V) (s : Setter V) : Prop :=
  match s.pc with
  | .set => True
  | .notify => h.bus.apiVersion = some s.data
  | .returned true => h.bus.apiVersion = some s.data ∧ 0 < h.bus.apiVersionNotify.calls
  | .returned false => ∃ data, h.bus.apiVersion = some data

/-- What `wait_for_api_version` knows of the bus. A future that is waited for was created before
the first wake-up. -/
def WaitVersion (h : Hub V) : WaitPc V → Prop
  | .create => True
  | .read f => f.seen ≤ h.bus.apiVersionNotify.calls
  | .blocked f => f.seen = 0
  | .returned data => h.bus.apiVersion = some data

/-- The client was sent the ApiVersion of the bus. -/
def SentVersion (h : Hub V) (frames : List (Frame V)) : Prop :=
  ∃ data, h.bus.apiVersion = some data ∧ Started frames data

/-- What a client knows of the bus at its await points, and what it has been sent. -/
def PcVersion (h : Hub V) (kind : Kind) (frames : List (Frame V)) : ClientPc V → Prop
  | .subscribe => frames = []
  | .wait w => frames = [] ∧ WaitVersion h w
  | .snapshot => kind.select (SentVersion h frames) (frames = [])
  | .replay | .live => SentVersion h frames
  | .closed => frames = [] ∨ SentVersion h frames

/-- What a setter or a client knows of the bus. -/
def TaskVersion (h : Hub V) : Task V → Prop
  | .setter s => SetterVersion h s
  | .client c => PcVersion h c.kind c.frames c.pc

/-! ## The invariant -/

theorem SentVersion.event {h : Hub V} {frames : List (Frame V)} (hs : SentVersion h frames)
    (e : EventEnvelope V) : SentVersion h (frames ++ [.event e]) := by
  obtain ⟨data, hd, es, hes⟩ := hs
  refine ⟨data, hd, es ++ [e], ?_⟩
  rw [hes, List.map_append]
  rfl

theorem SentVersion.mono {h h' : Hub V} {frames : List (Frame V)} (hg : Grows h h')
    (hs : SentVersion h frames) : SentVersion h' frames := by
  obtain ⟨data, hd, hst⟩ := hs
  exact ⟨data, hg.apiVersion data hd, hst⟩

theorem waitVersion_mono {h h' : Hub V} {w : WaitPc V} (hg : Grows h h') (hw : WaitVersion h w) :
    WaitVersion h' w := by
  cases w with
  | create => trivial
  | read f => exact hw.trans hg.notified
  | blocked f => exact hw
  | returned data => exact hg.apiVersion data hw

theorem setterVersion_mono {h h' : Hub V} {s : Setter V} (hg : Grows h h')
    (hs : SetterVersion h s) : SetterVersion h' s := by
  unfold SetterVersion at hs ⊢
  split at hs
  · trivial
  · exact hg.apiVersion _ hs
  · exact ⟨hg.apiVersion _ hs.1, hs.2.trans_le hg.notified⟩
  · obtain ⟨data, hd⟩ := hs
    exact ⟨data, hg.apiVersion _ hd⟩

theorem pcVersion_mono {h h' : Hub V} {kind : Kind} {frames : List (Frame V)} {pc : ClientPc V}
    (hg : Grows h h') (hp : PcVersion h kind frames pc) : PcVersion h' kind frames pc := by
  cases pc with
  | subscribe => exact hp
  | wait w => exact ⟨hp.1, waitVersion_mono hg hp.2⟩
  | snapshot =>
    cases kind with
    | websocket => exact SentVersion.mono hg hp
    | sse => exact hp
  | replay | live => exact SentVersion.mono hg hp
  | closed => exact hp.imp_right (SentVersion.mono hg)

theorem taskVersion_mono {h h' : Hub V} {t : Task V} (hg : Grows h h') (ht : TaskVersion h t) :
    TaskVersion h' t := by
  cases t with
  | setter s => exact setterVersion_mono hg ht
  | client c => exact pcVersion_mono hg ht

/-- Waiting: the cell is read after the future was created. -/
theorem waitVersion_step {h : Hub V} {w w' : WaitPc V} (hh : HubVersion h) (hw : WaitVersion h w)
    (hs : waitStep h.bus w = some w') : WaitVersion h w' := by
  cases w with
  | create =>
    cases hs
    exact le_rfl
  | read f =>
    simp only [waitStep] at hs
    split at hs
    · next hd =>
      cases hs
      exact hd
    · next hd =>
      cases hs
      -- the cell is empty, so there was no wake-up before the future was created
      have hcalls := hh hd
      have hseen : f.seen ≤ h.bus.apiVersionNotify.calls := hw
      exact Nat.le_zero.mp (hcalls ▸ hseen)
  | blocked f =>
    obtain ⟨-, hs⟩ := Option.ite_none_right_eq_some.mp hs
    cases hs
    trivial
  | returned data => cases hs

theorem PcVersion.closed {h : Hub V} {kind : Kind} {frames : List (Frame V)} {pc : ClientPc V}
    (hp : PcVersion h kind frames pc) : PcVersion h kind frames .closed := by
  cases pc with
  | subscribe => exact .inl hp
  | wait w => exact .inl hp.1
  | snapshot =>
    cases kind with
    | websocket => exact .inr hp
    | sse => exact .inl hp
  | replay | live => exact .inr hp
  | closed => exact hp

/-- **A client is sent the ApiVersion first.** -/
theorem clientVersion_step {h : Hub V} {c c' : Client V} (hh : HubVersion h)
    (hc : PcVersion h c.kind c.frames c.pc) (hs : ClientStep h c c') :
    PcVersion h c'.kind c'.frames c'.pc := by
  have hclosed := hc.closed
  cases hs with
  | subscribe hpc =>
    rw [hpc] at hc
    show PcVersion h c.kind c.frames (c.kind.select _ _)
    cases c.kind with
    | websocket => exact ⟨hc, trivial⟩
    | sse => exact hc
  | wait hpc hw =>
    rw [hpc] at hc
    exact ⟨hc.1, waitVersion_step hh hc.2 hw⟩
  | @version data hpc =>
    rw [hpc] at hc
    have hsent : SentVersion h (c.frames ++ [.apiVersion data]) := ⟨data, hc.2, [], by simp [hc.1]⟩
    show PcVersion h c.kind (c.frames ++ [.apiVersion data]) (c.kind.select _ _)
    cases c.kind with
    | websocket => exact hsent
    | sse => exact hsent
  | snapshot hpc | noSnapshot hpc =>
    rw [hpc] at hc
    show PcVersion h c.kind c.frames (c.kind.select _ _)
    cases hk : c.kind with
    | websocket =>
      rw [hk] at hc
      exact hc
    | sse =>
      rw [hk] at hc
      exact ⟨hc, trivial⟩
  | @replay e backlog hpc hb =>
    show PcVersion h c.kind (c.frames ++ [.event e]) c.pc
    rw [hpc] at hc ⊢
    exact SentVersion.event hc e
  | replayed hpc hb =>
    rw [hpc] at hc
    exact hc
  | @deliver e rx hpc hr hid =>
    show PcVersion h c.kind (c.frames ++ [.event e]) c.pc
    rw [hpc] at hc ⊢
    exact SentVersion.event hc e
  | discard hpc | lagged hpc => exact hc
  | close => exact hclosed

theorem setterVersion_step {h : Hub V} {b' : EventBus V} {s s' : Setter V} (hh : HubVersion h)
    (hs : SetterVersion h s) (hr : RememberStep h.bus s b' s') :
    HubVersion { h with bus := b' } ∧ SetterVersion { h with bus := b' } s' := by
  unfold SetterVersion at hs
  cases hr with
  | set hpc hb => exact ⟨nofun, rfl⟩
  | alreadySet hpc hb => exact ⟨hh, _, hb⟩
  | notify hpc =>
    rw [hpc] at hs
    refine ⟨fun hnone => ?_, hs, Nat.succ_pos _⟩
    have hsome : h.bus.apiVersion = some s.data := hs
    rw [show h.bus.apiVersion = none from hnone] at hsome
    cases hsome

theorem version_owned : Tasks.OwnedInvariant (eventProgram (V := V)) HubVersion
    (fun h _ t => TaskVersion h t) Grows where
  task i h t a h' t' hh ht hs := by
    have hg := grows_taskStep hs
    rcases taskStep_cases hs with ⟨s, s', b', rfl, rfl, rfl, hr⟩ | ⟨c, c', rfl, rfl, rfl, hc⟩
    · obtain ⟨hh', hs'⟩ := setterVersion_step hh ht hr
      exact ⟨hh', hs', hg⟩
    · exact ⟨hh, clientVersion_step hh ht hc, hg⟩
  env h a h' hh hs := by
    have hg := grows_producerStep hs
    refine ⟨?_, hg⟩
    cases producerStep_cases hs with
    | push i data hi he => exact he ▸ hh
    | append i e hi he =>
      obtain ⟨-, -, -, hv, hn⟩ := append_fields h.bus e
      rw [he]
      intro hnone
      dsimp only at hnone ⊢
      rw [hn]
      exact hh (hv ▸ hnone)
    | broadcast i e len hi he => exact he ▸ hh
  spawn h i x hh := by
    cases x with
    | setter data => trivial
    | client kind startFrom => rfl
  stable h h' i t hh hg ht := taskVersion_mono hg ht

/-! ## Winners -/

/-- Whether the task is a setter that has won. -/
def Task.won : Task V → ℕ
  | .setter ⟨_, .notify⟩ | .setter ⟨_, .returned true⟩ => 1
  | _ => 0

/-- The calls of `remember_api_version` that have stored their value. -/
def winners (c : EventConf V) : ℕ := (c.tasks.map Task.won).sum

theorem won_eq_one_iff {t : Task V} : t.won = 1 ↔ ∃ s : Setter V, t = .setter s ∧ s.Won := by
  constructor
  · intro h
    unfold Task.won at h
    split at h
    · exact ⟨_, rfl, .inl rfl⟩
    · exact ⟨_, rfl, .inr rfl⟩
    · cases h
  · rintro ⟨⟨data, pc⟩, rfl, h | h⟩ <;> cases h <;> rfl

/-- **One winner.** The cell is empty, or exactly one setter has won. -/
theorem winners_eq {k backlogLimit broadcastCapacity : ℕ} {metrics : Bool} {c : EventConf V}
    (h : Reaches eventStep (eventInit k backlogLimit broadcastCapacity metrics) c) :
    winners c = if c.shared.bus.apiVersion.isNone then 0 else 1 := by
  have hcons := Tasks.Reaches.conserved
    (g := fun h : Hub V => if h.bus.apiVersion.isNone then 1 else 0) (f := Task.won)
    (fun i h t a h' t' hs => ?_) (fun h a h' hs => ?_) (fun x => ?_) h
  · have hinit : Tasks.total (fun h : Hub V => if h.bus.apiVersion.isNone then 1 else 0) Task.won
        (eventInit k backlogLimit broadcastCapacity metrics) = 1 := rfl
    rw [hinit] at hcons
    unfold Tasks.total at hcons
    unfold winners
    dsimp only at hcons
    split_ifs at hcons ⊢ with hnone
    · omega
    · omega
  · rcases taskStep_cases hs with ⟨s, s', b', rfl, rfl, rfl, hr⟩ | ⟨d, d', rfl, rfl, rfl, hd⟩
    · obtain ⟨data, pc⟩ := s
      cases hr with
      | set hpc hb =>
        cases hpc
        simp [Task.won, hb]
      | alreadySet hpc hb =>
        cases hpc
        simp [Task.won, hb]
      | notify hpc =>
        cases hpc
        rfl
    · rfl
  · cases producerStep_cases hs with
    | push i data hi he => rw [he]; rfl
    | append i e hi he =>
      obtain ⟨-, -, -, hv, -⟩ := append_fields h.bus e
      rw [he]
      dsimp only
      rw [hv]
    | broadcast i e len hi he => rw [he]; rfl
  · cases x <;> rfl

/-! ## Every run -/

theorem got_eq {h : Hub V} {c : Client V} {data : V} (hc : PcVersion h c.kind c.frames c.pc)
    (hg : c.Got data) : h.bus.apiVersion = some data := by
  rcases hg with hpc | hmem
  · rw [hpc] at hc
    exact hc.2
  · rcases hc.closed with hnil | ⟨data', hd, es, hes⟩
    · rw [hnil] at hmem
      cases hmem
    · rw [hes] at hmem
      obtain rfl : data = data' := by simpa using hmem
      exact hd

theorem won_eq {h : Hub V} {s : Setter V} (hs : SetterVersion h s) (hw : s.Won) :
    h.bus.apiVersion = some s.data := by
  unfold SetterVersion at hs
  rcases hw with hpc | hpc
  · rw [hpc] at hs
    exact hs
  · rw [hpc] at hs
    exact hs.1

theorem set_of_ne {h : Hub V} {s : Setter V} (hs : SetterVersion h s) (hpc : s.pc ≠ .set) :
    h.bus.apiVersion ≠ none := by
  unfold SetterVersion at hs
  split at hs
  · next he => exact absurd he hpc
  · rw [hs]
    nofun
  · rw [hs.1]
    nofun
  · obtain ⟨data, hd⟩ := hs
    rw [hd]
    nofun

/-- **The hand-off of the ApiVersion.** In every reachable state, with any number of producers,
setters and clients: once a call of `remember_api_version` has returned `true`, every client that
is blocked has a pending wake-up; at most one call has stored its value, and exactly one as soon as
some call has tried; what a client got is the value of that call; and a client is sent nothing
before the ApiVersion, and only events after it. -/
theorem api_version_handoff (k backlogLimit broadcastCapacity : ℕ) (metrics : Bool)
    {c : EventConf V}
    (h : Reaches eventStep (eventInit k backlogLimit broadcastCapacity metrics) c) :
    (∀ s d f, .setter s ∈ c.tasks → s.pc = .returned true → .client d ∈ c.tasks →
      d.pc = .wait (.blocked f) → c.shared.bus.apiVersionNotify.wakes f = true) ∧
    winners c ≤ 1 ∧
    (∀ s, .setter s ∈ c.tasks → s.pc ≠ .set → winners c = 1) ∧
    (∀ d data, .client d ∈ c.tasks → d.Got data →
      (∃ s, .setter s ∈ c.tasks ∧ s.Won) ∧ ∀ s, .setter s ∈ c.tasks → s.Won → s.data = data) ∧
    (∀ d, .client d ∈ c.tasks → d.frames = [] ∨ ∃ data, Started d.frames data) := by
  have h₀ : Tasks.Holds HubVersion (fun h _ t => TaskVersion h t)
      (eventInit (V := V) k backlogLimit broadcastCapacity metrics) := ⟨fun _ => rfl, nofun⟩
  obtain ⟨hh, ht⟩ := version_owned.reaches h₀ h
  have hmem : ∀ t, t ∈ c.tasks → TaskVersion c.shared t := by
    intro t hm
    obtain ⟨i, hi⟩ := List.mem_iff_getElem?.mp hm
    exact ht i t hi
  have hw := winners_eq h
  refine ⟨?_, ?_, ?_, ?_, ?_⟩
  · intro s d f hs hpc hd hblocked
    have h1 : SetterVersion c.shared s := hmem _ hs
    have h2 : PcVersion c.shared d.kind d.frames d.pc := hmem _ hd
    unfold SetterVersion at h1
    rw [hpc] at h1
    rw [hblocked] at h2
    have hseen : f.seen = 0 := h2.2
    rw [Notify.wakes_iff, hseen]
    exact h1.2
  · rw [hw]
    split_ifs <;> omega
  · intro s hs hpc
    have hsome := set_of_ne (hmem _ hs) hpc
    rw [hw, if_neg (by simpa using hsome)]
  · intro d data hd hgot
    have hcell := got_eq (hmem _ hd) hgot
    refine ⟨?_, fun s hs hwon => ?_⟩
    · have hone : winners c = 1 := by rw [hw, hcell]; rfl
      by_contra hnone
      have hzero : winners c = 0 := by
        unfold winners
        rw [List.sum_eq_zero_iff]
        intro n hn
        obtain ⟨t, htm, rfl⟩ := List.mem_map.mp hn
        have hne : t.won ≠ 1 := by
          rw [Ne, won_eq_one_iff]
          rintro ⟨s, rfl, hwon⟩
          exact hnone ⟨s, htm, hwon⟩
        unfold Task.won at hne ⊢
        split at hne <;> simp_all
      omega
    · have hdata := won_eq (hmem _ hs) hwon
      exact Option.some.inj (hdata.symm.trans hcell)
  · intro d hd
    have hp : PcVersion c.shared d.kind d.frames d.pc := hmem _ hd
    rcases hp.closed with hnil | ⟨data, -, hst⟩
    · exact .inl hnil
    · exact .inr ⟨data, hst⟩

/-- A websocket client blocks, and then the ApiVersion is stored. -/
def handoffRun : List (EventAct ℕ) :=
  [.spawn (.client .websocket none), .spawn (.setter 7), .task 0 .run, .task 0 .run, .task 0 .run,
    .task 1 .run, .task 1 .run]

theorem handoffRun_tasks :
    (exec eventStep (eventInit 1 1 1 false) handoffRun).map (fun c => c.tasks) =
      some [.client { (Client.new .websocket none : Client ℕ) with pc := .wait (.blocked ⟨0⟩) },
        .setter ⟨7, .returned true⟩] := rfl

theorem api_version_handoff_blocked :
    ∃ c, exec eventStep (eventInit 1 1 1 false) handoffRun = some c ∧ winners c = 1 ∧
      c.shared.bus.apiVersionNotify.wakes ⟨0⟩ = true := by
  obtain ⟨c, hc, htasks⟩ := Option.map_eq_some_iff.mp handoffRun_tasks
  have hall := api_version_handoff 1 1 1 false ⟨_, hc⟩
  rw [htasks] at hall
  refine ⟨c, hc, ?_, ?_⟩
  · exact hall.2.2.1 ⟨7, .returned true⟩ (by simp) nofun
  · exact hall.1 ⟨7, .returned true⟩ _ ⟨0⟩ (by simp) rfl List.mem_cons_self rfl

end CasperNodeProxy
