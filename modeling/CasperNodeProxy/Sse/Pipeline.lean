import Mathlib.Data.List.Sort
import CasperNodeProxy.Events.Agreement
import CasperNodeProxy.Lib.Refinement
import CasperNodeProxy.Sse.Repeats

/-!
# From the upstream to the clients

The listener and the clients of a network share one bus. A call of the bus with which the loop body
of the listener ends takes several steps, between which clients go on; the listener waits for it.

* `Pipeline`, `pipelineStep`: the listener, the bus with its clients, and what goes on outside.
* `feeds_reaches`, `serves_reaches`: both parts run as they do alone.
* `EndsIn`, `Linked`: what the bus will be when the call is over.
* **`pipeline_linearized`**: that is the bus of a listener whose calls are single steps.
* **`clients_follow_upstream`**: what a client is delivered is, in order, what the upstream sent.
-/

namespace CasperNodeProxy

open Channel Log Run Stutter

variable {E V : Type}

/-! ## The call of the bus -/

/-- The producer is in no call. -/
def PushPc.isIdle : PushPc V → Bool
  | .idle => true
  | _ => false

/-- A call of `remember_api_version` that has not returned. -/
def Task.unreturned : Task V → Option (Setter V)
  | .setter ⟨_, .returned _⟩ => none
  | .setter s => some s
  | .client _ => none

/-- The calls of `remember_api_version` that are open. -/
def setters (c : EventConf V) : List (Setter V) := c.tasks.filterMap Task.unreturned

/-- The listener waits for a call of the bus. -/
def calling (c : EventConf V) : Bool :=
  !(c.shared.producers.all PushPc.isIdle && (setters c).isEmpty)

/-- The call that the loop body ends with. -/
def busCall (p : Process E V) (l : Listener E V) : ListenerAct E → Option (EventAct V)
  | .ok =>
    match l.pc with
    | .deliver item =>
      match item.envelope.data, p.sseToValue item.envelope.data with
      | .apiVersion _, some value => some (.spawn (.setter value))
      | .other _, some value => some (.env (.push 0 value))
      | _, none => none
    | _ => none
  | _ => none

/-! ## The pipeline -/

/-- The bus in the record of the listener is the one that it would have if its calls were single
steps; the one that is shared is in `events`. -/
structure Pipeline (E V : Type) where
  world : World E
  listener : Listener E V
  events : EventConf V

/-- A process that starts, with no client yet. -/
def pipelineInit (p : Process E V) (w : World E) : Pipeline E V :=
  ⟨w, .new p, eventInit 1 p.backlogLimit p.broadcastCapacity p.metrics⟩

/-- The listener takes a step, or goes on with its call: a `push`, or one of the tasks. A client
takes a step, or a new one comes; and the upstream and Redis do something by themselves. -/
inductive PipelineAct (E : Type)
  | listener (a : ListenerAct E)
  | push
  | task (i : ℕ) (a : TaskAct)
  | request (kind : Kind) (startFrom : Option ℕ)
  | publish (e : Entry E)
  | arrive (i : ℕ)

/-- One step of a listener over a shared bus. -/
def pipelineStep (p : Process E V) (c : Pipeline E V) : PipelineAct E → Option (Pipeline E V)
  | .listener a =>
    if calling c.events then none
    else (listenerStep p c.world c.listener a).bind fun r =>
      match busCall p c.listener a with
      | some call => (eventStep c.events call).map fun events => ⟨r.1, r.2, events⟩
      | none => some ⟨r.1, r.2, c.events⟩
  | .push => (eventStep c.events (.env (.run 0))).map fun events => { c with events := events }
  | .task i a => (eventStep c.events (.task i a)).map fun events => { c with events := events }
  | .request kind startFrom => (eventStep c.events (.spawn (.client kind startFrom))).map
      fun events => { c with events := events }
  | .publish e => (c.world.publish e).map fun w => { c with world := w }
  | .arrive i => (c.world.arrive i).map fun w => { c with world := w }

/-! ## The parts -/

variable {p : Process E V}

/-- A step of the pipeline is one of the listener, with or without a call, one of the bus, or one of
what is outside. -/
inductive PipelineStep (p : Process E V) (c : Pipeline E V) : Pipeline E V → Prop
  | call {a : ListenerAct E} {w : World E} {l : Listener E V} {call : EventAct V}
      {events : EventConf V} (hc : calling c.events = false)
      (hl : listenerStep p c.world c.listener a = some (w, l))
      (hcall : busCall p c.listener a = some call) (he : eventStep c.events call = some events) :
      PipelineStep p c ⟨w, l, events⟩
  | quiet {a : ListenerAct E} {w : World E} {l : Listener E V} (hc : calling c.events = false)
      (hl : listenerStep p c.world c.listener a = some (w, l))
      (hcall : busCall p c.listener a = none) : PipelineStep p c ⟨w, l, c.events⟩
  | push {events : EventConf V} (he : eventStep c.events (.env (.run 0)) = some events) :
      PipelineStep p c { c with events := events }
  | task {i : ℕ} {a : TaskAct} {events : EventConf V}
      (he : eventStep c.events (.task i a) = some events) :
      PipelineStep p c { c with events := events }
  | request {kind : Kind} {startFrom : Option ℕ} {events : EventConf V}
      (he : eventStep c.events (.spawn (.client kind startFrom)) = some events) :
      PipelineStep p c { c with events := events }
  | outside {a : FeedAct E} {w : World E} (ha : ∀ x, a ≠ .listener x)
      (hw : feedStep p ⟨c.world, c.listener⟩ a = some ⟨w, c.listener⟩) :
      PipelineStep p c { c with world := w }

theorem pipelineStep_cases {c c' : Pipeline E V} {a : PipelineAct E}
    (hs : pipelineStep p c a = some c') : PipelineStep p c c' := by
  cases a with
  | listener a =>
    simp only [pipelineStep] at hs
    split_ifs at hs with hc
    rw [Bool.not_eq_true] at hc
    obtain ⟨⟨w, l⟩, hl, hs⟩ := Option.bind_eq_some_iff.mp hs
    split at hs
    · next call hcall =>
      obtain ⟨events, he, rfl⟩ := Option.map_eq_some_iff.mp hs
      exact .call hc hl hcall he
    · next hcall =>
      cases hs
      exact .quiet hc hl hcall
  | push =>
    obtain ⟨events, he, rfl⟩ := Option.map_eq_some_iff.mp hs
    exact .push he
  | task i a =>
    obtain ⟨events, he, rfl⟩ := Option.map_eq_some_iff.mp hs
    exact .task he
  | request kind startFrom =>
    simp only [pipelineStep] at hs
    obtain ⟨events, he, rfl⟩ := Option.map_eq_some_iff.mp hs
    exact .request he
  | publish e =>
    obtain ⟨w, hw, rfl⟩ := Option.map_eq_some_iff.mp hs
    refine .outside (a := .publish e) nofun ?_
    simp [feedStep, hw]
  | arrive i =>
    obtain ⟨w, hw, rfl⟩ := Option.map_eq_some_iff.mp hs
    refine .outside (a := .arrive i) nofun ?_
    simp [feedStep, hw]

/-- **The listener runs as it does alone.** -/
theorem pipeline_feeds :
    Simulates (pipelineStep p) (feedStep p) fun c f => f = ⟨c.world, c.listener⟩ := by
  rintro c f a c' rfl hs
  have listener : ∀ {a : ListenerAct E} {w : World E} {l : Listener E V},
      listenerStep p c.world c.listener a = some (w, l) →
      Reaches (feedStep p) ⟨c.world, c.listener⟩ ⟨w, l⟩ := by
    intro a w l hl
    exact Reaches.single (a := .listener a) (by simp [feedStep, hl])
  cases pipelineStep_cases hs with
  | call hc hl hcall he => exact ⟨_, listener hl, rfl⟩
  | quiet hc hl hcall => exact ⟨_, listener hl, rfl⟩
  | push he | task he | request he => exact ⟨_, .refl _, rfl⟩
  | outside ha hw => exact ⟨_, Reaches.single hw, rfl⟩

/-- **The clients run as they do alone.** -/
theorem pipeline_serves :
    Simulates (pipelineStep p) eventStep fun c events => events = c.events := by
  rintro c f a c' rfl hs
  cases pipelineStep_cases hs with
  | call hc hl hcall he => exact ⟨_, Reaches.single he, rfl⟩
  | push he => exact ⟨_, Reaches.single he, rfl⟩
  | task he => exact ⟨_, Reaches.single he, rfl⟩
  | request he => exact ⟨_, Reaches.single he, rfl⟩
  | quiet hc hl hcall => exact ⟨_, .refl _, rfl⟩
  | outside ha hw => exact ⟨_, .refl _, rfl⟩

/-! ## One call at a time -/

/-- What the bus will be when the call that the listener waits for is over. -/
inductive EndsIn (c : EventConf V) : EventBus V → Prop
  | idle (hp : c.shared.producers = [.idle]) (hs : setters c = []) : EndsIn c c.shared.bus
  | append (e : EventEnvelope V) (hp : c.shared.producers = [.append e]) (hs : setters c = []) :
      EndsIn c ((c.shared.bus.append e).1.broadcast e (c.shared.bus.append e).2)
  | broadcast (e : EventEnvelope V) (len : ℕ) (hp : c.shared.producers = [.broadcast e len])
      (hs : setters c = []) : EndsIn c (c.shared.bus.broadcast e len)
  | set (data : V) (hp : c.shared.producers = [.idle]) (hs : setters c = [⟨data, .set⟩]) :
      EndsIn c (c.shared.bus.rememberApiVersion data).1
  | notify (data : V) (hp : c.shared.producers = [.idle]) (hs : setters c = [⟨data, .notify⟩]) :
      EndsIn c c.shared.bus.notifyWaiters

theorem EndsIn.of_not_calling {c : EventConf V} {b : EventBus V} (h : EndsIn c b)
    (hc : calling c = false) :
    c.shared.producers = [.idle] ∧ setters c = [] ∧ b = c.shared.bus := by
  cases h with
  | idle hp hs => exact ⟨hp, hs, rfl⟩
  | append e hp hs => simp [calling, hp, PushPc.isIdle] at hc
  | broadcast e len hp hs => simp [calling, hp, PushPc.isIdle] at hc
  | set data hp hs => simp [calling, hs] at hc
  | notify data hp hs => simp [calling, hs] at hc

/-- The bus of the listener is the shared one with its call completed, and so are the events. -/
structure Linked (c : Pipeline E V) : Prop where
  endsIn : EndsIn c.events c.listener.bus
  pushed : c.events.shared.pushed = c.listener.pushed.map Pushed.event

/-! ## Steps of the call -/

section Setters

variable {tasks : List (Task V)} {h : Hub V} {i : ℕ}

theorem filterMap_cons_toList {α β : Type} (f : α → Option β) (x : α) (l : List α) :
    (x :: l).filterMap f = (f x).toList ++ l.filterMap f := by
  cases hx : f x <;> simp [hx]

theorem setters_set {t : Task V} (ht : tasks[i]? = some t) :
    ∃ l₁ l₂, setters ⟨h, tasks⟩ = l₁ ++ (t.unreturned.toList ++ l₂) ∧
      ∀ h' t', setters ⟨h', tasks.set i t'⟩ = l₁ ++ (t'.unreturned.toList ++ l₂) := by
  obtain ⟨hi, hget⟩ := List.getElem?_eq_some_iff.mp ht
  refine ⟨(tasks.take i).filterMap Task.unreturned, (tasks.drop (i + 1)).filterMap Task.unreturned,
    ?_, fun h' t' => ?_⟩
  · have hsplit : tasks = tasks.take i ++ t :: tasks.drop (i + 1) := by
      rw [← hget, List.getElem_cons_drop, List.take_append_drop]
    conv_lhs => rw [setters, hsplit]
    rw [List.filterMap_append, filterMap_cons_toList]
  · have hset : tasks.set i t' = tasks.take i ++ t' :: tasks.drop (i + 1) := by
      rw [List.set_eq_take_append_cons_drop, if_pos hi]
    rw [setters, hset, List.filterMap_append, filterMap_cons_toList]

theorem setters_single {s x : Setter V} {l₁ l₂ : List (Setter V)}
    (hs : l₁ ++ ([s] ++ l₂) = [x]) : s = x ∧ l₁ = [] ∧ l₂ = [] := by
  cases l₁ with
  | nil => simpa using hs
  | cons y l₁ => simp at hs

end Setters

theorem EndsIn.congr {c c' : EventConf V} {b : EventBus V} (h : EndsIn c b)
    (hshared : c'.shared = c.shared) (hset : setters c' = setters c) : EndsIn c' b := by
  obtain ⟨sh, tasks⟩ := c
  obtain ⟨sh', tasks'⟩ := c'
  obtain rfl : sh' = sh := hshared
  cases h with
  | idle hp hs => exact .idle hp (hset.trans hs)
  | append e hp hs => exact .append e hp (hset.trans hs)
  | broadcast e len hp hs => exact .broadcast e len hp (hset.trans hs)
  | set data hp hs => exact .set data hp (hset.trans hs)
  | notify data hp hs => exact .notify data hp (hset.trans hs)

/-- An open call of `remember_api_version` is the one that the listener waits for. -/
theorem EndsIn.setter {h : Hub V} {tasks : List (Task V)} {i : ℕ} {s : Setter V}
    {b : EventBus V} (hb : EndsIn ⟨h, tasks⟩ b) (ht : tasks[i]? = some (.setter s))
    (hopen : (Task.setter s).unreturned = some s) :
    h.producers = [.idle] ∧
    (∀ h' t', setters ⟨h', tasks.set i t'⟩ = t'.unreturned.toList) ∧
    (s.pc = .set ∧ b = (h.bus.rememberApiVersion s.data).1 ∨
      s.pc = .notify ∧ b = h.bus.notifyWaiters) := by
  obtain ⟨l₁, l₂, hold, hnew⟩ := setters_set (h := h) ht
  rw [hopen, Option.toList_some] at hold
  have single : ∀ {x : Setter V}, setters ⟨h, tasks⟩ = [x] → s = x ∧
      ∀ h' t', setters ⟨h', tasks.set i t'⟩ = t'.unreturned.toList := by
    intro x hx
    obtain ⟨rfl, rfl, rfl⟩ := setters_single (hold.symm.trans hx)
    exact ⟨rfl, fun h' t' => by rw [hnew, List.nil_append, List.append_nil]⟩
  have none : setters ⟨h, tasks⟩ ≠ [] := by
    rw [hold]
    simp
  cases hb with
  | idle hp hs => exact absurd hs none
  | append e hp hs => exact absurd hs none
  | broadcast e len hp hs => exact absurd hs none
  | set data hp hs =>
    obtain ⟨rfl, hset⟩ := single hs
    exact ⟨hp, hset, .inl ⟨rfl, rfl⟩⟩
  | notify data hp hs =>
    obtain ⟨rfl, hset⟩ := single hs
    exact ⟨hp, hset, .inr ⟨rfl, rfl⟩⟩

theorem endsIn_remember {h : Hub V} {tasks : List (Task V)} {i : ℕ} {s s' : Setter V}
    {b b' : EventBus V} (hb : EndsIn ⟨h, tasks⟩ b) (ht : tasks[i]? = some (.setter s))
    (hs : RememberStep h.bus s b' s') :
    EndsIn ⟨{ h with bus := b' }, tasks.set i (.setter s')⟩ b := by
  obtain ⟨data, pc⟩ := s
  cases hs with
  | set hpc hv =>
    obtain rfl : pc = .set := hpc
    obtain ⟨hp, hset, ⟨-, rfl⟩ | ⟨hpc', -⟩⟩ := hb.setter ht rfl
    · have hdone : (h.bus.rememberApiVersion data).1 =
          EventBus.notifyWaiters { h.bus with apiVersion := some data } := by
        simp [EventBus.rememberApiVersion, EventBus.setApiVersion, hv]
      rw [hdone]
      exact .notify data hp (hset _ _)
    · cases hpc'
  | @alreadySet data' hpc hv =>
    obtain rfl : pc = .set := hpc
    obtain ⟨hp, hset, ⟨-, rfl⟩ | ⟨hpc', -⟩⟩ := hb.setter ht rfl
    · have hdone : (h.bus.rememberApiVersion data).1 = h.bus := by
        simp [EventBus.rememberApiVersion, EventBus.setApiVersion, hv]
      rw [hdone]
      exact .idle hp (hset _ _)
    · cases hpc'
  | notify hpc =>
    obtain rfl : pc = .notify := hpc
    obtain ⟨hp, hset, ⟨hpc', -⟩ | ⟨-, rfl⟩⟩ := hb.setter ht rfl
    · cases hpc'
    · exact .idle hp (hset _ _)

theorem endsIn_task {c c' : EventConf V} {b : EventBus V} {i : ℕ} {a : TaskAct}
    (hb : EndsIn c b) (hs : eventStep c (.task i a) = some c') :
    EndsIn c' b ∧ c'.shared.pushed = c.shared.pushed := by
  obtain ⟨h, tasks⟩ := c
  obtain ⟨t, h', t', ht, hr, rfl⟩ := Tasks.step_task hs
  rcases taskStep_cases hr with ⟨s, s', b', rfl, rfl, rfl, hrem⟩ | ⟨d, d', rfl, rfl, rfl, -⟩
  · exact ⟨endsIn_remember hb ht hrem, rfl⟩
  · obtain ⟨l₁, l₂, hold, hnew⟩ := setters_set (h := h') ht
    exact ⟨hb.congr rfl ((hnew _ _).trans hold.symm), rfl⟩

theorem endsIn_push {c c' : EventConf V} {b : EventBus V} (hb : EndsIn c b)
    (hs : eventStep c (.env (.run 0)) = some c') :
    EndsIn c' b ∧ c'.shared.pushed = c.shared.pushed := by
  obtain ⟨h', hr, rfl⟩ := Tasks.step_env hs
  cases hb with
  | idle hp hset => simp [eventProgram, producerStep, hp] at hr
  | append e hp hset =>
    simp only [eventProgram, producerStep, hp, List.getElem?_cons_zero, Option.some.injEq] at hr
    subst hr
    exact ⟨.broadcast e _ rfl hset, rfl⟩
  | broadcast e len hp hset =>
    simp only [eventProgram, producerStep, hp, List.getElem?_cons_zero, Option.some.injEq] at hr
    subst hr
    exact ⟨.idle rfl hset, rfl⟩
  | set data hp hset => simp [eventProgram, producerStep, hp] at hr
  | notify data hp hset => simp [eventProgram, producerStep, hp] at hr

theorem busCall_cases {w w' : World E} {l l' : Listener E V} {a : ListenerAct E}
    (hs : ListenerStep p w l a w' l') :
    (∃ item, l.pc = .deliver item ∧ a = .ok ∧ l' = l.deliver p item) ∨
    (busCall p l a = none ∧ l'.bus = l.bus ∧ l'.pushed = l.pushed) := by
  cases hs with
  | deliver item hpc => exact .inl ⟨item, hpc, rfl, rfl⟩
  | disconnect hpc =>
    right
    rcases hpc with hpc | ⟨stream, hpc⟩ <;> exact ⟨rfl, rfl, rfl⟩
  | connectRedis a conn hpc ha =>
    rcases ha with ⟨rfl, -⟩ | ⟨rfl, -⟩ <;> exact .inr ⟨by simp [busCall, hpc], rfl, rfl⟩
  | loadLastId a startFrom hpc ha =>
    rcases ha with ⟨rfl, -⟩ | ⟨rfl, -⟩ <;> exact .inr ⟨by simp [busCall, hpc], rfl, rfl⟩
  | connect s hpc hs => exact .inr ⟨by simp [busCall, hpc], rfl, rfl⟩
  | connectLive position hpc hs hp => exact .inr ⟨rfl, rfl, rfl⟩
  | stop hpc => exact .inr ⟨rfl, rfl, rfl⟩
  | item stream e hpc he => exact .inr ⟨by simp [busCall, hpc], rfl, rfl⟩
  | apiVersion stream version hpc => exact .inr ⟨rfl, rfl, rfl⟩
  | note item id pc hpc hid hc => exact .inr ⟨by simp [busCall, hpc], rfl, rfl⟩
  | noId item hpc hid => exact .inr ⟨by simp [busCall, hpc], rfl, rfl⟩
  | redis item id hpc => exact .inr ⟨by simp [busCall, hpc], rfl, rfl⟩
  | noRedis item id hpc => exact .inr ⟨rfl, rfl, rfl⟩
  | set item id hpc => exact .inr ⟨by simp [busCall, hpc], rfl, rfl⟩
  | setFails item id hpc => exact .inr ⟨rfl, rfl, rfl⟩
  | retry hpc => exact .inr ⟨by simp [busCall, hpc], rfl, rfl⟩

/-- What the end of the loop body calls, and what that is for a listener with single steps. -/
inductive BusCall (p : Process E V) (l : Listener E V) (item : Item E) : Prop
  | none (hcall : busCall p l .ok = none) (hfeed : l.feed p item.envelope = l)
  | remember (value : V) (hcall : busCall p l .ok = some (.spawn (.setter value)))
      (hfeed : l.feed p item.envelope = { l with bus := (l.bus.rememberApiVersion value).1 })
  | push (value : V) (hcall : busCall p l .ok = some (.env (.push 0 value)))
      (hfeed : l.feed p item.envelope = l.push item.envelope value)

theorem call_of_deliver {l : Listener E V} {item : Item E} (hpc : l.pc = .deliver item) :
    BusCall p l item := by
  cases hdata : item.envelope.data with
  | apiVersion version =>
    cases hvalue : p.sseToValue (.apiVersion version) with
    | none =>
      exact .none (by simp [busCall, hpc, hdata, hvalue]) (by simp [Listener.feed, hdata, hvalue])
    | some value =>
      exact .remember value (by simp [busCall, hpc, hdata, hvalue])
        (by simp [Listener.feed, hdata, hvalue])
  | other data =>
    cases hvalue : p.sseToValue (.other data) with
    | none =>
      exact .none (by simp [busCall, hpc, hdata, hvalue]) (by simp [Listener.feed, hdata, hvalue])
    | some value =>
      exact .push value (by simp [busCall, hpc, hdata, hvalue])
        (by simp [Listener.feed, hdata, hvalue])

/-- **The listener takes a step** while it is in no call, and may begin one. -/
theorem linked_listener {c : Pipeline E V} (hl : Linked c) (hidle : calling c.events = false)
    {a : ListenerAct E} {w : World E} {l : Listener E V}
    (hs : ListenerStep p c.world c.listener a w l) :
    (busCall p c.listener a = none → Linked ⟨w, l, c.events⟩) ∧
    ∀ call events, busCall p c.listener a = some call → eventStep c.events call = some events →
      Linked ⟨w, l, events⟩ := by
  obtain ⟨world, l₀, ⟨h, tasks⟩⟩ := c
  obtain ⟨hp, hset, hbus⟩ := hl.endsIn.of_not_calling hidle
  have hpushed := hl.pushed
  dsimp only at hp hbus hpushed
  rcases busCall_cases hs with ⟨item, hpc, rfl, rfl⟩ | ⟨hnone, hb, hpush⟩
  · cases call_of_deliver (p := p) hpc with
    | none hcall hfeed =>
      refine ⟨fun _ => ⟨?_, ?_⟩, fun call events hc => ?_⟩
      · change EndsIn _ (l₀.feed p item.envelope).bus
        rw [hfeed]
        exact hl.endsIn
      · change _ = (l₀.feed p item.envelope).pushed.map _
        rw [hfeed]
        exact hpushed
      · rw [hcall] at hc
        cases hc
    | remember value hcall hfeed =>
      refine ⟨fun hc => ?_, fun call events hc he => ?_⟩
      · rw [hcall] at hc
        cases hc
      · rw [hcall] at hc
        obtain rfl := Option.some.inj hc
        obtain rfl := Tasks.step_spawn he
        have hsetters : setters ⟨h, tasks ++ [.setter ⟨value, .set⟩]⟩ = [⟨value, .set⟩] := by
          rw [setters, List.filterMap_append, show tasks.filterMap Task.unreturned = [] from hset]
          rfl
        refine ⟨?_, ?_⟩
        · change EndsIn _ (l₀.feed p item.envelope).bus
          rw [hfeed, hbus]
          exact .set value hp hsetters
        · change _ = (l₀.feed p item.envelope).pushed.map _
          rw [hfeed]
          exact hpushed
    | push value hcall hfeed =>
      refine ⟨fun hc => ?_, fun call events hc he => ?_⟩
      · rw [hcall] at hc
        cases hc
      · rw [hcall] at hc
        obtain rfl := Option.some.inj hc
        obtain ⟨h', hr, rfl⟩ := Tasks.step_env he
        simp only [eventProgram, producerStep, hp, List.getElem?_cons_zero, Option.some.injEq] at hr
        subst hr
        refine ⟨?_, ?_⟩
        · change EndsIn _ (l₀.feed p item.envelope).bus
          rw [hfeed]
          change EndsIn _ (l₀.bus.push value).1
          rw [hbus]
          exact .append ⟨h.bus.nextId + 1, value⟩ rfl hset
        · change _ = (l₀.feed p item.envelope).pushed.map _
          rw [hfeed, Listener.push, List.map_append, ← hpushed, hbus]
          rfl
  · refine ⟨fun _ => ⟨?_, ?_⟩, fun call events hc => ?_⟩
    · change EndsIn _ l.bus
      rw [hb]
      exact hl.endsIn
    · change _ = l.pushed.map _
      rw [hpush]
      exact hl.pushed
    · rw [hnone] at hc
      cases hc

/-- **Every step keeps the link.** -/
theorem linked_step {c c' : Pipeline E V} {a : PipelineAct E} (hl : Linked c)
    (hs : pipelineStep p c a = some c') : Linked c' := by
  cases pipelineStep_cases hs with
  | call hc hstep hcall he =>
    exact (linked_listener hl hc (listenerStep_cases hstep)).2 _ _ hcall he
  | quiet hc hstep hcall => exact (linked_listener hl hc (listenerStep_cases hstep)).1 hcall
  | push he =>
    obtain ⟨hb, hpush⟩ := endsIn_push hl.endsIn he
    exact ⟨hb, hpush.trans hl.pushed⟩
  | task he =>
    obtain ⟨hb, hpush⟩ := endsIn_task hl.endsIn he
    exact ⟨hb, hpush.trans hl.pushed⟩
  | request he =>
    obtain rfl := Tasks.step_spawn he
    refine ⟨hl.endsIn.congr rfl ?_, hl.pushed⟩
    rw [setters, List.filterMap_append]
    exact List.append_nil _
  | outside ha hw => exact ⟨hl.endsIn, hl.pushed⟩

theorem linked_init (p : Process E V) (w : World E) : Linked (pipelineInit p w) :=
  ⟨.idle rfl rfl, rfl⟩

theorem linked_reaches (p : Process E V) (w : World E) {c : Pipeline E V}
    (h : Reaches (pipelineStep p) (pipelineInit p w) c) : Linked c :=
  h.invariant (linked_init p w) fun _ _ _ hi hs => linked_step hi hs

theorem feeds_reaches (p : Process E V) (w : World E) {c : Pipeline E V}
    (h : Reaches (pipelineStep p) (pipelineInit p w) c) :
    Reaches (feedStep p) (feedInit p w) ⟨c.world, c.listener⟩ := by
  obtain ⟨_, hfeed, rfl⟩ := pipeline_feeds.reaches rfl h
  exact hfeed

theorem serves_reaches (p : Process E V) (w : World E) {c : Pipeline E V}
    (h : Reaches (pipelineStep p) (pipelineInit p w) c) :
    Reaches eventStep (eventInit 1 p.backlogLimit p.broadcastCapacity p.metrics) c.events := by
  obtain ⟨_, hserve, rfl⟩ := pipeline_serves.reaches rfl h
  exact hserve

/-- **The calls of the listener are atomic.** In every reachable state the listener and the world
are in a state that they reach alone, with calls of the bus that are single steps; the bus and its
clients are in a state that they reach alone; the events that were numbered are those that the
listener pushed; and as soon as the listener is in no call, the bus that is shared is its bus, in
every field. -/
theorem pipeline_linearized (p : Process E V) (w : World E) {c : Pipeline E V}
    (h : Reaches (pipelineStep p) (pipelineInit p w) c) :
    Reaches (feedStep p) (feedInit p w) ⟨c.world, c.listener⟩ ∧
    Reaches eventStep (eventInit 1 p.backlogLimit p.broadcastCapacity p.metrics) c.events ∧
    c.events.shared.pushed = c.listener.pushed.map Pushed.event ∧
    (calling c.events = false → c.events.shared.bus = c.listener.bus) := by
  have hl := linked_reaches p w h
  refine ⟨feeds_reaches p w h, serves_reaches p w h, hl.pushed, fun hc => ?_⟩
  exact (hl.endsIn.of_not_calling hc).2.2.symm

/-- The ApiVersion is remembered and an event is pushed, while a client goes on in between. -/
def pipelineRun : List (PipelineAct ℕ) :=
  [.request .websocket none, .task 0 .run, .listener .ok, .listener .ok, .listener (.okLive 0),
    .publish ⟨1, .other 10⟩, .listener (.apiVersion 7), .listener .ok, .listener .ok, .task 0 .run,
    .task 1 .run, .task 0 .run, .task 1 .run, .listener .ok, .listener .ok, .listener .ok,
    .listener .ok, .listener .ok, .task 0 .run, .push, .task 0 .run, .push, .task 0 .run]

theorem pipelineRun_client :
    (exec (pipelineStep plainProcess) (pipelineInit plainProcess emptyWorld) pipelineRun).bind
      (fun c => (clientAt c.events 0).map fun d => (d.delivered, d.missed, calling c.events)) =
    some ([⟨1, 10⟩], [], false) := rfl

theorem pipeline_linearized_run :
    ∃ c, exec (pipelineStep plainProcess) (pipelineInit plainProcess emptyWorld) pipelineRun =
      some c ∧ c.events.shared.bus = c.listener.bus := by
  obtain ⟨c, d, hc, -, hfields⟩ := exec_observed pipelineRun_client
  simp only [Prod.mk.injEq] at hfields
  exact ⟨c, hc, (pipeline_linearized plainProcess emptyWorld ⟨_, hc⟩).2.2.2 hfields.2.2⟩

/-! ## What clients are delivered -/

/-- Every event of the bus carries the value of the envelope that it was made of. -/
def Valued (p : Process E V) (l : Listener E V) : Prop :=
  ∀ x ∈ l.pushed, p.sseToValue x.source.data = some x.event.data

theorem valued_feed {l : Listener E V} (hv : Valued p l) (envelope : SseEnvelope E) :
    Valued p (l.feed p envelope) := by
  unfold Listener.feed
  split
  · exact hv
  · next value hdata hvalue =>
    intro x hx
    rcases List.mem_append.mp hx with hx | hx
    · exact hv x hx
    · rw [List.mem_singleton.mp hx]
      exact hvalue
  · exact hv

theorem valued_reaches (p : Process E V) (w : World E) {c : Feed E V}
    (h : Reaches (feedStep p) (feedInit p w) c) : Valued p c.listener := by
  refine h.invariant (I := fun c => Valued p c.listener) nofun fun c a c' hv hs => ?_
  rcases feedStep_cases hs with ⟨a, -, hstep⟩ | ⟨e, -, -, hl⟩ | ⟨i, -, -, hl⟩
  · rcases listenerStep_delivers hstep with ⟨item, -, -, -, hl⟩ | ⟨-, hpush, -⟩
    · rw [hl]
      exact valued_feed hv item.envelope
    · unfold Valued
      rw [hpush]
      exact hv
  · rwa [hl]
  · rwa [hl]

/-- The entry of the log that an event was made of. -/
def Pushed.entry (x : Pushed E V) : Entry E := ⟨x.source.id.getD 0, x.source.data⟩

/-- What a lifetime pushed, as entries of the log. -/
theorem entries_reaches (p : Process E V) {w : World E} (hw : Increasing w.log) {c : Feed E V}
    (h : Reaches (feedStep p) (feedInit p w) c) : Increasing c.world.log ∧
    ∃ part, part <:+: c.world.log.filter (fun e => p.pushes e.data) ∧
      Stutters part (c.listener.pushed.map Pushed.entry) := by
  obtain ⟨hlog, ⟨a, b, hseg⟩, -⟩ := h.invariant (fed_init p hw) fun _ _ _ hi hs => fed_step hi hs
  refine ⟨hlog, ((c.world.log.take b).drop a).filter (fun e => p.pushes e.data), ?_, ?_⟩
  · exact ((List.drop_suffix _ _).isInfix.trans (List.take_prefix _ _).isInfix).filter _
  · have hentries := hseg.pushed.map fun s : SseEnvelope E => (⟨s.id.getD 0, s.data⟩ : Entry E)
    rw [segment, List.map_map, List.map_map] at hentries
    simp only [Function.comp_def, Entry.envelope, Option.getD_some, List.map_id'] at hentries
    exact hentries

/-- A client was delivered a part of what was pushed, and without lag an interval of it. -/
theorem delivered_parts {backlogLimit broadcastCapacity : ℕ} {metrics : Bool} {c : EventConf V}
    (h : Reaches eventStep (eventInit 1 backlogLimit broadcastCapacity metrics) c) {d : Client V}
    (hd : .client d ∈ c.tasks) : d.delivered.Sublist c.shared.pushed ∧
      (d.missed = [] → d.delivered <:+: c.shared.pushed) := by
  obtain ⟨ho, hall⟩ := delivery_reaches h
  obtain ⟨hinc, hmem, -⟩ := (hall d hd).delivery.ordered ho
  refine ⟨?_, fun hlag => ?_⟩
  · have hpushed := ho.numbered.pairwise
    have hnodup : d.delivered.Nodup :=
      hinc.imp fun hlt heq => hlt.ne (congrArg EventEnvelope.id heq)
    have hanti : Std.Antisymm fun a b : EventEnvelope V => a.id < b.id :=
      ⟨fun a b h₁ h₂ => absurd h₁ h₂.asymm⟩
    exact List.sublist_of_subperm_of_pairwise (List.subperm_of_subset hnodup hmem) hinc hpushed
  · have hpre := (hall d hd).delivery.interval ho hlag
    exact hpre.isInfix.trans (List.drop_suffix _ _).isInfix

/-- What a client was delivered are the values of entries of the log, none of them an ApiVersion, in
the order of the log; and without lag they are an interval of the entries that can be serialised, in
which entries are at most repeated in place. -/
def Client.Follows (p : Process E V) (log : List (Entry E)) (d : Client V) : Prop :=
  ∃ entries : List (Entry E),
    entries.map (fun e => p.sseToValue e.data) = d.delivered.map (fun e => some e.data) ∧
    (∀ e ∈ entries, e ∈ log ∧ e.data.isApiVersion = false) ∧
    entries.Pairwise (fun a b => a.id ≤ b.id) ∧
    (d.missed = [] → ∃ part, part <:+: log.filter (fun e => p.pushes e.data) ∧
      Stutters part entries)

theorem follows_reaches (p : Process E V) {w : World E} (hw : Increasing w.log)
    {c : Pipeline E V} (h : Reaches (pipelineStep p) (pipelineInit p w) c) {d : Client V}
    (hd : .client d ∈ c.events.tasks) : d.Follows p c.world.log := by
  have hfeed := feeds_reaches p w h
  have hserve := serves_reaches p w h
  have hpushed := (linked_reaches p w h).pushed
  obtain ⟨hlog, part, hpart, hst⟩ := entries_reaches p hw hfeed
  have hvalued := valued_reaches p w hfeed
  obtain ⟨hsub, hinterval⟩ := delivered_parts hserve hd
  rw [hpushed] at hsub hinterval
  obtain ⟨xs, hxs, hdel, hint⟩ : ∃ xs, xs.Sublist c.listener.pushed ∧
      d.delivered = xs.map Pushed.event ∧ (d.missed = [] → xs <:+: c.listener.pushed) := by
    by_cases hlag : d.missed = []
    · obtain ⟨xs, hxs, hdel⟩ := List.infix_map_iff.mp (hinterval hlag)
      exact ⟨xs, hxs.sublist, hdel, fun _ => hxs⟩
    · obtain ⟨xs, hxs, hdel⟩ := List.sublist_map_iff.mp hsub
      exact ⟨xs, hxs, hdel, fun hno => absurd hno hlag⟩
  refine ⟨xs.map Pushed.entry, ?_, ?_, ?_, fun hlag => ?_⟩
  · rw [hdel, List.map_map, List.map_map]
    exact List.map_congr_left fun x hx => hvalued x (hxs.subset hx)
  · intro e he
    have hmem : e ∈ part := hst.mem_iff.mp ((hxs.map Pushed.entry).subset he)
    obtain ⟨hin, hpushes⟩ := List.mem_filter.mp (hpart.subset hmem)
    refine ⟨hin, ?_⟩
    unfold Process.pushes at hpushes
    rw [Bool.and_eq_true, Bool.not_eq_true'] at hpushes
    exact hpushes.1
  · have hinc := hlog.sublist (hpart.sublist.trans List.filter_sublist)
    refine ((hst.pairwise hinc).sublist (hxs.map Pushed.entry)).imp ?_
    rintro a b (hlt | rfl)
    · exact hlt.le
    · exact le_rfl
  · obtain ⟨part', hpre, hst'⟩ := hst.interval ((hint hlag).map Pushed.entry)
    exact ⟨part', hpre.trans hpart, hst'⟩

/-- **Clients follow the upstream.** In every reachable state of a lifetime, whatever disconnects,
Redis failures and interleavings there were: what a client was delivered are the values of entries
of the upstream log, none of them an ApiVersion, in the order of the log; and without lag they are
an interval of the entries that can be serialised, in which entries are at most repeated in
place. -/
theorem clients_follow_upstream (p : Process E V) {w : World E} (hw : Increasing w.log)
    {c : Pipeline E V} (h : Reaches (pipelineStep p) (pipelineInit p w) c) {d : Client V}
    (hd : .client d ∈ c.events.tasks) :
    ∃ entries : List (Entry E),
      entries.map (fun e => p.sseToValue e.data) = d.delivered.map (fun e => some e.data) ∧
      (∀ e ∈ entries, e ∈ c.world.log ∧ e.data.isApiVersion = false) ∧
      entries.Pairwise (fun a b => a.id ≤ b.id) ∧
      (d.missed = [] → ∃ part, part <:+: c.world.log.filter (fun e => p.pushes e.data) ∧
        Stutters part entries) :=
  follows_reaches p hw h hd

theorem clients_follow_upstream_run :
    ∃ c d, exec (pipelineStep plainProcess) (pipelineInit plainProcess emptyWorld) pipelineRun =
        some c ∧ clientAt c.events 0 = some d ∧ d.delivered = [⟨1, 10⟩] ∧
      ∃ entries part, entries.map (fun e => plainProcess.sseToValue e.data) = [some 10] ∧
        part <:+: c.world.log.filter (fun e => plainProcess.pushes e.data) ∧
        Stutters part entries := by
  obtain ⟨c, d, hc, hd, hfields⟩ := exec_observed pipelineRun_client
  simp only [Prod.mk.injEq] at hfields
  obtain ⟨hdel, hlag, -⟩ := hfields
  obtain ⟨entries, hvalues, -, -, hpart⟩ :=
    clients_follow_upstream plainProcess emptyWorld_increasing ⟨_, hc⟩ (clientAt_mem hd)
  obtain ⟨part, hpre, hst⟩ := hpart hlag
  refine ⟨c, d, hc, hd, hdel, entries, part, ?_, hpre, hst⟩
  rw [hvalues, hdel]
  rfl

end CasperNodeProxy
