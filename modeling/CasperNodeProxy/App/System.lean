import CasperNodeProxy.App.Startup
import CasperNodeProxy.Binary.Replies
import CasperNodeProxy.Http.Ledger
import CasperNodeProxy.Sse.Pipeline

/-!
# The proxy

The HTTP server, and for each network the listener with its bus and the clients of `/events`, and
the pool with the sockets of `/binary`. A connection that was opened for a request begins when the
function that serves it does: an event stream with the answer, a websocket some time after it, or
never.

* `Deployment`, `Proxy`, `proxyStep`: all parts, interleaved; the two gauges of the connections.
* `server_reaches`, `pipeline_reaches`, `sockets_reaches`: each part runs as it does alone.
* `Counted`, `counted_reaches`: the tasks of a network are the connections that have begun;
  `begun_reaches`: these are the ones that requests have opened.
* `Proxy.Entitled`: the connection was asked for by a request that was let through.
* **`connections_exact`**, **`connections_limited`**: which connections there are, and how many.
* **`connections_served`**: who is served, and with what.
-/

namespace CasperNodeProxy

open Run

/-! ## All parts -/

/-- What runs, and what it runs in. -/
structure Deployment (E V : Type) where
  framework : Framework
  serdeJson : SerdeJson
  governor : Governor
  port : BinaryPort
  startup : Startup
  redisClient : Bool
  sseToValue : SseEvent E → Option V
  /-- The upstream of a network, with its key in Redis. -/
  world : String → World E

namespace Deployment

variable {E V : Type} (D : Deployment E V)

/-- The settings that the proxy runs with. -/
def config : AppConfig := D.startup.config

/-- What the listener of every network is given. -/
def process : Process E V where
  redisClient := D.redisClient
  backlogLimit := D.config.sseBacklogLimit
  broadcastCapacity := D.config.sseBroadcastCapacity
  metrics := true
  sseToValue := D.sseToValue

/-- A step of the HTTP server of this proxy. -/
abbrev serverStep := CasperNodeProxy.serverStep D.framework D.serdeJson D.governor D.startup.state

/-- The HTTP server with the limits of this proxy. -/
abbrev serverInit := CasperNodeProxy.serverInit D.governor D.config.rateLimitPerMin
  D.config.rateLimitBurst

/-- A step of the pool and the sockets of one network. -/
abbrev socketsStep := CasperNodeProxy.socketsStep D.governor D.port D.config.binaryRateLimitPerMin
  D.config.binaryRateLimitBurst

/-- The pool of one network. -/
abbrev socketInit := CasperNodeProxy.socketInit D.governor D.config.binaryPoolSize

end Deployment

/-- What runs for one network, with the gauges `sse_connections` and `binary_connections`. -/
structure NetworkRun (E V : Type) (G : Governor) where
  pipeline : Pipeline E V
  sockets : SocketConf G
  eventsConnections : ℤ
  binaryConnections : ℤ

/-- All parts of a proxy that runs. -/
structure Proxy (E V : Type) (G : Governor) where
  server : ServerConf G
  networks : String → NetworkRun E V G
  /-- The connections that have begun, each with the number of its request. -/
  begun : List (ℕ × Connection)

/-- A step of the HTTP server, of the listener and the clients of a network, or of its sockets; or
the connection begins that request `i` has opened. -/
inductive ProxyAct (E : Type)
  | http (a : Tasks.Act RequestAct Empty Incoming)
  | pipeline (name : String) (a : PipelineAct E)
  | sockets (name : String) (a : SocketsAct)
  | begin (i : ℕ)

/-- The connection that request `i` has opened. -/
def openedBy {G : Governor} (c : ServerConf G) (i : ℕ) : Option Connection :=
  (c.tasks[i]?).bind (·.opened)

/-! ### Guards -/

/-- The handler has not returned. -/
def ClientPc.isOpen {V : Type} : ClientPc V → Bool
  | .closed => false
  | _ => true

/-- The task is a client whose handler has not returned. -/
def Task.isOpen {V : Type} : Task V → Bool
  | .client d => d.pc.isOpen
  | .setter _ => false

/-- The handler of the socket has not returned. -/
def Socket.isOpen {G : Governor} (s : Socket G) : Bool := s.pc != .closed

/-- The handler of task `i` has returned in a step, and its guard was dropped. -/
def returned {τ : Type} (isOpen : τ → Bool) (before after : List τ) (i : ℕ) : Bool :=
  (before[i]?).any isOpen && !(after[i]?).any isOpen

namespace NetworkRun

variable {E V : Type} (D : Deployment E V) (n : NetworkRun E V D.governor)

/-- The listener or the bus goes on, or a client, which drops its guard when it returns. -/
def pipelineRun : PipelineAct E → Option (NetworkRun E V D.governor)
  | .request _ _ => none
  | .task i a => (pipelineStep D.process n.pipeline (.task i a)).map fun pipeline =>
      { n with
        pipeline := pipeline
        eventsConnections := n.eventsConnections -
          if returned Task.isOpen n.pipeline.events.tasks pipeline.events.tasks i then 1 else 0 }
  | a => (pipelineStep D.process n.pipeline a).map fun pipeline => { n with pipeline := pipeline }

/-- The pool goes on, or a socket, which drops its guard when it returns. -/
def socketsRun : SocketsAct → Option (NetworkRun E V D.governor)
  | .spawn _ => none
  | .task i a => (D.socketsStep n.sockets (.task i a)).map fun sockets =>
      { n with
        sockets := sockets
        binaryConnections := n.binaryConnections -
          if returned Socket.isOpen n.sockets.tasks sockets.tasks i then 1 else 0 }
  | .env e => (D.socketsStep n.sockets (.env e)).map fun sockets => { n with sockets := sockets }

/-- The handler of a connection begins, and takes a guard. -/
def begin : Connection → Option (NetworkRun E V D.governor)
  | .events _ kind startFrom =>
    (pipelineStep D.process n.pipeline (.request kind startFrom)).map fun pipeline =>
      { n with pipeline := pipeline, eventsConnections := n.eventsConnections + 1 }
  | .binary _ => (D.socketsStep n.sockets (.spawn ())).map fun sockets =>
      { n with sockets := sockets, binaryConnections := n.binaryConnections + 1 }

end NetworkRun

/-- The network that a connection was opened to. -/
def Connection.networkName : Connection → String
  | .events networkName _ _ | .binary networkName => networkName

section System

variable {E V : Type} (D : Deployment E V)

/-- The part of one network moves on. -/
def Proxy.move (c : Proxy E V D.governor) (name : String)
    (f : NetworkRun E V D.governor → Option (NetworkRun E V D.governor)) :
    Option (Proxy E V D.governor) :=
  (f (c.networks name)).map fun n => { c with networks := Function.update c.networks name n }

/-- Only networks that are configured run; a connection begins once. -/
def proxyStep (c : Proxy E V D.governor) : ProxyAct E → Option (Proxy E V D.governor)
  | .http a => (D.serverStep c.server a).map fun server => { c with server := server }
  | .pipeline name a =>
    if (D.startup.networks.lookup name).isSome then c.move D name fun n => n.pipelineRun D a
    else none
  | .sockets name a =>
    if (D.startup.networks.lookup name).isSome then c.move D name fun n => n.socketsRun D a
    else none
  | .begin i => (openedBy c.server i).bind fun connection =>
    if i ∈ c.begun.map Prod.fst then none
    else (c.move D connection.networkName fun n => n.begin D connection).map fun c =>
      { c with begun := c.begun ++ [(i, connection)] }

/-- Nothing has happened yet. -/
def proxyInit : Proxy E V D.governor where
  server := D.serverInit
  networks name := ⟨pipelineInit D.process (D.world name), D.socketInit, 0, 0⟩
  begun := []

/-! ## What a step can be -/

/-- A step of the proxy. -/
inductive ProxyStep (c : Proxy E V D.governor) : Proxy E V D.governor → Prop
  | http {a : Tasks.Act RequestAct Empty Incoming} {server : ServerConf D.governor}
      (hs : D.serverStep c.server a = some server) : ProxyStep c { c with server := server }
  | pipeline {name : String} {a : PipelineAct E} {n : NetworkRun E V D.governor}
      (hn : (c.networks name).pipelineRun D a = some n) :
      ProxyStep c { c with networks := Function.update c.networks name n }
  | sockets {name : String} {a : SocketsAct} {n : NetworkRun E V D.governor}
      (hn : (c.networks name).socketsRun D a = some n) :
      ProxyStep c { c with networks := Function.update c.networks name n }
  | begin {i : ℕ} {connection : Connection} {n : NetworkRun E V D.governor}
      (ho : openedBy c.server i = some connection) (hi : i ∉ c.begun.map Prod.fst)
      (hn : (c.networks connection.networkName).begin D connection = some n) :
      ProxyStep c { c with
        networks := Function.update c.networks connection.networkName n
        begun := c.begun ++ [(i, connection)] }

variable {D} {c c' : Proxy E V D.governor}

theorem proxyStep_cases {a : ProxyAct E} (hs : proxyStep D c a = some c') : ProxyStep D c c' := by
  cases a with
  | http a =>
    obtain ⟨server, hserver, rfl⟩ := Option.map_eq_some_iff.mp hs
    exact .http hserver
  | pipeline name a =>
    simp only [proxyStep] at hs
    split_ifs at hs
    obtain ⟨n, hn, rfl⟩ := Option.map_eq_some_iff.mp hs
    exact .pipeline hn
  | sockets name a =>
    simp only [proxyStep] at hs
    split_ifs at hs
    obtain ⟨n, hn, rfl⟩ := Option.map_eq_some_iff.mp hs
    exact .sockets hn
  | begin i =>
    simp only [proxyStep] at hs
    obtain ⟨connection, ho, hs⟩ := Option.bind_eq_some_iff.mp hs
    split_ifs at hs with hi
    obtain ⟨_, hmove, rfl⟩ := Option.map_eq_some_iff.mp hs
    obtain ⟨n, hn, rfl⟩ := Option.map_eq_some_iff.mp hmove
    exact .begin ho hi hn

section Network

variable {n n' : NetworkRun E V D.governor}

theorem pipelineRun_step {a : PipelineAct E} (hs : n.pipelineRun D a = some n') :
    pipelineStep D.process n.pipeline a = some n'.pipeline ∧ n'.sockets = n.sockets := by
  cases a with
  | request kind startFrom => cases hs
  | _ =>
    obtain ⟨pipeline, hp, rfl⟩ := Option.map_eq_some_iff.mp hs
    exact ⟨hp, rfl⟩

theorem socketsRun_step {a : SocketsAct} (hs : n.socketsRun D a = some n') :
    D.socketsStep n.sockets a = some n'.sockets ∧ n'.pipeline = n.pipeline := by
  cases a with
  | spawn x => cases hs
  | _ =>
    obtain ⟨sockets, hp, rfl⟩ := Option.map_eq_some_iff.mp hs
    exact ⟨hp, rfl⟩

theorem begin_step {connection : Connection} (hs : n.begin D connection = some n') :
    (∃ name kind startFrom, connection = .events name kind startFrom ∧
      pipelineStep D.process n.pipeline (.request kind startFrom) = some n'.pipeline ∧
      n' = { n with pipeline := n'.pipeline, eventsConnections := n.eventsConnections + 1 }) ∨
    (∃ name, connection = .binary name ∧ D.socketsStep n.sockets (.spawn ()) = some n'.sockets ∧
      n' = { n with sockets := n'.sockets, binaryConnections := n.binaryConnections + 1 }) := by
  cases connection with
  | events name kind startFrom =>
    simp only [NetworkRun.begin] at hs
    obtain ⟨pipeline, hp, rfl⟩ := Option.map_eq_some_iff.mp hs
    exact .inl ⟨name, kind, startFrom, rfl, hp, rfl⟩
  | binary name =>
    simp only [NetworkRun.begin] at hs
    obtain ⟨sockets, hp, rfl⟩ := Option.map_eq_some_iff.mp hs
    exact .inr ⟨name, rfl, hp, rfl⟩

end Network

/-! ## The parts -/

/-- What a step of the proxy is for one network. -/
inductive NetworkStep (name : String) (c c' : Proxy E V D.governor) : Prop
  | same (hn : c'.networks name = c.networks name) (hb : c'.begun = c.begun)
  | other {i : ℕ} {connection : Connection} (hn : c'.networks name = c.networks name)
      (hname : connection.networkName ≠ name) (hb : c'.begun = c.begun ++ [(i, connection)])
  | pipeline {a : PipelineAct E} (hn : (c.networks name).pipelineRun D a = some (c'.networks name))
      (hb : c'.begun = c.begun)
  | sockets {a : SocketsAct} (hn : (c.networks name).socketsRun D a = some (c'.networks name))
      (hb : c'.begun = c.begun)
  | begin {i : ℕ} {connection : Connection} (hname : connection.networkName = name)
      (hn : (c.networks name).begin D connection = some (c'.networks name))
      (hb : c'.begun = c.begun ++ [(i, connection)])

theorem network_step (hs : ProxyStep D c c') (name : String) : NetworkStep name c c' := by
  have self : ∀ {n : NetworkRun E V D.governor}, Function.update c.networks name n name = n :=
    Function.update_self name _ c.networks
  cases hs with
  | http hs => exact .same rfl rfl
  | @pipeline name' a n hn =>
    by_cases hname : name = name'
    · subst hname
      exact .pipeline (hn.trans (congrArg some self.symm)) rfl
    · exact .same (Function.update_of_ne hname _ _) rfl
  | @sockets name' a n hn =>
    by_cases hname : name = name'
    · subst hname
      exact .sockets (hn.trans (congrArg some self.symm)) rfl
    · exact .same (Function.update_of_ne hname _ _) rfl
  | @begin i connection n ho hi hn =>
    by_cases hname : name = connection.networkName
    · subst hname
      exact .begin rfl (hn.trans (congrArg some self.symm)) rfl
    · exact .other (Function.update_of_ne hname _ _) (Ne.symm hname) rfl

/-- **The HTTP server runs as it does alone.** -/
theorem server_reaches (h : Reaches (proxyStep D) (proxyInit D) c) :
    Reaches D.serverStep D.serverInit c.server := by
  have hsim : Simulates (proxyStep D) D.serverStep fun c server => server = c.server := by
    rintro c _ a c' rfl hs
    cases proxyStep_cases hs with
    | http hserver => exact ⟨_, .single hserver, rfl⟩
    | pipeline hn | sockets hn | begin ho hi hn => exact ⟨_, .refl _, rfl⟩
  obtain ⟨_, hserver, rfl⟩ := hsim.reaches rfl h
  exact hserver

/-- **The listener of a network and its clients run as they do alone.** -/
theorem pipeline_reaches (h : Reaches (proxyStep D) (proxyInit D) c) (name : String) :
    Reaches (pipelineStep D.process) (pipelineInit D.process (D.world name))
      (c.networks name).pipeline := by
  have hsim : Simulates (proxyStep D) (pipelineStep D.process)
      fun c pipeline => pipeline = (c.networks name).pipeline := by
    rintro c _ a c' rfl hs
    cases network_step (proxyStep_cases hs) name with
    | same hn hb | other hn hname hb => exact ⟨_, .refl _, congrArg NetworkRun.pipeline hn.symm⟩
    | pipeline hn hb => exact ⟨_, .single (pipelineRun_step hn).1, rfl⟩
    | sockets hn hb => exact ⟨_, .refl _, (socketsRun_step hn).2.symm⟩
    | begin hname hn hb =>
      rcases begin_step hn with ⟨-, kind, startFrom, -, hp, -⟩ | ⟨-, -, -, hn'⟩
      · exact ⟨_, .single hp, rfl⟩
      · exact ⟨_, .refl _, (congrArg NetworkRun.pipeline hn').symm⟩
  obtain ⟨_, hpipeline, rfl⟩ := hsim.reaches rfl h
  exact hpipeline

/-- **The pool of a network and its sockets run as they do alone.** -/
theorem sockets_reaches (h : Reaches (proxyStep D) (proxyInit D) c) (name : String) :
    Reaches D.socketsStep D.socketInit (c.networks name).sockets := by
  have hsim : Simulates (proxyStep D) D.socketsStep
      fun c sockets => sockets = (c.networks name).sockets := by
    rintro c _ a c' rfl hs
    cases network_step (proxyStep_cases hs) name with
    | same hn hb | other hn hname hb => exact ⟨_, .refl _, congrArg NetworkRun.sockets hn.symm⟩
    | pipeline hn hb => exact ⟨_, .refl _, (pipelineRun_step hn).2.symm⟩
    | sockets hn hb => exact ⟨_, .single (socketsRun_step hn).1, rfl⟩
    | begin hname hn hb =>
      rcases begin_step hn with ⟨-, -, -, -, -, hn'⟩ | ⟨-, -, hp, -⟩
      · exact ⟨_, .refl _, (congrArg NetworkRun.sockets hn').symm⟩
      · exact ⟨_, .single hp, rfl⟩
  obtain ⟨_, hsockets, rfl⟩ := hsim.reaches rfl h
  exact hsockets

/-! ## Tasks and their guards -/

/-- A handler that has returned does not go on, so its guard is dropped once. -/
theorem countP_set {τ : Type} {isOpen : τ → Bool} {l : List τ} {i : ℕ} {t t' : τ}
    (ht : l[i]? = some t) (hclosed : isOpen t' = true → isOpen t = true) :
    ((l.set i t').countP isOpen : ℤ) =
      l.countP isOpen - if returned isOpen l (l.set i t') i then 1 else 0 := by
  have hadd := Tasks.countP_set_add isOpen ht t'
  have hi := (List.getElem?_eq_some_iff.mp ht).1
  rw [returned, ht, List.getElem?_set_self hi, Option.any_some, Option.any_some]
  by_cases hopen' : isOpen t'
  · simp only [hclosed hopen', hopen', if_true] at hadd
    simp only [hclosed hopen', hopen', Bool.not_true, Bool.and_false, Bool.false_eq_true, if_false]
    omega
  · by_cases hopen : isOpen t
    · simp only [hopen, hopen', if_true, Bool.false_eq_true, if_false] at hadd
      simp only [hopen, hopen', Bool.not_false, Bool.and_self, if_true]
      omega
    · simp only [hopen, hopen', Bool.false_eq_true, if_false] at hadd
      simp only [hopen, Bool.false_and, Bool.false_eq_true, if_false]
      omega

/-- The connection that a task serves. -/
def Task.connection {V : Type} (name : String) : Task V → Option Connection
  | .client d => some (.events name d.kind d.startFrom)
  | .setter _ => none

theorem clientStep_keeps {h : Hub V} {d d' : Client V} (hs : ClientStep h d d') :
    d'.kind = d.kind ∧ d'.startFrom = d.startFrom ∧ (d'.pc.isOpen = true → d.pc.isOpen = true) := by
  cases hs with
  | subscribe hpc | wait hpc | version hpc | snapshot hpc | noSnapshot hpc | replay hpc
  | replayed hpc | deliver hpc | discard hpc | lagged hpc =>
    exact ⟨rfl, rfl, fun _ => by rw [hpc]; rfl⟩
  | close => exact ⟨rfl, rfl, fun hopen => (by cases hopen)⟩

theorem eventTask_step {c c' : EventConf V} {i : ℕ} {a : TaskAct} (name : String)
    (hs : eventStep c (.task i a) = some c') :
    c'.tasks.filterMap (Task.connection name) = c.tasks.filterMap (Task.connection name) ∧
    (c'.tasks.countP Task.isOpen : ℤ) = c.tasks.countP Task.isOpen -
      if returned Task.isOpen c.tasks c'.tasks i then 1 else 0 := by
  obtain ⟨t, h', t', ht, hr, rfl⟩ := Tasks.step_task hs
  rcases taskStep_cases hr with ⟨s, s', b', rfl, rfl, -, -⟩ | ⟨d, d', rfl, rfl, -, hd⟩
  · exact ⟨Tasks.filterMap_set ht rfl, countP_set ht id⟩
  · obtain ⟨hkind, hstart, hopen⟩ := clientStep_keeps hd
    refine ⟨Tasks.filterMap_set ht ?_, countP_set ht hopen⟩
    rw [Task.connection, Task.connection, hkind, hstart]

theorem pipeline_tasks {p : Process E V} {c c' : Pipeline E V} {a : PipelineAct E}
    (hs : pipelineStep p c a = some c') (hr : ∀ kind startFrom, a ≠ .request kind startFrom)
    (ht : ∀ i x, a ≠ .task i x) : c'.events.tasks = c.events.tasks ∨
      ∃ value, c'.events.tasks = c.events.tasks ++ [.setter ⟨value, .set⟩] := by
  have env : ∀ {x : ProducerAct V} {events : EventConf V},
      eventStep c.events (.env x) = some events → events.tasks = c.events.tasks := by
    intro x events he
    obtain ⟨h', -, rfl⟩ := Tasks.step_env he
    rfl
  cases a with
  | request kind startFrom => exact absurd rfl (hr kind startFrom)
  | task i x => exact absurd rfl (ht i x)
  | push =>
    obtain ⟨events, he, rfl⟩ := Option.map_eq_some_iff.mp hs
    exact .inl (env he)
  | publish e =>
    obtain ⟨w, -, rfl⟩ := Option.map_eq_some_iff.mp hs
    exact .inl rfl
  | arrive i =>
    obtain ⟨w, -, rfl⟩ := Option.map_eq_some_iff.mp hs
    exact .inl rfl
  | listener a =>
    simp only [pipelineStep] at hs
    split_ifs at hs
    obtain ⟨r, -, hs⟩ := Option.bind_eq_some_iff.mp hs
    split at hs
    · next call hcall =>
      obtain ⟨events, he, rfl⟩ := Option.map_eq_some_iff.mp hs
      unfold busCall at hcall
      split at hcall
      · split at hcall
        · split at hcall
          · cases hcall
            obtain rfl := Tasks.step_spawn he
            exact .inr ⟨_, rfl⟩
          · cases hcall
            exact .inl (env he)
          · cases hcall
        · cases hcall
      · cases hcall
    · cases hs
      exact .inl rfl

theorem socketStep_open {G : Governor} {K : BinaryPort} {i : ℕ} {P P' : BinaryPool}
    {s s' : Socket G} {a : SocketAct} (hs : SocketStep K i P s a P' s') : s.isOpen = true := by
  cases hs with
  | limit hpc | pass hpc | other hpc | close hpc | send hpc | finish hpc | counted hpc
  | replied hpc => simp [Socket.isOpen, hpc]

theorem socketTask_step {c c' : SocketConf D.governor} {i : ℕ} {a : SocketAct}
    (hs : D.socketsStep c (.task i a) = some c') : c'.tasks.length = c.tasks.length ∧
    (c'.tasks.countP Socket.isOpen : ℤ) = c.tasks.countP Socket.isOpen -
      if returned Socket.isOpen c.tasks c'.tasks i then 1 else 0 := by
  obtain ⟨s, P', s', ht, hr, rfl⟩ := Tasks.step_task hs
  exact ⟨List.length_set, countP_set ht fun _ => socketStep_open (socketStep_cases hr)⟩

/-! ## What has begun -/

/-- The connection is one for the events of this network. -/
def Connection.isEvents (name : String) : Connection → Bool
  | .events networkName _ _ => networkName == name
  | .binary _ => false

/-- The clients and the sockets of a network are the connections of it that have begun, and its
gauges count those whose handlers have not returned. -/
structure Counted (name : String) (begun : List Connection) (n : NetworkRun E V D.governor) :
    Prop where
  events : n.pipeline.events.tasks.filterMap (Task.connection name) =
    begun.filter (Connection.isEvents name)
  binary : n.sockets.tasks.length = begun.count (.binary name)
  eventsConnections : n.eventsConnections = n.pipeline.events.tasks.countP Task.isOpen
  binaryConnections : n.binaryConnections = n.sockets.tasks.countP Socket.isOpen

section Counted

variable {name : String} {begun : List Connection} {n n' : NetworkRun E V D.governor}

theorem counted_pipelineRun {a : PipelineAct E} (hc : Counted name begun n)
    (hs : n.pipelineRun D a = some n') : Counted name begun n' := by
  have idle : ∀ {pipeline : Pipeline E V}, n' = { n with pipeline := pipeline } →
      (pipeline.events.tasks = n.pipeline.events.tasks ∨
        ∃ value, pipeline.events.tasks = n.pipeline.events.tasks ++ [.setter ⟨value, .set⟩]) →
      Counted name begun n' := by
    rintro pipeline rfl (htasks | ⟨value, htasks⟩)
    · exact ⟨by rw [htasks]; exact hc.events, hc.binary, by rw [htasks]; exact hc.eventsConnections,
        hc.binaryConnections⟩
    · refine ⟨?_, hc.binary, ?_, hc.binaryConnections⟩
      · rw [htasks, List.filterMap_append, hc.events]
        exact List.append_nil _
      · rw [htasks, List.countP_append]
        exact hc.eventsConnections
  cases a with
  | request kind startFrom => cases hs
  | task i x =>
    obtain ⟨pipeline, hp, rfl⟩ := Option.map_eq_some_iff.mp hs
    obtain ⟨events, he, rfl⟩ := Option.map_eq_some_iff.mp hp
    obtain ⟨hconnections, hopen⟩ := eventTask_step name he
    refine ⟨hconnections.trans hc.events, hc.binary, ?_, hc.binaryConnections⟩
    dsimp only
    rw [hopen, hc.eventsConnections]
  | listener x | push | publish x | arrive x =>
    obtain ⟨pipeline, hp, rfl⟩ := Option.map_eq_some_iff.mp hs
    exact idle rfl (pipeline_tasks hp (by simp) (by simp))

theorem counted_socketsRun {a : SocketsAct} (hc : Counted name begun n)
    (hs : n.socketsRun D a = some n') : Counted name begun n' := by
  cases a with
  | spawn x => cases hs
  | task i x =>
    obtain ⟨sockets, hp, rfl⟩ := Option.map_eq_some_iff.mp hs
    obtain ⟨hlength, hopen⟩ := socketTask_step hp
    refine ⟨hc.events, hlength.trans hc.binary, hc.eventsConnections, ?_⟩
    dsimp only
    rw [hopen, hc.binaryConnections]
  | env e =>
    obtain ⟨sockets, hp, rfl⟩ := Option.map_eq_some_iff.mp hs
    obtain ⟨P', -, rfl⟩ := Tasks.step_env hp
    exact ⟨hc.events, hc.binary, hc.eventsConnections, hc.binaryConnections⟩

theorem counted_begin {connection : Connection} (hname : connection.networkName = name)
    (hc : Counted name begun n) (hs : n.begin D connection = some n') :
    Counted name (begun ++ [connection]) n' := by
  rcases begin_step hs with ⟨name', kind, startFrom, rfl, hp, hn'⟩ | ⟨name', rfl, hp, hn'⟩
  · obtain rfl : name' = name := hname
    simp only [pipelineStep] at hp
    obtain ⟨events, he, hp⟩ := Option.map_eq_some_iff.mp hp
    obtain rfl := Tasks.step_spawn he
    have htasks : n'.pipeline.events.tasks =
        n.pipeline.events.tasks ++ [.client (.new kind startFrom)] := by rw [← hp]; rfl
    rw [hn']
    refine ⟨?_, ?_, ?_, hc.binaryConnections⟩
    · rw [htasks, List.filterMap_append, hc.events, List.filter_append]
      simp [Task.connection, Connection.isEvents, Client.new]
    · rw [List.count_append, hc.binary]
      simp
    · rw [htasks, List.countP_append, hc.eventsConnections]
      rfl
  · obtain rfl : name' = name := hname
    have htasks := congrArg Tasks.Conf.tasks (Tasks.step_spawn hp)
    rw [hn']
    refine ⟨?_, ?_, hc.eventsConnections, ?_⟩
    · rw [List.filter_append, hc.events]
      exact (List.append_nil _).symm
    · rw [htasks, List.length_append, hc.binary, List.count_append]
      simp
    · rw [htasks, List.countP_append, hc.binaryConnections]
      rfl

theorem counted_other {connection : Connection} (hname : connection.networkName ≠ name)
    (hc : Counted name begun n) : Counted name (begun ++ [connection]) n := by
  refine ⟨?_, ?_, hc.eventsConnections, hc.binaryConnections⟩
  · rw [List.filter_append, hc.events]
    cases connection with
    | events name' kind startFrom =>
      have hne : name' ≠ name := hname
      simp [Connection.isEvents, hne]
    | binary name' => exact (List.append_nil _).symm
  · rw [List.count_append, hc.binary]
    have hne : connection ≠ .binary name := by
      rintro rfl
      exact hname rfl
    simp [hne]

end Counted

theorem counted_reaches (h : Reaches (proxyStep D) (proxyInit D) c) (name : String) :
    Counted name (c.begun.map Prod.snd) (c.networks name) := by
  refine h.invariant (I := fun c => Counted name (c.begun.map Prod.snd) (c.networks name))
    ⟨rfl, rfl, rfl, rfl⟩ fun u a v hu hs => ?_
  cases network_step (proxyStep_cases hs) name with
  | same hn hb =>
    rw [hn, hb]
    exact hu
  | other hn hname hb =>
    rw [hn, hb, List.map_append]
    exact counted_other hname hu
  | pipeline hn hb =>
    rw [hb]
    exact counted_pipelineRun hu hn
  | sockets hn hb =>
    rw [hb]
    exact counted_socketsRun hu hn
  | begin hname hn hb =>
    rw [hb, List.map_append]
    exact counted_begin hname hu hn

/-- The request asks for this connection. -/
def Connection.AskedBy (F : Framework) (a : Incoming) (connection : Connection) : Prop :=
  ∃ route params, F.findRoute routes a.request.path = some (route, params) ∧
    F.extractPath params = some connection.networkName ∧
    match connection with
    | .events _ kind startFrom => route.handler = .eventsHandler ∧ a.query = .ok startFrom ∧
        (kind = .websocket ↔ a.upgrade = .ok ())
    | .binary _ => route.handler = .binaryWs ∧ a.upgrade = .ok ()

/-- A handler opens a connection that was asked for, to a network that is configured. -/
theorem dispatch_opened {F : Framework} {S : SerdeJson} {state : AppState} {a : Incoming}
    {response : Response} {connection : Connection}
    (hd : dispatch F S state a = .answer response (some connection)) :
    connection.AskedBy F a ∧ ∃ network, state.getNetwork connection.networkName = .ok network := by
  unfold dispatch at hd
  split at hd
  · cases hd
  · next route params hroute =>
    split_ifs at hd with haccepts
    · split at hd
      · cases hd
      · next name hname =>
        cases hh : route.handler with
        | networkRoot =>
          rw [hh] at hd
          cases hd
        | rpcProxy =>
          simp only [hh, callHandler, rpcBegin] at hd
          repeat' split at hd
          all_goals cases hd
        | eventsHandler =>
          simp only [hh, callHandler] at hd
          split at hd
          · cases hd
          · next startFrom hquery =>
            unfold eventsHandler at hd
            split at hd
            · cases hd
            · next network hn =>
              split at hd
              · next hupgrade =>
                cases hd
                exact ⟨⟨route, params, hroute, hname, hh, hquery, by simp [hupgrade]⟩, network, hn⟩
              · next rejection hupgrade =>
                cases hd
                exact ⟨⟨route, params, hroute, hname, hh, hquery, by simp [hupgrade]⟩, network, hn⟩
        | binaryWs =>
          simp only [hh, callHandler] at hd
          split at hd
          · cases hd
          · next hupgrade =>
            unfold binaryWs at hd
            split at hd
            · cases hd
            · next network hn =>
              cases hd
              exact ⟨⟨route, params, hroute, hname, hh, hupgrade⟩, network, hn⟩
    · cases hd

theorem Tracked.opened_dispatch {F : Framework} {S : SerdeJson} {state : AppState} {t : Request}
    {connection : Connection} (ht : Tracked F S state t) (ho : t.opened = some connection) :
    ∃ response, dispatch F S state t.incoming = .answer response (some connection) := by
  induction ht with
  | answered time hd =>
    cases ho
    exact ⟨_, hd⟩
  | dropped ht hpc ih => exact ih ho
  | _ => cases ho

theorem openedBy_step {s s' : ServerConf D.governor} (h : Reaches D.serverStep D.serverInit s)
    {a : Tasks.Act RequestAct Empty Incoming} (hs : D.serverStep s a = some s') {i : ℕ}
    {connection : Connection} (ho : openedBy s i = some connection) :
    openedBy s' i = some connection := by
  obtain ⟨t, ht, hopened⟩ := Option.bind_eq_some_iff.mp ho
  have hi := (List.getElem?_eq_some_iff.mp ht).1
  cases a with
  | task j a =>
    obtain ⟨u, shared, u', hu, hr, rfl⟩ := Tasks.step_task hs
    by_cases hij : j = i
    · subst hij
      obtain rfl : u = t := Option.some.inj (hu.symm.trans ht)
      have hsame : u'.opened = u.opened := by
        have htracked := tracked_reaches h (List.mem_of_getElem? ht)
        cases requestStep_cases hr with
        | answer hpc hd =>
          -- nothing was opened before the handler ran
          cases htracked with
          | route a time => cases hopened
          | _ => cases hpc
        | _ => rfl
      rw [openedBy, List.getElem?_set_self hi, Option.bind_some, hsame, hopened]
    · rw [openedBy, List.getElem?_set_ne hij]
      exact ho
  | env e => exact e.elim
  | spawn x =>
    obtain rfl := Tasks.step_spawn hs
    rw [openedBy, List.getElem?_append_left hi]
    exact ho

/-- A connection begins once, and is the one that its request has opened. -/
theorem begun_reaches (h : Reaches (proxyStep D) (proxyInit D) c) :
    (c.begun.map Prod.fst).Nodup ∧ ∀ p ∈ c.begun, openedBy c.server p.1 = some p.2 := by
  refine (h.invariant (I := fun c => Reaches D.serverStep D.serverInit c.server ∧
    (c.begun.map Prod.fst).Nodup ∧ ∀ p ∈ c.begun, openedBy c.server p.1 = some p.2)
    ⟨.refl _, .nil, by simp [proxyInit]⟩ fun u a v hu hs => ?_).2
  obtain ⟨hserver, hnodup, hopened⟩ := hu
  cases proxyStep_cases hs with
  | http hstep =>
    exact ⟨hserver.snoc hstep, hnodup, fun p hp => openedBy_step hserver hstep (hopened p hp)⟩
  | pipeline hn | sockets hn => exact ⟨hserver, hnodup, hopened⟩
  | @begin i connection n ho hi hn =>
    refine ⟨hserver, ?_, fun p hp => ?_⟩
    · rw [List.map_append]
      exact hnodup.append (List.nodup_singleton i) (List.disjoint_singleton.mpr hi)
    · rcases List.mem_append.mp hp with hp | hp
      · exact hopened p hp
      · rw [List.mem_singleton.mp hp]
        exact ho

theorem begin_enabled {i : ℕ} {connection : Connection}
    (ho : openedBy c.server i = some connection) (hi : i ∉ c.begun.map Prod.fst) :
    ∃ c', proxyStep D c (.begin i) = some c' := by
  have hbegin : ∃ n, (c.networks connection.networkName).begin D connection = some n := by
    cases connection with
    | events name kind startFrom => exact ⟨_, rfl⟩
    | binary name => exact ⟨_, rfl⟩
  obtain ⟨n, hn⟩ := hbegin
  simp only [proxyStep, ho, Option.bind_some, if_neg hi, Proxy.move, hn, Option.map_some]
  exact ⟨_, rfl⟩

/-! ## One client -/

/-- The row of one network. -/
def mainnetConfig : Models.NetworkConfig :=
  ⟨"mainnet", "casper", "http://127.0.0.1:8888", "http://127.0.0.1:9999/events",
    "http://127.0.0.1/rpc", "127.0.0.1:7779", "127.0.0.1:35000"⟩

/-- One network, and nothing set in the environment. -/
def mainnetDeployment : Deployment ℕ ℕ where
  framework := plainFramework
  serdeJson := textJson
  governor := gcraGovernor
  port := wirePort
  startup := ⟨.fromEnv fun _ => none, networkMap [mainnetConfig], []⟩
  redisClient := true
  sseToValue := plainProcess.sseToValue
  world _ := emptyWorld

/-- A request to upgrade to a websocket of events. -/
def eventsIncoming : Incoming where
  request := ⟨"GET", "/mainnet/events", some "127.0.0.1"⟩
  body := .ok []
  query := .ok none
  upgrade := .ok ()

/-- A request to upgrade to a websocket of the binary port. -/
def binaryIncoming : Incoming :=
  { eventsIncoming with request := ⟨"GET", "/mainnet/binary", some "127.0.0.1"⟩ }

theorem eventsIncoming_begun : ∃ c, Reaches (proxyStep mainnetDeployment)
    (proxyInit mainnetDeployment) c ∧ c.begun = [(0, .events "mainnet" .websocket none)] := by
  have hrun : (exec (proxyStep mainnetDeployment) (proxyInit mainnetDeployment)
      [.http (.spawn eventsIncoming), .http (.task 0 (.check 0 0)), .http (.task 0 .route),
        .begin 0]).map (·.begun) = some [(0, .events "mainnet" .websocket none)] := rfl
  obtain ⟨c, hc, hbegun⟩ := Option.map_eq_some_iff.mp hrun
  exact ⟨c, ⟨_, hc⟩, hbegun⟩

/-! ## Which have begun -/

/-- The connection was opened for a request: one that the rate limit let through, which asked for
it, to a network that is configured. -/
def Proxy.Entitled (c : Proxy E V D.governor) (i : ℕ) (connection : Connection) : Prop :=
  ∃ t key, c.server.tasks[i]? = some t ∧ t.opened = some connection ∧
    t.incoming.request.clientIp = some key ∧ Request.admittedFor key t ≠ [] ∧
    connection.AskedBy D.framework t.incoming ∧
    (D.startup.networks.lookup connection.networkName).isSome

theorem entitled_reaches (h : Reaches (proxyStep D) (proxyInit D) c) {p : ℕ × Connection}
    (hp : p ∈ c.begun) : c.Entitled p.1 p.2 := by
  obtain ⟨t, ht, ho⟩ := Option.bind_eq_some_iff.mp ((begun_reaches h).2 p hp)
  have hserver := server_reaches h
  have hmem := List.mem_of_getElem? ht
  have htracked := tracked_reaches hserver hmem
  obtain ⟨key, hkey, hfor⟩ := keyed_reaches hserver hmem
    (htracked.admitted (.inr (Option.isSome_iff_exists.mpr ⟨_, ho⟩)))
  obtain ⟨response, hd⟩ := htracked.opened_dispatch ho
  obtain ⟨hasked, network, hn⟩ := dispatch_opened hd
  obtain ⟨setup, hsetup, -⟩ := getNetwork_startup.mp hn
  exact ⟨t, key, ht, ho, hkey, hfor, hasked, Option.isSome_iff_exists.mpr ⟨setup, hsetup⟩⟩

/-- **Which connections there are.** In every reachable state of the proxy, with any number of
requests, connections, networks and steps of all of them in any order: a connection begins once,
for a request that the rate limit let through and that asked for it, and every one that was opened
has begun or can begin; the clients and the sockets of a network are just the connections of it
that have begun, in order; and the gauges of a network are the numbers of those whose handlers have
not returned. -/
theorem connections_exact (h : Reaches (proxyStep D) (proxyInit D) c) :
    ((c.begun.map Prod.fst).Nodup ∧ (∀ p ∈ c.begun, c.Entitled p.1 p.2) ∧
      ∀ i connection, openedBy c.server i = some connection → i ∉ c.begun.map Prod.fst →
        ∃ c', proxyStep D c (.begin i) = some c') ∧
    ∀ name, Counted name (c.begun.map Prod.snd) (c.networks name) :=
  ⟨⟨(begun_reaches h).1, fun _ hp => entitled_reaches h hp, fun _ _ ho hi => begin_enabled ho hi⟩,
    counted_reaches h⟩

theorem connections_exact_mainnet : ∃ c, Reaches (proxyStep mainnetDeployment)
    (proxyInit mainnetDeployment) c ∧
    c.Entitled 0 (.events "mainnet" .websocket none) ∧
    ((c.networks "mainnet").pipeline.events.tasks.filterMap (Task.connection "mainnet")).length =
      1 := by
  obtain ⟨c, h, hbegun⟩ := eventsIncoming_begun
  obtain ⟨⟨-, hopened, -⟩, hcounted⟩ := connections_exact h
  refine ⟨c, h, hopened _ (by rw [hbegun]; exact List.mem_singleton_self _), ?_⟩
  rw [(hcounted "mainnet").events, hbegun]
  rfl

/-! ## What is served -/

theorem client_entitled (h : Reaches (proxyStep D) (proxyInit D) c) {name : String} {d : Client V}
    (hd : .client d ∈ (c.networks name).pipeline.events.tasks) :
    ∃ i, (i, .events name d.kind d.startFrom) ∈ c.begun ∧
      c.Entitled i (.events name d.kind d.startFrom) := by
  have hmem : .events name d.kind d.startFrom ∈
      (c.networks name).pipeline.events.tasks.filterMap (Task.connection name) :=
    List.mem_filterMap.mpr ⟨_, hd, rfl⟩
  rw [(counted_reaches h name).events] at hmem
  obtain ⟨⟨i, connection⟩, hp, hconnection⟩ := List.mem_map.mp (List.mem_filter.mp hmem).1
  obtain rfl : connection = .events name d.kind d.startFrom := hconnection
  exact ⟨i, hp, entitled_reaches h hp⟩

theorem socket_entitled (h : Reaches (proxyStep D) (proxyInit D) c) {name : String}
    {s : Socket D.governor} (hs : s ∈ (c.networks name).sockets.tasks) :
    ∃ i, (i, .binary name) ∈ c.begun ∧ c.Entitled i (.binary name) := by
  have hpos : 0 < (c.begun.map Prod.snd).count (.binary name) := by
    rw [← (counted_reaches h name).binary]
    exact List.length_pos_of_mem hs
  obtain ⟨⟨i, connection⟩, hp, hconnection⟩ := List.mem_map.mp (List.count_pos_iff.mp hpos)
  obtain rfl : connection = .binary name := hconnection
  exact ⟨i, hp, entitled_reaches h hp⟩

/-- **Who is served, and with what.** In every reachable state of the proxy: a client of `/events`
of a network is there for a request that was let through and asked for just that network, and what
it was delivered comes from the upstream of that network, in the order of its log; a socket of
`/binary` is there for such a request too, and each frame that it was sent is a safe frame of a call
that its own pool made for it, with the peers hidden in the form of the answer behind it. -/
theorem connections_served (hw : ∀ name, Increasing (D.world name).log) (hK : D.port.Lawful)
    (h : Reaches (proxyStep D) (proxyInit D) c) (name : String) :
    (∀ d, .client d ∈ (c.networks name).pipeline.events.tasks →
      (∃ i, (i, .events name d.kind d.startFrom) ∈ c.begun ∧
        c.Entitled i (.events name d.kind d.startFrom)) ∧
      d.Follows D.process (c.networks name).pipeline.world.log) ∧
    ∃ d owners, Reaches (poolStep D.port) (poolInit D.config.binaryPoolSize) d ∧
      Serves (c.networks name).sockets d owners ∧
      ∀ (i : ℕ) (s : Socket D.governor), (c.networks name).sockets.tasks[i]? = some s →
        (∃ j, (j, .binary name) ∈ c.begun ∧ c.Entitled j (.binary name)) ∧
        s.Safe D.port d (callsOf owners i) := by
  refine ⟨fun _ hd => ⟨client_entitled h hd,
    follows_reaches D.process (hw name) (pipeline_reaches h name) hd⟩, ?_⟩
  obtain ⟨d, hd, owners, hserves⟩ :=
    sockets_simulate.reaches ⟨[], serves_init _⟩ (sockets_reaches h name)
  exact ⟨d, owners, hd, hserves, fun i s hs =>
    ⟨socket_entitled h (List.mem_of_getElem? hs), hserves.safe hK hd hs⟩⟩

/-- Two connections of one client, one of each kind. -/
def openingRun : List (ProxyAct ℕ) :=
  [.http (.spawn eventsIncoming), .http (.task 0 (.check 0 0)), .http (.task 0 .route), .begin 0,
    .http (.spawn binaryIncoming), .http (.task 1 (.check 0 0)), .http (.task 1 .route), .begin 1]

/-- The client of `/events` is delivered an event of the upstream, and the socket of `/binary` is
sent the status of the node, without the peer that the node put into it. -/
def servedRun : List (ProxyAct ℕ) :=
  openingRun ++ (pipelineRun.drop 1).map (.pipeline "mainnet") ++
    (answeredSocket statusRequest (statusReply onePeer)).map (.sockets "mainnet")

set_option maxRecDepth 4000 in
theorem servedRun_seen : (exec (proxyStep mainnetDeployment) (proxyInit mainnetDeployment)
    servedRun).map (fun c => ((clientAt (c.networks "mainnet").pipeline.events 0).map
      Client.delivered, (c.networks "mainnet").sockets.tasks.map Socket.replies)) =
    some (some [⟨1, 10⟩], [[(statusRequest, .binary (statusReply noPeers))]]) := rfl

theorem connections_served_mainnet : ∃ c e s, Reaches (proxyStep mainnetDeployment)
    (proxyInit mainnetDeployment) c ∧
    .client e ∈ (c.networks "mainnet").pipeline.events.tasks ∧ e.delivered = [⟨1, 10⟩] ∧
    (∃ i, c.Entitled i (.events "mainnet" e.kind e.startFrom)) ∧
    e.Follows mainnetDeployment.process (c.networks "mainnet").pipeline.world.log ∧
    (c.networks "mainnet").sockets.tasks[0]? = some s ∧
    s.replies = [(statusRequest, .binary (statusReply noPeers))] ∧
    (∃ i, c.Entitled i (.binary "mainnet")) ∧
    ∃ d owners, Reaches (poolStep wirePort) (poolInit 4) d ∧
      Serves (c.networks "mainnet").sockets d owners ∧ s.Safe wirePort d (callsOf owners 0) := by
  obtain ⟨c, hc, hseen⟩ := Option.map_eq_some_iff.mp servedRun_seen
  obtain ⟨hclient, hsockets⟩ := Prod.mk.inj hseen
  obtain ⟨e, he, hdelivered⟩ := Option.map_eq_some_iff.mp hclient
  obtain ⟨s, hs, hreplies⟩ := List.map_eq_singleton_iff.mp hsockets
  have hw : ∀ name, Increasing (mainnetDeployment.world name).log := fun _ => .nil
  obtain ⟨hclients, d, owners, hd, hserves, hsafe⟩ :=
    connections_served hw wirePort_lawful ⟨_, hc⟩ "mainnet"
  obtain ⟨⟨i, -, hi⟩, hfollows⟩ := hclients e (clientAt_mem he)
  have hs0 : (c.networks "mainnet").sockets.tasks[0]? = some s := by rw [hs]; rfl
  obtain ⟨⟨j, -, hj⟩, hsafe⟩ := hsafe 0 s hs0
  exact ⟨c, e, s, ⟨_, hc⟩, clientAt_mem he, hdelivered, ⟨i, hi⟩, hfollows, hs0, hreplies, ⟨j, hj⟩,
    d, owners, hd, hserves, hsafe⟩

/-! ## How many have begun -/

/-- The request was let through in a window of time, and is one of this client. -/
def Request.admittedIn (key : String) (start span : ℕ) (t : Request) : Bool :=
  !(Gcra.within start span (t.admittedFor key)).isEmpty

/-- The connection that has begun is one of a request that was let through in this window. -/
def Proxy.admittedIn {G : Governor} (c : Proxy E V G) (key : String) (start span : ℕ)
    (p : ℕ × Connection) : Bool :=
  (c.server.tasks[p.1]?).any (Request.admittedIn key start span)

theorem countP_admittedIn_le (key : String) (start span : ℕ) (tasks : List Request) :
    tasks.countP (Request.admittedIn key start span) ≤
      (Gcra.within start span (tasks.flatMap (Request.admittedFor key))).length := by
  induction tasks with
  | nil => exact Nat.le_refl 0
  | cons t tasks ih =>
    have happend : Gcra.within start span ((t :: tasks).flatMap (Request.admittedFor key)) =
        Gcra.within start span (t.admittedFor key) ++
          Gcra.within start span (tasks.flatMap (Request.admittedFor key)) := by
      rw [List.flatMap_cons]
      exact List.filter_append ..
    rw [happend, List.length_append, List.countP_cons, Nat.add_comm]
    refine Nat.add_le_add ?_ ih
    split
    · next hin =>
      refine List.length_pos_iff.mpr fun hnil => ?_
      rw [Request.admittedIn, hnil] at hin
      cases hin
    · exact Nat.zero_le _

/-- **How many connections a client can get.** In every reachable state of the proxy and in every
window of time, at most so many connections have begun for the requests of one client that were let
through in the window as the burst and the period allow: over all networks and of both kinds, and
whatever other clients do. -/
theorem connections_limited (hG : D.governor.Lawful)
    (h : Reaches (proxyStep D) (proxyInit D) c) (key : String) (start span : ℕ) :
    c.begun.countP (c.admittedIn key start span) ≤
      max D.config.rateLimitBurst 1 + span / perMinuteToPeriod D.config.rateLimitPerMin := by
  obtain ⟨hnodup, hopened⟩ := begun_reaches h
  have hlt : ∀ i ∈ c.begun.map Prod.fst, i < c.server.tasks.length := by
    intro i hi
    obtain ⟨p, hp, rfl⟩ := List.mem_map.mp hi
    obtain ⟨t, ht, -⟩ := Option.bind_eq_some_iff.mp (hopened p hp)
    exact (List.getElem?_eq_some_iff.mp ht).1
  calc c.begun.countP (c.admittedIn key start span)
      = (c.begun.map Prod.fst).countP fun i =>
          (c.server.tasks[i]?).any (Request.admittedIn key start span) := by
        rw [List.countP_map]
        rfl
    _ ≤ c.server.tasks.countP (Request.admittedIn key start span) :=
        Tasks.countP_nodup_le _ hnodup hlt
    _ ≤ (Gcra.within start span (c.server.tasks.flatMap (Request.admittedFor key))).length :=
        countP_admittedIn_le key start span _
    _ ≤ _ := length_within_admitted hG (server_reaches h) key start span

/-- One connection has begun, of the twenty that may at once. -/
theorem connections_limited_mainnet : ∃ c, Reaches (proxyStep mainnetDeployment)
    (proxyInit mainnetDeployment) c ∧ c.begun.length = 1 ∧
    c.begun.countP (c.admittedIn "127.0.0.1" 0 0) ≤ 20 := by
  obtain ⟨c, h, hbegun⟩ := eventsIncoming_begun
  refine ⟨c, h, by rw [hbegun]; rfl, ?_⟩
  exact (connections_limited gcraGovernor_lawful h "127.0.0.1" 0 0).trans (by decide)

end System

end CasperNodeProxy
