import CasperNodeProxy.App.System
import CasperNodeProxy.Events.Progress

/-!
# A request is served

The steps of one request and of the connection that it opens, from the rate limit to the last event,
as steps of the proxy.

* `exec_http`, `exec_tasks`: what a part can do, the proxy can do.
* `server_opens`: the request is answered, and a connection is opened.
* `serviceRun`; **`events_request_served`**: a request for events that is let through can be served
  at any time.
-/

namespace CasperNodeProxy

open Channel Run

section Service

variable {E V : Type} {D : Deployment E V} {c : Proxy E V D.governor}

/-! ## Steps of the parts -/

theorem exec_http {acts : List (Tasks.Act RequestAct Empty Incoming)} {s : ServerConf D.governor}
    (h : exec D.serverStep c.server acts = some s) :
    exec (proxyStep D) c (acts.map .http) = some { c with server := s } := by
  induction acts generalizing c with
  | nil =>
    cases h
    rfl
  | cons a acts ih =>
    obtain ⟨u, hu, hrest⟩ := exec_cons_eq_some.mp h
    have hstep : proxyStep D c (.http a) = some { c with server := u } := by
      simp only [proxyStep, hu, Option.map_some]
    exact exec_cons_eq_some.mpr ⟨_, hstep, ih (c := { c with server := u }) hrest⟩

theorem exec_tasks {name : String} (hname : (D.startup.networks.lookup name).isSome) {j n : ℕ}
    {events : EventConf V}
    (h : exec eventStep (c.networks name).pipeline.events (List.replicate n (.task j .run)) =
      some events) :
    ∃ c', exec (proxyStep D) c (List.replicate n (.pipeline name (.task j .run))) = some c' ∧
      (c'.networks name).pipeline.events = events ∧ c'.server = c.server ∧ c'.begun = c.begun := by
  induction n generalizing c with
  | zero =>
    cases h
    exact ⟨c, rfl, rfl, rfl, rfl⟩
  | succ n ih =>
    rw [List.replicate_succ] at h ⊢
    obtain ⟨u, hu, hrest⟩ := exec_cons_eq_some.mp h
    obtain ⟨c₁, hstep, hevents, hserver, hbegun⟩ :
        ∃ c₁, proxyStep D c (.pipeline name (.task j .run)) = some c₁ ∧
          (c₁.networks name).pipeline.events = u ∧ c₁.server = c.server ∧ c₁.begun = c.begun := by
      simp only [proxyStep, if_pos hname, Proxy.move, NetworkRun.pipelineRun, pipelineStep, hu,
        Option.map_some]
      exact ⟨_, rfl, by simp, rfl, rfl⟩
    obtain ⟨c', hrun, he, hserver', hbegun'⟩ := ih (c := c₁) (by rw [hevents]; exact hrest)
    exact ⟨c', exec_cons_eq_some.mpr ⟨c₁, hstep, hrun⟩, he, hserver'.trans hserver,
      hbegun'.trans hbegun⟩

theorem exec_connections (name : String) {events events' : EventConf V} {j n : ℕ}
    (h : exec eventStep events (List.replicate n (.task j .run)) = some events') :
    events'.tasks.filterMap (Task.connection name) =
      events.tasks.filterMap (Task.connection name) := by
  induction n generalizing events with
  | zero =>
    cases h
    rfl
  | succ n ih =>
    rw [List.replicate_succ] at h
    obtain ⟨u, hu, hrest⟩ := exec_cons_eq_some.mp h
    exact (ih hrest).trans (eventTask_step name hu).1

/-! ## The request -/

theorem server_opens {s : ServerConf D.governor} {a : Incoming} {key : String}
    (hip : a.request.clientIp = some key) {time : ℕ}
    (hcheck : (D.governor.check (s.shared.limiters key) time).1 = .ok ()) {response : Response}
    {connection : Connection}
    (hd : dispatch D.framework D.serdeJson D.startup.state a =
      .answer response (some connection)) :
    ∃ s' t, exec D.serverStep s [.spawn a, .task s.tasks.length (.check time time),
        .task s.tasks.length .route] = some s' ∧ s'.tasks[s.tasks.length]? = some t ∧
      t.pc = .answered response ∧ t.opened = some connection := by
  let s₁ : ServerConf D.governor := ⟨s.shared, s.tasks ++ [.new a]⟩
  have ht : s₁.tasks[s.tasks.length]? = some (.new a) := List.getElem?_concat_length
  have hspawn : D.serverStep s (.spawn a) = some s₁ := rfl
  obtain ⟨x, hsolo, hpc, hopened⟩ : ∃ x, exec ((serverProgram D.framework D.serdeJson D.governor
      D.startup.state).solo s.tasks.length) (s₁.shared, .new a) [.check time time, .route] =
        some x ∧ x.2.pc = .answered response ∧ x.2.opened = some connection := by
    simp only [exec, Tasks.Program.solo, serverProgram, requestStep, Request.new, s₁, hip, hcheck,
      Option.bind_some, hd, Request.goOn]
    exact ⟨_, rfl, rfl, rfl⟩
  refine ⟨_, x.2, exec_cons_eq_some.mpr ⟨s₁, hspawn, Tasks.exec_solo ht hsolo⟩, ?_, hpc, hopened⟩
  exact List.getElem?_set_self (List.getElem?_eq_some_iff.mp ht).1

theorem length_notMem_begun (h : Reaches (proxyStep D) (proxyInit D) c) :
    c.server.tasks.length ∉ c.begun.map Prod.fst := by
  intro hmem
  obtain ⟨p, hp, hlength⟩ := List.mem_map.mp hmem
  obtain ⟨t, ht, -⟩ := Option.bind_eq_some_iff.mp ((begun_reaches h).2 p hp)
  have hlt := (List.getElem?_eq_some_iff.mp ht).1
  omega

theorem begin_events {i : ℕ} {name : String} {kind : Kind} {startFrom : Option ℕ}
    (ho : openedBy c.server i = some (.events name kind startFrom))
    (hi : i ∉ c.begun.map Prod.fst) :
    ∃ c', proxyStep D c (.begin i) = some c' ∧
      (c'.networks name).pipeline.events = ⟨(c.networks name).pipeline.events.shared,
        (c.networks name).pipeline.events.tasks ++ [.client (.new kind startFrom)]⟩ ∧
      c'.server = c.server ∧ c'.begun = c.begun ++ [(i, .events name kind startFrom)] := by
  have hbegin : (c.networks name).begin D (.events name kind startFrom) = some
      { c.networks name with
        pipeline := { (c.networks name).pipeline with
          events := ⟨(c.networks name).pipeline.events.shared,
            (c.networks name).pipeline.events.tasks ++ [.client (.new kind startFrom)]⟩ }
        eventsConnections := (c.networks name).eventsConnections + 1 } := rfl
  simp only [proxyStep, ho, Option.bind_some, if_neg hi, Proxy.move, Connection.networkName, hbegin,
    Option.map_some]
  exact ⟨_, rfl, by simp, rfl, rfl⟩

/-- The steps of a request for events: until its connection has begun, and `n` of its client. -/
def serviceRun (c : Proxy E V D.governor) (a : Incoming) (time : ℕ) (name : String) (n : ℕ) :
    List (ProxyAct E) :=
  let i := c.server.tasks.length
  let j := (c.networks name).pipeline.events.tasks.length
  [.http (.spawn a), .http (.task i (.check time time)), .http (.task i .route), .begin i] ++
    List.replicate n (.pipeline name (.task j .run))

/-- **A request for events is served.** From every reachable state of the proxy in which a call
that stored the ApiVersion of a network has returned, a new request for its events that the rate
limit lets through is served by its own steps alone, in a bounded number of them, whatever the
others did and wherever they stand: it is answered, its connection begins, and its client, which is
the one new task of the network, is delivered just what it asked for, with nothing missed. -/
theorem events_request_served (h : Reaches (proxyStep D) (proxyInit D) c) {a : Incoming}
    {key : String} (hip : a.request.clientIp = some key) {time : ℕ}
    (hcheck : (D.governor.check (c.server.shared.limiters key) time).1 = .ok ())
    {response : Response} {name : String} {kind : Kind} {startFrom : Option ℕ}
    (hd : dispatch D.framework D.serdeJson D.startup.state a =
      .answer response (some (.events name kind startFrom)))
    {s : Setter V} (hs : .setter s ∈ (c.networks name).pipeline.events.tasks)
    (hstored : s.pc = .returned true) :
    ∃ n c' d t, n ≤ max D.config.sseBacklogLimit 1 +
        ringSize (max D.config.sseBroadcastCapacity 1) + 7 ∧
      exec (proxyStep D) c (serviceRun c a time name n) = some c' ∧
      c'.server.tasks[c.server.tasks.length]? = some t ∧ t.pc = .answered response ∧
      c'.begun = c.begun ++ [(c.server.tasks.length, .events name kind startFrom)] ∧
      (c'.networks name).pipeline.events = ⟨(c.networks name).pipeline.events.shared,
        (c.networks name).pipeline.events.tasks ++ [.client d]⟩ ∧
      d.kind = kind ∧ d.startFrom = startFrom ∧
      d.CaughtUp (c.networks name).pipeline.events.shared ∧
      d.delivered = d.asked (c.networks name).pipeline.events.shared ∧ d.missed = [] := by
  obtain ⟨-, network, hn⟩ := dispatch_opened hd
  obtain ⟨setup, hsetup, -⟩ := getNetwork_startup.mp hn
  have hname : (D.startup.networks.lookup name).isSome :=
    Option.isSome_iff_exists.mpr ⟨setup, hsetup⟩
  -- the request is answered, and its connection begins
  obtain ⟨server, t, hserver, ht, hanswered, hopened⟩ := server_opens hip hcheck hd
  have ho : openedBy server c.server.tasks.length = some (.events name kind startFrom) := by
    rw [openedBy, ht, Option.bind_some, hopened]
  obtain ⟨c₁, hbegin, hevents, hserver₁, hbegun₁⟩ :=
    begin_events (c := { c with server := server }) ho (length_notMem_begun h)
  have hfirst : exec (proxyStep D) c [.http (.spawn a),
      .http (.task c.server.tasks.length (.check time time)),
      .http (.task c.server.tasks.length .route), .begin c.server.tasks.length] = some c₁ :=
    exec_append_eq_some.mpr ⟨_, exec_http hserver, by simp only [exec, hbegin, Option.bind_some]⟩
  -- the client goes on alone
  have hreach := serves_reaches D.process (D.world name)
    (pipeline_reaches (h.trans ⟨_, hfirst⟩) name)
  have hsetter : .setter s ∈ (c₁.networks name).pipeline.events.tasks := by
    rw [hevents]
    exact List.mem_append_left _ hs
  have hclient : (c₁.networks name).pipeline.events.tasks[
      (c.networks name).pipeline.events.tasks.length]? = some (.client (.new kind startFrom)) := by
    rw [hevents]
    exact List.getElem?_concat_length
  obtain ⟨n, d, hle, hrun, hcaught, hnear, hfresh⟩ :=
    catch_up_reaches hreach hsetter hstored hclient (by simp [Client.new])
  obtain ⟨c', hlast, hevents', hserver', hbegun'⟩ := exec_tasks hname hrun
  have hshared : (c₁.networks name).pipeline.events.shared =
      (c.networks name).pipeline.events.shared := by rw [hevents]
  have hlater : (c'.networks name).pipeline.events = ⟨(c.networks name).pipeline.events.shared,
      (c.networks name).pipeline.events.tasks ++ [.client d]⟩ := by
    rw [hevents', hevents]
    simp
  have hconnections := exec_connections name hrun
  rw [← hevents', hlater, hevents, List.filterMap_append, List.filterMap_append] at hconnections
  obtain ⟨hkind, hstart⟩ : d.kind = kind ∧ d.startFrom = startFrom := by
    have hlast := List.append_cancel_left hconnections
    simpa [Task.connection, Client.new] using hlast
  rw [hshared] at hcaught hfresh
  refine ⟨n, c', d, t, hle, exec_append_eq_some.mpr ⟨c₁, hfirst, hlast⟩, ?_, hanswered, ?_, hlater,
    hkind, hstart, hcaught, hcaught.fresh (hfresh (fresh_new kind startFrom)), hnear (.inl rfl)⟩
  · rw [hserver', hserver₁]
    exact ht
  · rw [hbegun', hbegun₁]

end Service

/-- The listener receives the ApiVersion, which is stored, and an event, which is pushed. -/
def storedRun : List (ProxyAct ℕ) :=
  ([.listener .ok, .listener .ok, .listener (.okLive 0), .publish ⟨1, .other 10⟩,
    .listener (.apiVersion 7), .listener .ok, .listener .ok, .task 0 .run, .task 0 .run,
    .listener .ok, .listener .ok, .listener .ok, .listener .ok, .listener .ok, .push, .push] :
    List (PipelineAct ℕ)).map (.pipeline "mainnet")

theorem storedRun_seen : (exec (proxyStep mainnetDeployment) (proxyInit mainnetDeployment)
    storedRun).map (fun c => (c.server, (c.networks "mainnet").pipeline.events.tasks,
      (c.networks "mainnet").pipeline.events.shared.bus.backlog)) =
    some (mainnetDeployment.serverInit, [.setter ⟨7, .returned true⟩], [⟨1, 10⟩]) := rfl

/-- A request for the events from the first one on. -/
def replayIncoming : Incoming := { eventsIncoming with query := .ok (some 0) }

theorem events_request_served_mainnet : ∃ c n c' d, n ≤ 20000 ∧
    Reaches (proxyStep mainnetDeployment) (proxyInit mainnetDeployment) c ∧
    exec (proxyStep mainnetDeployment) c (serviceRun c replayIncoming 0 "mainnet" n) = some c' ∧
    c'.begun = c.begun ++ [(0, .events "mainnet" .websocket (some 0))] ∧
    (c'.networks "mainnet").pipeline.events.tasks = [.setter ⟨7, .returned true⟩, .client d] ∧
    d.delivered = [⟨1, 10⟩] ∧ d.missed = [] := by
  obtain ⟨c, hc, hseen⟩ := Option.map_eq_some_iff.mp storedRun_seen
  simp only [Prod.mk.injEq] at hseen
  obtain ⟨hserver, htasks, hbacklog⟩ := hseen
  have hcheck : (mainnetDeployment.governor.check
      (c.server.shared.limiters "127.0.0.1") 0).1 = .ok () := by
    rw [hserver]
    rfl
  have hd : dispatch mainnetDeployment.framework mainnetDeployment.serdeJson
      mainnetDeployment.startup.state replayIncoming =
        .answer (plainResponse 101) (some (.events "mainnet" .websocket (some 0))) := rfl
  have hs : .setter ⟨7, .returned true⟩ ∈ (c.networks "mainnet").pipeline.events.tasks := by
    rw [htasks]
    exact List.mem_singleton_self _
  obtain ⟨n, c', d, -, hn, hrun, -, -, hbegun, hevents, -, hstart, -, hdelivered, hmissed⟩ :=
    events_request_served ⟨_, hc⟩ (a := replayIncoming) rfl hcheck hd hs rfl
  rw [hserver] at hbegun
  refine ⟨c, n, c', d, hn.trans (by decide), ⟨_, hc⟩, hrun, hbegun, ?_, ?_, hmissed⟩
  · rw [hevents, htasks]
    rfl
  · rw [hdelivered, Client.asked, hstart, Option.map_some, Option.getD_some, EventBus.snapshotFrom,
      hbacklog]
    rfl

end CasperNodeProxy
