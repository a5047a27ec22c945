import CasperNodeProxy.Http.Server
import CasperNodeProxy.Rpc.Status

/-!
# The answers of the server

* `Tracked`: how far a request is, in terms of what it came in with; `tracked_reaches`.
* `Agrees`: the upstream as a function, as far as a request has seen it.
* **`answers_served`**: whatever the requests next to it do, a request that is answered got what it
  gets on its own, or was stopped in front of the router.
* **`answers_hide_peers`**: the answer to a request for `info_get_status` shows no peers.
-/

namespace CasperNodeProxy

open Run Wire

variable {G : Governor} {F : Framework} {S : SerdeJson} {state : AppState}
  {perMinute burstSize : ℕ}

/-! ## How far a request is -/

/-- The answers of the rate limit. -/
def Stopped (F : Framework) (response : Response) : Prop :=
  response = F.unableToExtractKey ∨ ∃ wait, response = F.tooManyRequests wait

/-- What has been done for a request. -/
inductive Tracked (F : Framework) (S : SerdeJson) (state : AppState) : Request → Prop
  | limit (a : Incoming) : Tracked F S state (.new a)
  | stopped {a : Incoming} {response : Response} (hr : Stopped F response) :
      Tracked F S state { Request.new a with pc := .answered response }
  | route (a : Incoming) (time : ℕ) :
      Tracked F S state { Request.new a with pc := .route, admittedAt := some time }
  | answered {a : Incoming} (time : ℕ) {response : Response} {opened : Option Connection}
      (hd : dispatch F S state a = .answer response opened) :
      Tracked F S state { Request.new a with
        pc := .answered response, admittedAt := some time, opened := opened }
  | upstream {a : Incoming} (time : ℕ) {networkName method url : String} {body : Bytes}
      (hd : dispatch F S state a = .post networkName method url body) :
      Tracked F S state { Request.new a with
        pc := .upstream networkName method, admittedAt := some time, posted := some (url, body)
        rpc := [.jsonrpcMethod networkName method] }
  | body {a : Incoming} (time : ℕ) {networkName method url : String} {body : Bytes}
      (hd : dispatch F S state a = .post networkName method url body) (status : ℕ)
      (contentType : Option Bytes) :
      Tracked F S state { Request.new a with
        pc := .body networkName method status contentType, admittedAt := some time
        posted := some (url, body)
        rpc := .jsonrpcMethod networkName method :: nonSuccess networkName status }
  | relayed {a : Incoming} (time : ℕ) {networkName method url : String} {body : Bytes}
      (hd : dispatch F S state a = .post networkName method url body) (reply : UpstreamReply) :
      Tracked F S state { Request.new a with
        pc := .answered
          (intoResponse F S (relay S networkName (method == "info_get_status") reply).2)
        admittedAt := some time, posted := some (url, body), reply := some reply
        rpc := .jsonrpcMethod networkName method ::
          (relay S networkName (method == "info_get_status") reply).1 }
  | dropped {t : Request} (ht : Tracked F S state t) (hpc : ∀ response, t.pc ≠ .answered response) :
      Tracked F S state { t with pc := .dropped }

/-- **Every step keeps track.** -/
theorem tracked_step {s s' : Server G} {t t' : Request} (ht : Tracked F S state t)
    (hs : RequestStep F S state s t s' t') : Tracked F S state t' := by
  cases hs with
  | noKey hpc hip =>
    cases ht with
    | limit a => exact .stopped (.inl rfl)
    | _ => cases hpc
  | limit hpc hip hc =>
    cases ht with
    | limit a => exact .stopped (.inr ⟨_, rfl⟩)
    | _ => cases hpc
  | pass hpc hip hc =>
    cases ht with
    | limit a => exact .route a _
    | _ => cases hpc
  | answer hpc hd =>
    cases ht with
    | route a time => exact .answered time hd
    | _ => cases hpc
  | post hpc hd =>
    cases ht with
    | route a time => exact .upstream time hd
    | _ => cases hpc
  | @sendError networkName method err hpc =>
    cases ht with
    | upstream time hd =>
      cases hpc
      exact .relayed time hd (.sendError err)
    | _ => cases hpc
  | @head networkName method status contentType hpc =>
    cases ht with
    | upstream time hd =>
      cases hpc
      exact .body time hd status contentType
    | _ => cases hpc
  | @body networkName method status contentType body hpc =>
    cases ht with
    | body time hd status contentType =>
      cases hpc
      have hrelayed := Tracked.relayed (F := F) time hd (.response status contentType body)
      rw [relay_response] at hrelayed
      simpa only [Request.finish, Request.answer, Request.count, List.append_nil] using hrelayed
    | _ => cases hpc
  | disconnect hpc => exact .dropped ht hpc

theorem tracked_invariant :
    Tasks.TaskInvariant (serverProgram F S G state) (Tracked F S state) where
  task _ _ _ _ _ _ ht hs := tracked_step ht (requestStep_cases hs)
  spawn := .limit

theorem tracked_reaches {c : ServerConf G}
    (h : Reaches (serverStep F S G state) (serverInit G perMinute burstSize) c) {t : Request}
    (ht : t ∈ c.tasks) : Tracked F S state t := by
  obtain ⟨i, hi⟩ := List.mem_iff_getElem?.mp ht
  exact tracked_invariant.reaches h hi

/-! ## Answers -/

/-- The upstream as a function, as far as a request has seen it. -/
def Agrees (upstream : String → Bytes → UpstreamReply) (t : Request) : Prop :=
  ∀ p reply, t.posted = some p → t.reply = some reply → upstream p.1 p.2 = reply

theorem Tracked.served {t : Request} (ht : Tracked F S state t) {response : Response}
    (hpc : t.pc = .answered response) :
    (t.admittedAt = none ∧ Stopped F response ∧ t.rpc = [] ∧ t.posted = none ∧ t.opened = none) ∨
    (t.admittedAt.isSome ∧ ∀ upstream, Agrees upstream t →
      serve F S state upstream t.incoming = ⟨t.rpc, t.posted, t.opened, response⟩) := by
  cases ht with
  | stopped hr =>
    cases hpc
    exact .inl ⟨rfl, hr, rfl, rfl, rfl⟩
  | answered time hd =>
    cases hpc
    refine .inr ⟨rfl, fun upstream _ => ?_⟩
    simp only [Request.new, serve, hd]
  | relayed time hd reply =>
    cases hpc
    refine .inr ⟨rfl, fun upstream hup => ?_⟩
    have hreply := hup _ _ rfl rfl
    simp only [Request.new, serve, hd, hreply]
  | _ => cases hpc

/-! ## Every request can be answered -/

/-- **Every request can be answered.** From every state in which the rate limit lets it through, a
new request can be run, by its own steps alone, to the answer that it gets on its own. -/
theorem answer_reached (upstream : String → Bytes → UpstreamReply) {c : ServerConf G}
    {a : Incoming} {key : String} (hip : a.request.clientIp = some key) {time : ℕ}
    (hc : (G.check (c.shared.limiters key) time).1 = .ok ()) :
    ∃ c' t, Reaches (serverStep F S G state) c c' ∧ t ∈ c'.tasks ∧ t.incoming = a ∧
      t.admittedAt = some time ∧ t.posted = (serve F S state upstream a).posted ∧
      Agrees upstream t ∧ t.pc = .answered (serve F S state upstream a).response := by
  let i := c.tasks.length
  let c₁ : ServerConf G := ⟨c.shared, c.tasks ++ [.new a]⟩
  have hspawn : Reaches (serverStep F S G state) c c₁ := (Reaches.refl c).snoc (a := .spawn a) rfl
  have ht : c₁.tasks[i]? = some (.new a) := List.getElem?_concat_length
  suffices hsolo : ∃ acts s t, exec ((serverProgram F S G state).solo i) (c.shared, .new a) acts =
      some (s, t) ∧ t.incoming = a ∧ t.admittedAt = some time ∧
      t.posted = (serve F S state upstream a).posted ∧ Agrees upstream t ∧
      t.pc = .answered (serve F S state upstream a).response by
    obtain ⟨acts, s, t, hrun, hfields⟩ := hsolo
    refine ⟨_, t, hspawn.trans ⟨_, Tasks.exec_solo ht hrun⟩, ?_, hfields⟩
    exact List.mem_of_getElem? (List.getElem?_set_self (List.getElem?_eq_some_iff.mp ht).1)
  have hcheck : ∀ acts, exec ((serverProgram F S G state).solo i) (c.shared, .new a)
      (.check time time :: .route :: acts) =
      exec ((serverProgram F S G state).solo i) (({ Request.new a with
        pc := .route, admittedAt := some time } : Request).goOn
          ((c.shared.ask key time).letThrough key time) (dispatch F S state a)) acts := by
    intro acts
    simp only [exec, Tasks.Program.solo, serverProgram, requestStep, Request.new, hip, hc,
      Option.bind_some]
  cases hd : dispatch F S state a with
  | answer response opened =>
    refine ⟨[.check time time, .route], _, _, (hcheck []).trans (by rw [hd]; rfl), rfl, rfl, ?_, ?_,
      ?_⟩
    · simp only [serve, hd]
      rfl
    · intro p reply hp
      cases hp
    · simp only [serve, hd, Request.answer]
  | post networkName method url body =>
    cases hup : upstream url body with
    | sendError err =>
      refine ⟨[.check time time, .route, .sendError err], _, _,
        (hcheck _).trans (by rw [hd]; rfl), rfl, rfl, ?_, ?_, ?_⟩
      · simp only [serve, hd]
        rfl
      · rintro p reply hp hr
        cases hp
        cases hr
        exact hup
      · simp only [serve, hd, hup, Request.answer]
        rfl
    | response status contentType bytes =>
      refine ⟨[.check time time, .route, .head status contentType, .body bytes], _, _,
        (hcheck _).trans (by rw [hd]; rfl), rfl, rfl, ?_, ?_, ?_⟩
      · simp only [serve, hd]
        rfl
      · rintro p reply hp hr
        cases hp
        cases hr
        exact hup
      · simp only [serve, hd, hup, Request.answer, relay_response]

/-! ## A request for the status -/

/-- A response with nothing but its status. -/
def plainResponse (status : ℕ) : Response := ⟨status, none, []⟩

/-- A framework that answers without a text. -/
def plainFramework : Framework where
  toAxum := segmentAxum
  notFound := plainResponse 404
  methodNotAllowed := plainResponse 405
  pathRejected := plainResponse 400
  jsonFailure := plainResponse 500
  upgraded := plainResponse 101
  eventStream := plainResponse 200
  unableToExtractKey := plainResponse 500
  tooManyRequests _ := plainResponse 429

/-- A state with one network. -/
def mainnet : AppState := ⟨[("mainnet", ⟨⟨"mainnet", "casper", "http://127.0.0.1/rpc"⟩⟩)]⟩

/-- The body of a request for the status. -/
def statusBody : Bytes := jsonBytes (.object [("method", .string "info_get_status")])

/-- A request for the status of the network. -/
def statusIncoming : Incoming where
  request := ⟨"POST", "/mainnet/rpc", some "127.0.0.1"⟩
  body := .ok statusBody
  query := .ok none
  upgrade := .error (plainResponse 400)

theorem fromSlice_statusBody :
    textJson.fromSlice statusBody = .ok (.object [("method", .string "info_get_status")]) :=
  fromSlice_jsonBytes (by decide)

theorem statusIncoming_dispatch : dispatch plainFramework textJson mainnet statusIncoming =
    .post "mainnet" "info_get_status" "http://127.0.0.1/rpc" statusBody := by
  have hroute : plainFramework.findRoute routes "/mainnet/rpc" =
      some (.post .rpcProxy, [("network_name", "mainnet")]) := by decide
  have hname : plainFramework.extractPath [("network_name", "mainnet")] = some "mainnet" := by
    decide
  simp only [dispatch, statusIncoming, hroute, hname, MethodRouter.handler, callHandler,
    rpcBegin, fromSlice_statusBody]
  rfl

/-- A status with a peer, whatever is posted. -/
def statusUpstream (_ : String) (_ : Bytes) : UpstreamReply :=
  .response 200 none (.ok (jsonBytes statusWithPeers))

theorem statusIncoming_answered :
    ∃ c t, Reaches (serverStep plainFramework textJson gcraGovernor mainnet)
        (serverInit gcraGovernor 60 1) c ∧ t ∈ c.tasks ∧ t.incoming = statusIncoming ∧
      t.admittedAt = some 0 ∧
      t.posted = (serve plainFramework textJson mainnet statusUpstream statusIncoming).posted ∧
      Agrees statusUpstream t ∧ t.pc = .answered
        (serve plainFramework textJson mainnet statusUpstream statusIncoming).response := by
  have hip : statusIncoming.request.clientIp = some "127.0.0.1" := rfl
  exact answer_reached statusUpstream hip rfl

/-! ## Requests do not disturb each other -/

/-- **Requests do not disturb each other.** In every reachable state, a request that is answered
was stopped by the rate limit and nothing else happened; or its answer, its counts, what it posted
and what it opened are those of the request on its own, whichever function the upstream is that
gave this reply. -/
theorem answers_served {c : ServerConf G}
    (h : Reaches (serverStep F S G state) (serverInit G perMinute burstSize) c) {t : Request}
    (ht : t ∈ c.tasks) {response : Response} (hpc : t.pc = .answered response) :
    (t.admittedAt = none ∧ Stopped F response ∧ t.rpc = [] ∧ t.posted = none ∧ t.opened = none) ∨
    (t.admittedAt.isSome ∧ ∀ upstream, Agrees upstream t →
      serve F S state upstream t.incoming = ⟨t.rpc, t.posted, t.opened, response⟩) :=
  (tracked_reaches h ht).served hpc

theorem answers_served_status :
    ∃ t : Request, t.incoming = statusIncoming ∧ t.admittedAt = some 0 ∧
      serve plainFramework textJson mainnet statusUpstream statusIncoming =
        ⟨t.rpc, t.posted, t.opened,
          (serve plainFramework textJson mainnet statusUpstream statusIncoming).response⟩ := by
  obtain ⟨c, t, h, ht, hinc, hadm, -, hagrees, hpc⟩ := statusIncoming_answered
  refine ⟨t, hinc, hadm, ?_⟩
  rcases answers_served h ht hpc with ⟨hno, -⟩ | ⟨-, hserved⟩
  · rw [hadm] at hno
    cases hno
  · rw [← hinc] at hserved ⊢
    exact hserved statusUpstream hagrees

/-! ## The answers to `info_get_status` -/

/-- What is posted is the body of the request, and the last method in it is the one that was
decided on. -/
theorem dispatch_post {a : Incoming} {networkName method url : String} {body : Bytes}
    (hd : dispatch F S state a = .post networkName method url body) :
    a.body = .ok body ∧ ∃ network map, state.getNetwork networkName = .ok network ∧
      url = network.config.rpc ∧ S.fromSlice body = .ok (.object map) ∧
      map.lookup "method" = some (.string method) ∧ method ∈ supportedJsonrpcMethods := by
  have begun : ∀ name bytes, rpcBegin F S state name bytes = .post networkName method url body →
      bytes = body ∧ ∃ network map, state.getNetwork networkName = .ok network ∧
        url = network.config.rpc ∧ S.fromSlice body = .ok (.object map) ∧
        map.lookup "method" = some (.string method) ∧ method ∈ supportedJsonrpcMethods := by
    intro name bytes hb
    unfold rpcBegin at hb
    split at hb
    · cases hb
    · next network hn =>
      split at hb
      · cases hb
      · next json hj =>
        split at hb
        · cases hb
        · next m hm =>
          cases hb
          obtain ⟨map, rfl, hlookup, hs⟩ := rpcMethod_eq_ok.mp hm
          exact ⟨rfl, network, map, hn, rfl, hj, hlookup, hs⟩
  unfold dispatch at hd
  split at hd
  · cases hd
  · next route params hroute =>
    split_ifs at hd with haccepts
    · split at hd
      · cases hd
      · next name hname =>
        cases hh : route.handler with
        | networkRoot => simp [hh, callHandler] at hd
        | rpcProxy =>
          simp only [hh, callHandler] at hd
          split at hd
          · cases hd
          · next bytes hbytes =>
            obtain ⟨rfl, hrest⟩ := begun name bytes hd
            exact ⟨hbytes, hrest⟩
        | eventsHandler =>
          simp only [hh, callHandler, eventsHandler] at hd
          repeat' split at hd
          all_goals cases hd
        | binaryWs =>
          simp only [hh, callHandler, binaryWs] at hd
          repeat' split at hd
          all_goals cases hd

theorem sanitize_hides (hS : S.Lawful) {body out : Bytes}
    (h : sanitizeInfoGetStatusResponse S body = .ok out) {w : Json S.Number}
    (hw : S.fromSlice out = .ok w) (hresult : HasResult w) :
    w.follow peersPath = some (.array []) := by
  obtain ⟨out', w', he, hback, -, hp, -⟩ := sanitize_eq hS hw hresult
  obtain rfl := Except.ok.inj ((sanitize_idempotent hS h).symm.trans he)
  obtain rfl := Except.ok.inj (hw.symm.trans hback)
  exact hp

theorem intoResponse_error (hS : S.Lawful) (err : AppError) {w : Json S.Number}
    (hw : S.fromSlice (err.intoResponse F S).body = .ok w) : ¬ HasResult w := by
  have hordered : (Json.object [("error", .string err.message)] : Json S.Number).Ordered
      S.order := by
    refine .object (Members.ordered_of_keys (List.pairwise_singleton _ _)) fun p hp => ?_
    obtain rfl := List.mem_singleton.mp hp
    exact .string _
  have hdepth : (Json.object [("error", .string err.message)] : Json S.Number).depth = 1 := rfl
  have hlimit : 1 < recursionLimit := by decide
  obtain ⟨bytes, hvec, hback⟩ := hS.survives _ hordered (hdepth ▸ hlimit)
  rw [AppError.intoResponse, jsonResponse, hvec] at hw
  obtain rfl := Except.ok.inj (hw.symm.trans hback)
  rintro ⟨map, result, hmap, hlookup⟩
  cases hmap
  simp [List.lookup_cons] at hlookup

/-- What is relayed for `info_get_status` shows no peers, whatever the upstream replied. -/
theorem relay_hides (hS : S.Lawful) (networkName : String) (reply : UpstreamReply)
    {w : Json S.Number}
    (hw : S.fromSlice (intoResponse F S (relay S networkName true reply).2).body = .ok w)
    (hresult : HasResult w) : w.follow peersPath = some (.array []) := by
  cases hrelay : (relay S networkName true reply).2 with
  | error err =>
    rw [hrelay] at hw
    exact absurd hresult (intoResponse_error hS err hw)
  | ok response =>
    rw [hrelay] at hw
    cases reply with
    | sendError err => cases hrelay
    | response status contentType body =>
      rw [relay_response] at hrelay
      cases body with
      | error err => cases hrelay
      | ok body =>
        simp only [relayBody, if_true] at hrelay
        split at hrelay
        · cases hrelay
        · next out hout =>
          cases hrelay
          exact sanitize_hides hS hout hw hresult

/-- **No peers are shown.** In every reachable state, the answer to a request that was posted with
`info_get_status` as its method has no peers where a status has them, whatever the upstream replied
and however the requests were interleaved. -/
theorem answers_hide_peers (hS : S.Lawful) {c : ServerConf G}
    (h : Reaches (serverStep F S G state) (serverInit G perMinute burstSize) c) {t : Request}
    (ht : t ∈ c.tasks) {response : Response} (hpc : t.pc = .answered response) {url : String}
    {body : Bytes} (hposted : t.posted = some (url, body)) {map : List (String × Json S.Number)}
    (hj : S.fromSlice body = .ok (.object map))
    (hm : map.lookup "method" = some (.string "info_get_status")) {w : Json S.Number}
    (hw : S.fromSlice response.body = .ok w) (hresult : HasResult w) :
    w.follow peersPath = some (.array []) := by
  cases tracked_reaches h ht with
  | @relayed a time networkName method url' body' hd reply =>
    cases hposted
    cases hpc
    obtain ⟨-, network, map', -, -, hj', hm', -⟩ := dispatch_post hd
    cases hj.symm.trans hj'
    cases hm.symm.trans hm'
    exact relay_hides hS networkName reply hw hresult
  | stopped hr => cases hposted
  | answered time hd => cases hposted
  | _ => cases hpc

theorem serve_status {upstream : String → Bytes → UpstreamReply} {a : Incoming}
    {networkName url : String} {body reply out : Bytes} {status : ℕ} {contentType : Option Bytes}
    (hd : dispatch F S state a = .post networkName "info_get_status" url body)
    (hup : upstream url body = .response status contentType (.ok reply))
    (hout : sanitizeInfoGetStatusResponse S reply = .ok out) :
    (serve F S state upstream a).posted = some (url, body) ∧
      (serve F S state upstream a).response = ⟨status, contentType, out⟩ := by
  simp only [serve, hd, hup, relay, beq_self_eq_true, if_true, hout, intoResponse, and_self]

theorem answers_hide_peers_status :
    ∃ w, textJson.fromSlice
        (serve plainFramework textJson mainnet statusUpstream statusIncoming).response.body =
          .ok w ∧ w.follow peersPath = some (.array []) := by
  obtain ⟨c, t, h, ht, -, -, hposted, -, hpc⟩ := statusIncoming_answered
  have hpeers : textJson.fromSlice (jsonBytes statusWithPeers) = .ok statusWithPeers :=
    fromSlice_ordered statusWithPeers_ordered statusWithPeers_depth
  obtain ⟨out, w, hout, hback, hw, -⟩ :=
    sanitize_eq textJson_lawful hpeers (statusOf_hasResult _)
  have hup : statusUpstream "http://127.0.0.1/rpc" statusBody =
      .response 200 none (.ok (jsonBytes statusWithPeers)) := rfl
  obtain ⟨hserved, hserve⟩ := serve_status statusIncoming_dispatch hup hout
  rw [hserve] at hpc ⊢
  exact ⟨w, hback, answers_hide_peers textJson_lawful h ht hpc (hposted.trans hserved)
    fromSlice_statusBody rfl hback hw⟩

end CasperNodeProxy
