import CasperNodeProxy.Rpc.TextJson

/-!
# The response to `info_get_status`

The peers are replaced by the empty array; everything else of the response stays.

* `peersPath`, `HasResult`: where the peers are, and the responses that have a place for them.
* `HidesStatusPeers`: what hiding the peers means, for a function on bodies; what depends on the
  order that maps keep is said for key-ordered maps, and for members that stand in the same order.
* `sanitize_eq`, `sanitize_other`, `sanitize_error`: what sanitizing does, case by case.
* **`status_hides_peers`**: sanitizing hides the peers, and it is what `rpc_proxy` returns.
* `status_order_shows`: without key-ordered maps, the order of the members is not hidden.
-/

namespace CasperNodeProxy

open Wire

/-- Where a response to `info_get_status` has its peers. -/
def peersPath : List Json.Step := [.key "result", .key "peers"]

/-- An object whose member `result` is an object. -/
def HasResult {ν : Type} (v : Json ν) : Prop :=
  ∃ map result, v = .object map ∧ map.lookup "result" = some (.object result)

variable (S : SerdeJson)

/-- Two bodies, their values, and nothing but the peers in which the values differ. -/
structure DifferInPeers (body₁ body₂ : Bytes) (v₁ v₂ : Json S.Number) : Prop where
  left : S.fromSlice body₁ = .ok v₁
  right : S.fromSlice body₂ = .ok v₂
  hasLeft : HasResult v₁
  hasRight : HasResult v₂
  same : v₁.SameOff peersPath v₂

/-- What it means that the peers of a response are hidden, and nothing else. -/
structure HidesStatusPeers (sanitize : Bytes → Except AppError Bytes) : Prop where
  /-- The output parses to the same value with the peers replaced. -/
  replaced : ∀ body v, S.fromSlice body = .ok v → HasResult v →
    ∃ out w, sanitize body = .ok out ∧ S.fromSlice out = .ok w ∧
      w.follow peersPath = some (.array []) ∧ v.SameOff peersPath w
  /-- When maps are key-ordered, the output does not depend on the peers. -/
  independent : S.KeyOrdered → ∀ body₁ body₂ v₁ v₂, DifferInPeers S body₁ body₂ v₁ v₂ →
    sanitize body₁ = sanitize body₂
  /-- Whatever order maps keep, this is so when the members stand in the same order. -/
  independent_of_sameKeys : ∀ body₁ body₂ v₁ v₂, DifferInPeers S body₁ body₂ v₁ v₂ →
    Json.SameKeys peersPath v₁ v₂ → sanitize body₁ = sanitize body₂
  other : ∀ body v, S.fromSlice body = .ok v → ¬ HasResult v → sanitize body = .ok body
  notJson : ∀ body err, S.fromSlice body = .error err →
    sanitize body = .error ⟨502, "upstream RPC response is not JSON: " ++ S.display err⟩
  idempotent : ∀ body out, sanitize body = .ok out → sanitize out = .ok out

variable {S}

/-! ## The place of the peers -/

theorem resultOf_eq_some {ν : Type} {v : Json ν} {map result : List (String × Json ν)} :
    resultOf v = some (map, result) ↔
      v = .object map ∧ map.lookup "result" = some (.object result) := by
  constructor
  · intro h
    cases v with
    | object m =>
      simp only [resultOf] at h
      split at h
      · next r hr =>
        cases h
        exact ⟨rfl, hr⟩
      · cases h
    | _ => cases h
  · rintro ⟨rfl, h⟩
    simp only [resultOf, h]

theorem resultOf_eq_none {ν : Type} {v : Json ν} (h : ¬ HasResult v) : resultOf v = none := by
  cases hr : resultOf v with
  | none => rfl
  | some p => exact absurd ⟨p.1, p.2, resultOf_eq_some.mp hr⟩ h

section Replaced

variable {ν : Type} {o : Members.Order} {map result : List (String × Json ν)}

theorem withoutPeers_peers : (withoutPeers o map result).follow peersPath = some (.array []) := by
  rw [withoutPeers, peersPath, Json.follow_key, Members.lookup_insert_self, Option.bind_some,
    Json.follow_key, Members.lookup_insert_self, Option.bind_some, Json.follow_nil]

theorem withoutPeers_sameOff (h : map.lookup "result" = some (.object result)) :
    (Json.object map).SameOff peersPath (withoutPeers o map result) :=
  (Json.sameOff_insert o result "peers" (.array [])).insert h

theorem withoutPeers_ordered (hs : (Json.object map).Ordered o)
    (h : map.lookup "result" = some (.object result)) : (withoutPeers o map result).Ordered o :=
  hs.insert "result" ((hs.lookup h).insert "peers" (.array nofun))

theorem withoutPeers_hasResult : HasResult (withoutPeers o map result) :=
  ⟨_, _, rfl, Members.lookup_insert_self ..⟩

theorem withoutPeers_depth (h : map.lookup "result" = some (.object result)) :
    (withoutPeers o map result).depth ≤ max (Json.object map).depth 3 := by
  have hresult : Json.depthMembers result + 1 ≤ Json.depthMembers map := Json.depth_lookup_le h
  have hinner := Json.depth_insert_le (o := o) "peers" (.array []) result
  have houter := Json.depth_insert_le (o := o) "result"
    (.object (Members.insert o "peers" (.array []) result)) map
  have hnone : (Json.array [] : Json ν).depth = 1 := rfl
  simp only [withoutPeers, Json.depth] at *
  omega

/-- The members of the output stand where those of the input did. -/
theorem withoutPeers_sameKeys {map' result' : List (String × Json ν)}
    (h : map.lookup "result" = some (.object result))
    (h' : map'.lookup "result" = some (.object result'))
    (hk : Json.SameKeys peersPath (.object map) (.object map')) :
    Json.SameKeys peersPath (withoutPeers o map result) (withoutPeers o map' result') := by
  obtain ⟨houter, hinner⟩ := hk
  refine ⟨Members.keys_insert_congr o _ _ _ houter, fun v w hv hw => ?_⟩
  rw [Members.lookup_insert_self] at hv hw
  cases hv
  cases hw
  refine ⟨Members.keys_insert_congr o _ _ _ (hinner _ _ h h').1, fun v w hv hw => ?_⟩
  rw [Members.lookup_insert_self] at hv
  cases hv
  trivial

theorem withoutPeers_eq_self (hs : (Json.object map).Ordered o)
    (h : map.lookup "result" = some (.object result))
    (hp : result.lookup "peers" = some (.array [])) : withoutPeers o map result = .object map := by
  rw [withoutPeers, Members.insert_of_lookup (hs.lookup h).members hp,
    Members.insert_of_lookup hs.members h]

end Replaced

/-! ## Sanitizing, case by case -/

theorem fromSlice_ordered_of_eq {body : Bytes} {v : Json S.Number} (h : S.fromSlice body = .ok v) :
    v.Ordered S.order := by
  obtain ⟨text, -, rfl⟩ := fromSlice_eq_ok.mp h
  exact text.collapse_ordered S.order

theorem SerdeJson.Lawful.fromSlice_depth (hS : S.Lawful) {body : Bytes} {v : Json S.Number}
    (h : S.fromSlice body = .ok v) : v.depth < recursionLimit := by
  obtain ⟨text, hread, rfl⟩ := fromSlice_eq_ok.mp h
  exact (text.depth_collapse_le S.order).trans_lt (hS.limited body text hread)

/-- What sanitizing makes of a response with a place for peers. -/
theorem sanitize_withoutPeers (hS : S.Lawful) {body : Bytes}
    {map result : List (String × Json S.Number)} (h : S.fromSlice body = .ok (.object map))
    (hr : map.lookup "result" = some (.object result)) :
    ∃ out, sanitizeInfoGetStatusResponse S body = .ok out ∧
      S.toVec (withoutPeers S.order map result) = .ok out ∧
      S.fromSlice out = .ok (withoutPeers S.order map result) := by
  have hordered := withoutPeers_ordered (fromSlice_ordered_of_eq h) hr
  have hdepth : (withoutPeers S.order map result).depth < recursionLimit :=
    (withoutPeers_depth hr).trans_lt (max_lt (hS.fromSlice_depth h) (by decide))
  obtain ⟨out, hout, hback⟩ := hS.survives _ hordered hdepth
  refine ⟨out, ?_, hout, hback⟩
  simp only [sanitizeInfoGetStatusResponse, h, resultOf_eq_some.mpr ⟨rfl, hr⟩, hout]

theorem sanitize_eq (hS : S.Lawful) {body : Bytes} {v : Json S.Number}
    (h : S.fromSlice body = .ok v) (hv : HasResult v) :
    ∃ out w, sanitizeInfoGetStatusResponse S body = .ok out ∧ S.fromSlice out = .ok w ∧
      HasResult w ∧ w.follow peersPath = some (.array []) ∧ v.SameOff peersPath w := by
  obtain ⟨map, result, rfl, hr⟩ := hv
  obtain ⟨out, hsan, -, hback⟩ := sanitize_withoutPeers hS h hr
  exact ⟨out, _, hsan, hback, withoutPeers_hasResult, withoutPeers_peers, withoutPeers_sameOff hr⟩

theorem sanitize_other {body : Bytes} {v : Json S.Number} (h : S.fromSlice body = .ok v)
    (hv : ¬ HasResult v) : sanitizeInfoGetStatusResponse S body = .ok body := by
  simp only [sanitizeInfoGetStatusResponse, h, resultOf_eq_none hv]

theorem sanitize_error {body : Bytes} {err : S.Error} (h : S.fromSlice body = .error err) :
    sanitizeInfoGetStatusResponse S body =
      .error ⟨502, "upstream RPC response is not JSON: " ++ S.display err⟩ := by
  simp only [sanitizeInfoGetStatusResponse, h]
  rfl

/-- Bodies that differ in the peers only have the same value as output, hence the same output, when
the order of the members does not tell them apart. -/
theorem sanitize_congr (hS : S.Lawful) {body₁ body₂ : Bytes} {v₁ v₂ : Json S.Number}
    (h : DifferInPeers S body₁ body₂ v₁ v₂)
    (hk : S.KeyOrdered ∨ Json.SameKeys peersPath v₁ v₂) :
    sanitizeInfoGetStatusResponse S body₁ = sanitizeInfoGetStatusResponse S body₂ := by
  obtain ⟨h₁, h₂, ⟨map₁, result₁, rfl, hr₁⟩, ⟨map₂, result₂, rfl, hr₂⟩, hoff⟩ := h
  obtain ⟨out₁, he₁, hvec₁, hback₁⟩ := sanitize_withoutPeers hS h₁ hr₁
  obtain ⟨out₂, he₂, hvec₂, hback₂⟩ := sanitize_withoutPeers hS h₂ hr₂
  have hsame := ((withoutPeers_sameOff (o := S.order) hr₁).symm.trans hoff).trans
    (withoutPeers_sameOff (o := S.order) hr₂)
  have hw : withoutPeers S.order map₁ result₁ = withoutPeers S.order map₂ result₂ :=
    Json.eq_of_sameOff (fromSlice_ordered_of_eq hback₁) (fromSlice_ordered_of_eq hback₂)
      (hk.imp_right (withoutPeers_sameKeys hr₁ hr₂)) hsame withoutPeers_peers withoutPeers_peers
  have hout : out₁ = out₂ := by
    rw [hw] at hvec₁
    exact Except.ok.inj (hvec₁.symm.trans hvec₂)
  rw [he₁, he₂, hout]

theorem sanitize_idempotent (hS : S.Lawful) {body out : Bytes}
    (h : sanitizeInfoGetStatusResponse S body = .ok out) :
    sanitizeInfoGetStatusResponse S out = .ok out := by
  cases hj : S.fromSlice body with
  | error err =>
    rw [sanitize_error hj] at h
    cases h
  | ok v =>
    by_cases hv : HasResult v
    · obtain ⟨map, result, rfl, hr⟩ := hv
      obtain ⟨out', he, hvec, hback⟩ := sanitize_withoutPeers hS hj hr
      obtain rfl := Except.ok.inj (h.symm.trans he)
      -- the peers of the output are the empty array already
      have hresult := Members.lookup_insert_self S.order "result"
        (.object (Members.insert S.order "peers" (.array []) result)) map
      have hpeers := Members.lookup_insert_self S.order "peers" (.array []) result
      obtain ⟨out', he', hvec', -⟩ := sanitize_withoutPeers hS hback hresult
      have hself : withoutPeers S.order _ _ = withoutPeers S.order map result :=
        withoutPeers_eq_self (fromSlice_ordered_of_eq hback) hresult hpeers
      rw [hself, hvec] at hvec'
      obtain rfl := Except.ok.inj hvec'
      exact he'
    · have he := sanitize_other hj hv
      obtain rfl := Except.ok.inj (h.symm.trans he)
      exact he

/-! ## Responses with peers -/

/-- A node that is a peer. -/
def peer {ν : Type} (address nodeId : String) : Json ν :=
  .object [("address", .string address), ("node_id", .string nodeId)]

/-- A status of a node with these peers. -/
def statusOf {ν : Type} (peers : List (Json ν)) : Json ν :=
  .object [("id", .null), ("jsonrpc", .string "2.0"),
    ("result", .object [("api_version", .string "2.0.0"), ("peers", .array peers),
      ("reactor_state", .string "Validate")])]

/-- A status of a node with a peer. -/
def statusWithPeers {ν : Type} : Json ν := statusOf [peer "10.0.0.1:35000" "tls:01"]

theorem statusOf_ordered {ν : Type} {o : Members.Order} {peers : List (Json ν)}
    (h : ∀ j ∈ peers, j.Ordered o) : (statusOf peers).Ordered o := by
  have hnames : ["id", "jsonrpc", "result"].Pairwise (· < ·) := by decide
  have hresult : ["api_version", "peers", "reactor_state"].Pairwise (· < ·) := by decide
  refine .object (Members.ordered_of_keys hnames) ?_
  simp only [List.forall_mem_cons]
  refine ⟨.null, .string _, .object (Members.ordered_of_keys hresult) ?_, nofun⟩
  simp only [List.forall_mem_cons]
  exact ⟨.string _, .array h, .string _, nofun⟩

theorem peer_ordered {ν : Type} {o : Members.Order} (address nodeId : String) :
    (peer address nodeId : Json ν).Ordered o := by
  have hnames : ["address", "node_id"].Pairwise (· < ·) := by decide
  refine .object (Members.ordered_of_keys hnames) ?_
  simp only [List.forall_mem_cons]
  exact ⟨.string _, .string _, nofun⟩

theorem statusWithPeers_ordered {ν : Type} {o : Members.Order} :
    (statusWithPeers : Json ν).Ordered o :=
  statusOf_ordered fun _ hj => List.mem_singleton.mp hj ▸ peer_ordered _ _

theorem statusOf_hasResult {ν : Type} (peers : List (Json ν)) : HasResult (statusOf peers) :=
  ⟨_, _, rfl, rfl⟩

theorem statusOf_sameOff {ν : Type} (peers peers' : List (Json ν)) :
    (statusOf peers).SameOff peersPath (statusOf peers') := by
  -- both are the status without peers, with peers put in their place
  have hput : ∀ peers, statusOf peers = .object (Members.insert .byKey "result" (.object
      (Members.insert .byKey "peers" (.array peers) [("api_version", .string "2.0.0"),
        ("peers", .array []), ("reactor_state", .string "Validate")])) [("id", .null),
        ("jsonrpc", .string "2.0"), ("result", .object [("api_version", .string "2.0.0"),
        ("peers", .array ([] : List (Json ν))), ("reactor_state", .string "Validate")])]) :=
    fun _ => rfl
  have hoff : ∀ peers, (statusOf ([] : List (Json ν))).SameOff peersPath (statusOf peers) := by
    intro peers
    rw [hput peers]
    exact (Json.sameOff_insert _ _ "peers" (.array peers)).insert rfl
  exact (hoff peers).symm.trans (hoff peers')

theorem statusWithPeers_depth {ν : Type} : (statusWithPeers : Json ν).depth < recursionLimit := by
  have hdepth : (statusWithPeers : Json ν).depth = 4 := rfl
  rw [hdepth]
  decide

theorem exists_sanitize_ne (hS : S.Lawful) :
    ∃ body, sanitizeInfoGetStatusResponse S body ≠ .ok body := by
  obtain ⟨body, -, hbody⟩ := hS.survives _ statusWithPeers_ordered statusWithPeers_depth
  refine ⟨body, fun h => ?_⟩
  obtain ⟨out, w, he, hback, -, hp, -⟩ := sanitize_eq hS hbody (statusOf_hasResult _)
  obtain rfl := Except.ok.inj (h.symm.trans he)
  rw [← Except.ok.inj (hbody.symm.trans hback)] at hp
  simp [statusWithPeers, statusOf, peersPath, List.lookup_cons] at hp

/-! ## The proxy -/

/-- **The peers are hidden, and nothing else.** The response to a request for `info_get_status` is
what sanitizing makes of the body that the upstream sent. -/
theorem status_hides_peers (hS : S.Lawful) :
    HidesStatusPeers S (sanitizeInfoGetStatusResponse S) ∧
      ∀ networks networkName network body map upstream status contentType reply,
        getNetwork networks networkName = .ok network → S.fromSlice body = .ok (.object map) →
        map.lookup "method" = some (.string "info_get_status") →
        upstream network.rpc body = .response status contentType (.ok reply) →
        (rpcProxy S networks upstream networkName body).result =
          (sanitizeInfoGetStatusResponse S reply).map fun out => ⟨status, contentType, out⟩ := by
  refine ⟨⟨?_, ?_, ?_, ?_, ?_, ?_⟩, ?_⟩
  · intro body v h hv
    obtain ⟨out, w, he, hback, -, hp, hoff⟩ := sanitize_eq hS h hv
    exact ⟨out, w, he, hback, hp, hoff⟩
  · intro hk body₁ body₂ v₁ v₂ h
    exact sanitize_congr hS h (.inl hk)
  · intro body₁ body₂ v₁ v₂ h hk
    exact sanitize_congr hS h (.inr hk)
  · intro body v h hv
    exact sanitize_other h hv
  · intro body err h
    exact sanitize_error h
  · intro body out h
    exact sanitize_idempotent hS h
  · intro networks networkName network body map upstream status contentType reply hn hj hm hup
    rw [rpcProxy_eq upstream hn hj hm (by simp [supportedJsonrpcMethods]), hup]
    simp only [relay, beq_self_eq_true, if_true]
    cases sanitizeInfoGetStatusResponse S reply <;> rfl

/-- A status of the same node when it has two other peers. -/
def statusWithOtherPeers {ν : Type} : Json ν :=
  statusOf [peer "10.0.0.2:35000" "tls:02", peer "10.0.0.3:35000" "tls:03"]

theorem statusWithOtherPeers_ordered {ν : Type} {o : Members.Order} :
    (statusWithOtherPeers : Json ν).Ordered o := by
  refine statusOf_ordered fun j hj => ?_
  rcases List.mem_cons.mp hj with rfl | hj
  · exact peer_ordered _ _
  · exact List.mem_singleton.mp hj ▸ peer_ordered _ _

/-- The peer is replaced, and other peers lead to the same bytes. -/
theorem status_hides_peers_text :
    (∃ out w, sanitizeInfoGetStatusResponse textJson (jsonBytes statusWithPeers) = .ok out ∧
      textJson.fromSlice out = .ok w ∧ w.follow peersPath = some (.array []) ∧
      statusWithPeers.SameOff peersPath w) ∧
    sanitizeInfoGetStatusResponse textJson (jsonBytes statusWithPeers) =
      sanitizeInfoGetStatusResponse textJson (jsonBytes statusWithOtherPeers) := by
  have h₁ : textJson.fromSlice (jsonBytes statusWithPeers) = .ok statusWithPeers :=
    fromSlice_ordered statusWithPeers_ordered (by decide)
  have h₂ : textJson.fromSlice (jsonBytes statusWithOtherPeers) = .ok statusWithOtherPeers :=
    fromSlice_ordered statusWithOtherPeers_ordered (by decide)
  have hides := (status_hides_peers textJson_lawful).1
  exact ⟨hides.replaced _ _ h₁ (statusOf_hasResult _), hides.independent rfl _ _ _ _
    ⟨h₁, h₂, statusOf_hasResult _, statusOf_hasResult _, statusOf_sameOff _ _⟩⟩

/-- A response with this result. -/
def responseOf (result : List (String × JsonText.Tree)) : JsonText.Tree :=
  .object [("result", .object result)]

theorem fromSlice_responseOf {o : Members.Order} (result : List (String × JsonText.Tree))
    (hnames : (result.map Prod.fst).Pairwise (· < ·)) (hnull : ∀ p ∈ result, p.2 = .null) :
    (textJsonOf o).fromSlice (jsonBytes (responseOf result)) = .ok (responseOf result) := by
  have hone : ["result"].Pairwise (· < ·) := by decide
  have hresult : (Json.object result).Ordered o :=
    .object (Members.ordered_of_keys hnames) fun p hp => hnull p hp ▸ .null
  have hdepth : Json.depthMembers result ≤ 0 :=
    Json.depthMembers_le.mpr fun p hp => (congrArg Json.depth (hnull p hp)).le
  refine fromSlice_ordered (.object (Members.ordered_of_keys hone) (by simpa using hresult)) ?_
  simp only [responseOf, Json.depth, Json.depthMembers, recursionLimit]
  omega

/-- **The order of the members shows.** In maps that keep the order of insertion, peers that are
missing go behind the other members, and peers that are replaced stay before them. -/
theorem status_order_shows :
    ∃ body₁ body₂ v₁ v₂, DifferInPeers (textJsonOf .byInsertion) body₁ body₂ v₁ v₂ ∧
      sanitizeInfoGetStatusResponse (textJsonOf .byInsertion) body₁ ≠
        sanitizeInfoGetStatusResponse (textJsonOf .byInsertion) body₂ := by
  have h₁ := fromSlice_responseOf (o := .byInsertion) [("uptime", .null)]
    (List.pairwise_singleton _ _) (by simp)
  have hnames : ["peers", "uptime"].Pairwise (· < ·) := by decide
  have h₂ := fromSlice_responseOf (o := .byInsertion) [("peers", .null), ("uptime", .null)]
    hnames (by simp)
  have hput : responseOf [("peers", .null), ("uptime", .null)] = .object (Members.insert .byKey
      "result" (.object (Members.insert .byKey "peers" .null [("uptime", .null)]))
        [("result", .object [("uptime", .null)])]) := rfl
  have hoff : (responseOf [("uptime", .null)]).SameOff peersPath
      (responseOf [("peers", .null), ("uptime", .null)]) := by
    rw [hput]
    exact (Json.sameOff_insert _ _ "peers" .null).insert rfl
  refine ⟨_, _, _, _, ⟨h₁, h₂, ⟨_, _, rfl, rfl⟩, ⟨_, _, rfl, rfl⟩, hoff⟩, fun h => ?_⟩
  obtain ⟨out₁, he₁, -, hback₁⟩ := sanitize_withoutPeers (textJsonOf_lawful _) h₁ rfl
  obtain ⟨out₂, he₂, -, hback₂⟩ := sanitize_withoutPeers (textJsonOf_lawful _) h₂ rfl
  obtain rfl := Except.ok.inj ((he₁.symm.trans h).trans he₂)
  have hsame := Except.ok.inj (hback₁.symm.trans hback₂)
  simp [withoutPeers, Members.insert, textJsonOf] at hsame

end CasperNodeProxy
