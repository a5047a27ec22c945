import CasperNodeProxy.Rpc.Status

/-!
# The method allowlist and the bytes that are posted

The decision is made on the parsed request, in which the last of repeated members stays; the bytes
that are posted still have all of them.

* `fromSlice_object`: the method that the proxy decides on is the last one of the text.
* `AllowlistHolds`: every method that a reader of the text may select is allowed, is the one that
  the proxy decided on, and is sanitized if it has to be.
* `Agreeing`: a condition on the methods in the text.
* **`allowlist_iff`**: of a request that is posted, the first holds exactly under the second.
-/

namespace CasperNodeProxy

open Wire

/-- The values of all members `method` of a JSON object, in the order of the text. -/
def methodMembers {ν : Type} (members : List (String × Json ν)) : List (Json ν) :=
  Members.values "method" members

variable (S : SerdeJson)

/-- The response body is always what sanitizing makes of the body that came from the upstream. -/
def ResponseSanitized (networks : List (String × NetworkConfig)) (networkName : String)
    (body : Bytes) : Prop :=
  ∀ upstream response, (rpcProxy S networks upstream networkName body).result = .ok response →
    ∃ url status contentType reply,
      upstream url body = .response status contentType (.ok reply) ∧
      sanitizeInfoGetStatusResponse S reply = .ok response.body

/-- What the allowlist promises of a body, of which these are the members. -/
structure AllowlistHolds (networks : List (String × NetworkConfig)) (networkName : String)
    (body : Bytes) (members : List (String × Json S.Number)) : Prop where
  supported : ∀ v ∈ methodMembers members, ∃ m ∈ supportedJsonrpcMethods, v = .string m
  sanitized : .string "info_get_status" ∈ methodMembers members →
    ResponseSanitized S networks networkName body
  selected : ∀ v, (methodMembers members).head? = some v ∨
      (methodMembers members).getLast? = some v →
    ∃ m ∈ supportedJsonrpcMethods, v = .string m ∧ ∀ upstream,
      (rpcProxy S networks upstream networkName body).counts.head? =
        some (.jsonrpcMethod networkName m)

/-- The first method of the text is the same as the last, and each one that is not the same as the
last is a supported one that needs no sanitizing. -/
def Agreeing {ν : Type} (methods : List (Json ν)) : Prop :=
  methods.head? = methods.getLast? ∧ ∀ v ∈ methods, some v = methods.getLast? ∨
    ∃ m ∈ supportedJsonrpcMethods, m ≠ "info_get_status" ∧ v = .string m

variable {S}

/-! ## The text of a request -/

theorem collapse_eq_string {ν : Type} {o : Members.Order} {j : Json ν} {s : String}
    (h : j.collapse o = .string s) : j = .string s := by
  cases j with
  | string t => exact h
  | _ => cases h

/-- **The proxy decides on the last method of the text.** -/
theorem fromSlice_object {body : Bytes} {map : List (String × Json S.Number)} {method : String}
    (h : S.fromSlice body = .ok (.object map)) (hm : map.lookup "method" = some (.string method)) :
    ∃ members, S.read body = .ok (.object members) ∧
      (methodMembers members).getLast? = some (.string method) := by
  obtain ⟨text, hr, hcollapse⟩ := fromSlice_eq_ok.mp h
  cases text with
  | object members =>
    cases hcollapse
    rw [Json.lookup_collapseMembers] at hm
    obtain ⟨v, hv, hcol⟩ := Option.map_eq_some_iff.mp hm
    obtain rfl := collapse_eq_string hcol
    exact ⟨members, hr, (Members.lookup_reverse _ _).symm.trans hv⟩
  | _ => cases hcollapse

/-! ## When a response is sanitized -/

section Decided

variable {networks : List (String × NetworkConfig)} {networkName : String} {body : Bytes}
  {network : NetworkConfig} {map : List (String × Json S.Number)} {method : String}
  (hn : getNetwork networks networkName = .ok network)
  (hj : S.fromSlice body = .ok (.object map))
  (hm : map.lookup "method" = some (.string method)) (hs : method ∈ supportedJsonrpcMethods)

include hn hj hm hs

/-- **Exactly the responses to `info_get_status` are sanitized.** -/
theorem responseSanitized_iff (hS : S.Lawful) :
    ResponseSanitized S networks networkName body ↔ method = "info_get_status" := by
  constructor
  · intro h
    by_contra hne
    obtain ⟨u, hu⟩ := exists_sanitize_ne hS
    have hrun := rpcProxy_eq (fun _ _ => .response 200 none (.ok u)) hn hj hm hs
    rw [beq_false_of_ne hne] at hrun
    obtain ⟨_, _, _, reply, hreply, hsan⟩ := h _ ⟨200, none, u⟩ (by rw [hrun]; rfl)
    cases hreply
    exact hu hsan
  · rintro rfl upstream response hresult
    rw [rpcProxy_eq upstream hn hj hm hs] at hresult
    cases hup : upstream network.rpc body with
    | sendError err =>
      rw [hup] at hresult
      cases hresult
    | response status contentType reply =>
      refine ⟨network.rpc, status, contentType, ?_⟩
      rw [hup] at hresult ⊢
      cases reply with
      | error err => cases hresult
      | ok reply =>
        refine ⟨reply, rfl, ?_⟩
        simp only [relay, beq_self_eq_true, if_true] at hresult
        cases hsan : sanitizeInfoGetStatusResponse S reply with
        | error err =>
          rw [hsan] at hresult
          cases hresult
        | ok out =>
          rw [hsan] at hresult
          cases hresult
          rfl

theorem posted_supported (upstream : String → Bytes → UpstreamReply) :
    (rpcProxy S networks upstream networkName body).posted = some (network.rpc, body) := by
  rw [rpcProxy_eq upstream hn hj hm hs]

theorem counts_head (upstream : String → Bytes → UpstreamReply) :
    (rpcProxy S networks upstream networkName body).counts.head? =
      some (.jsonrpcMethod networkName method) := by
  rw [rpcProxy_eq upstream hn hj hm hs]
  rfl

end Decided

/-- **The allowlist and repeated methods.** A request that is posted is posted as it came, and is a
JSON object. The allowlist holds of its text if and only if the methods in it agree. -/
theorem allowlist_iff (hS : S.Lawful) {networks : List (String × NetworkConfig)}
    {upstream : String → Bytes → UpstreamReply} {networkName url : String} {body posted : Bytes}
    (h : (rpcProxy S networks upstream networkName body).posted = some (url, posted)) :
    posted = body ∧ ∃ members, S.read posted = .ok (.object members) ∧
      (AllowlistHolds S networks networkName posted members ↔
        Agreeing (methodMembers members)) := by
  obtain ⟨rfl, network, map, method, hn, -, hj, hm, hs⟩ := rpcProxy_posted h
  obtain ⟨members, hread, hlast⟩ := fromSlice_object hj hm
  have hcount := counts_head hn hj hm hs
  have hsan := responseSanitized_iff hn hj hm hs hS
  refine ⟨rfl, members, hread, fun hall => ⟨?_, fun v hv => ?_⟩, fun hag => ⟨?_, ?_, ?_⟩⟩
  · cases hhead : (methodMembers members).head? with
    | none =>
      rw [List.head?_eq_none_iff.mp hhead] at hlast
      cases hlast
    | some v =>
      obtain ⟨m, -, rfl, hm'⟩ := hall.selected v (.inl hhead)
      have hsame := (hcount upstream).symm.trans (hm' upstream)
      simp only [Option.some.injEq, RpcCount.jsonrpcMethod.injEq, true_and] at hsame
      rw [hlast, hsame]
  · obtain ⟨m, hm', rfl⟩ := hall.supported v hv
    by_cases hstatus : m = "info_get_status"
    · rw [hstatus] at hv
      rw [hlast, hsan.mp (hall.sanitized hv), hstatus]
      exact .inl rfl
    · exact .inr ⟨m, hm', hstatus, rfl⟩
  · intro v hv
    rcases hag.2 v hv with hv | ⟨m, hm', -, rfl⟩
    · rw [hlast] at hv
      exact ⟨method, hs, Option.some.inj hv⟩
    · exact ⟨m, hm', rfl⟩
  · intro hv
    rw [hsan]
    rcases hag.2 _ hv with hv | ⟨m, -, hne, hv⟩
    · rw [hlast] at hv
      exact (Json.string.inj (Option.some.inj hv)).symm
    · exact absurd (Json.string.inj hv).symm hne
  · intro v hv
    rw [hag.1, or_self, hlast] at hv
    exact ⟨method, hs, (Option.some.inj hv).symm, hcount⟩

/-! ## A request with two methods -/

/-- The row of one network. -/
def testnetConfig : NetworkConfig := ⟨"testnet", "casper-test", "http://127.0.0.1:7777/rpc"⟩

/-- That network, under its name. -/
def testnet : List (String × NetworkConfig) := [("testnet", testnetConfig)]

/-- The members of a request with these methods. -/
def withMethods (methods : List String) : List (String × JsonText.Tree) :=
  methods.map fun m => ("method", .string m)

/-- The text of such a request. -/
def requestOf (methods : List String) : Bytes := jsonBytes (.object (withMethods methods))

theorem getNetwork_testnet : getNetwork testnet "testnet" = .ok testnetConfig := by
  simp [getNetwork, testnet]

theorem methodMembers_withMethods (methods : List String) :
    methodMembers (withMethods methods) = methods.map Json.string := by
  simp only [methodMembers, Members.values, withMethods, List.filterMap_map]
  rw [← List.filterMap_eq_map]
  exact List.filterMap_congr fun m _ => by simp

theorem depth_withMethods (methods : List String) :
    (Json.object (withMethods methods)).depth < recursionLimit := by
  have hflat : Json.depthMembers (withMethods methods) ≤ 0 := by
    refine Json.depthMembers_le.mpr fun p hp => ?_
    obtain ⟨m, -, rfl⟩ := List.mem_map.mp hp
    exact le_rfl
  simp only [Json.depth, recursionLimit]
  omega

theorem read_requestOf (methods : List String) :
    textJson.read (requestOf methods) = .ok (.object (withMethods methods)) :=
  read_jsonBytes (depth_withMethods methods)

theorem posted_requestOf {methods : List String} {m : String} (h : methods.getLast? = some m)
    (hm : m ∈ supportedJsonrpcMethods) (upstream : String → Bytes → UpstreamReply) :
    (rpcProxy textJson testnet upstream "testnet" (requestOf methods)).posted =
      some ("http://127.0.0.1:7777/rpc", requestOf methods) := by
  have hlookup : (Members.collect .byKey (Json.collapseMembers .byKey
      (withMethods methods))).lookup "method" = some (.string m) := by
    have hlast : (methodMembers (withMethods methods)).getLast? = some (.string m) := by
      rw [methodMembers_withMethods, List.getLast?_map, h]
      rfl
    rw [Json.lookup_collapseMembers, Members.lookup_reverse]
    exact congrArg (Option.map (Json.collapse .byKey)) hlast
  have hread := fromSlice_jsonBytes (o := .byKey) (depth_withMethods methods)
  exact posted_supported getNetwork_testnet hread hlookup hm upstream

/-- Three methods, of which the first and the last are the same. -/
def threeMethods : List String := ["chain_get_block", "query_balance", "chain_get_block"]

theorem allowlist_iff_threeMethods :
    requestOf threeMethods = requestOf threeMethods ∧
      ∃ members, textJson.read (requestOf threeMethods) = .ok (.object members) ∧
        (AllowlistHolds textJson testnet "testnet" (requestOf threeMethods) members ↔
          Agreeing (methodMembers members)) := by
  have hlast : threeMethods.getLast? = some "chain_get_block" := rfl
  have hposted := posted_requestOf hlast (by simp [supportedJsonrpcMethods])
    fun _ _ => .sendError ""
  exact allowlist_iff textJson_lawful hposted

/-- **A request with two methods.** The proxy decides on `info_get_status`, and posts a text in
which `info_get_peers` comes first. -/
theorem peers_posted :
    (rpcProxy textJson testnet (fun _ _ => .sendError "") "testnet"
        (requestOf ["info_get_peers", "info_get_status"])).posted =
      some ("http://127.0.0.1:7777/rpc", requestOf ["info_get_peers", "info_get_status"]) ∧
    textJson.read (requestOf ["info_get_peers", "info_get_status"]) =
      .ok (.object (withMethods ["info_get_peers", "info_get_status"])) ∧
    ¬ AllowlistHolds textJson testnet "testnet" (requestOf ["info_get_peers", "info_get_status"])
      (withMethods ["info_get_peers", "info_get_status"]) := by
  refine ⟨posted_requestOf rfl (by simp [supportedJsonrpcMethods]) _, read_requestOf _, ?_⟩
  intro h
  have hmem : (Json.string "info_get_peers" : JsonText.Tree) ∈
      methodMembers (withMethods ["info_get_peers", "info_get_status"]) := by
    rw [methodMembers_withMethods]
    exact List.mem_cons_self
  obtain ⟨m, hm, he⟩ := h.supported _ hmem
  obtain rfl := Json.string.inj he
  simp [supportedJsonrpcMethods] at hm

end CasperNodeProxy
