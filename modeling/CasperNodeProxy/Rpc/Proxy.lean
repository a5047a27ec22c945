import CasperNodeProxy.Lib.Json
import CasperNodeProxy.Lib.Wire

/-!
# The JSON-RPC proxy

`rpc_proxy` checks the method of a request, posts the request to the upstream node and relays the
answer, with the peers taken out of the answer to `info_get_status`.

* `SerdeJson`, `SerdeJson.Lawful`: what the proxy uses of `serde_json`, which is not part of the
  repository, as a parameter.
* `sanitizeInfoGetStatusResponse`, `rpcProxy`: the two functions, and what a request did.
* `rpcProxy_posted`: the requests that are posted.
* `rpcProxy_counts`: the network that a request is counted under.
-/

namespace CasperNodeProxy

open Wire

/-! ## `serde_json` as a parameter -/

/-- Texts that nest this deep are refused. -/
def recursionLimit : ℕ := 128

/-- What is used of `serde_json`. -/
structure SerdeJson where
  /-- The numbers that a text can stand for. -/
  Number : Type
  Error : Type
  /-- Where `Map` keeps its members: in the order of the keys, or (`preserve_order`) of
  insertion. -/
  order : Members.Order
  /-- The number of an `i32`. -/
  number : ℤ → Number
  /-- The tree that a JSON text stands for, with its members in the order of the text. -/
  read : Bytes → Except Error (Json Number)
  /-- `serde_json::to_vec`. -/
  toVec : Json Number → Except Error Bytes
  /-- `Value::to_string`. -/
  toString : Json Number → Bytes
  /-- The message of an error. -/
  display : Error → String

namespace SerdeJson

variable (S : SerdeJson)

/-- `serde_json::from_slice` into a `Value`: of repeated members the last one stays. -/
def fromSlice (body : Bytes) : Except S.Error (Json S.Number) :=
  (S.read body).map (Json.collapse S.order)

/-- The assumption that maps are key-ordered. It fails where `preserve_order` is on. -/
def KeyOrdered : Prop := S.order = .byKey

/-- Documented behaviour of `serde_json`: a text is read up to the recursion limit, and a value
within it survives `to_vec` and `from_slice`. -/
structure Lawful : Prop where
  limited : ∀ body t, S.read body = .ok t → t.depth < recursionLimit
  survives : ∀ v : Json S.Number, v.Ordered S.order → v.depth < recursionLimit →
    ∃ bytes, S.toVec v = .ok bytes ∧ S.fromSlice bytes = .ok v

end SerdeJson

/-- `Value::as_str`. -/
def Json.asStr {ν : Type} : Json ν → Option String
  | .string s => some s
  | _ => none

/-! ## Requests and responses -/

/-- An error of a handler: its status and its message. -/
structure AppError where
  status : ℕ
  message : String
  deriving DecidableEq, Repr

/-- `AppError::not_found`. -/
def AppError.notFound (message : String) : AppError := ⟨404, message⟩

/-- `AppError::bad_gateway`. -/
def AppError.badGateway (message : String) : AppError := ⟨502, message⟩

/-- A response, as far as the handlers set it. -/
structure Response where
  status : ℕ
  contentType : Option Bytes
  body : Bytes
  deriving DecidableEq

/-- The content type of JSON. -/
def applicationJson : Bytes := "application/json".toByteArray.data.toList

/-- The row of a network, as far as the handlers read it. -/
structure NetworkConfig where
  networkName : String
  chainName : String
  rpc : String

/-- `get_network`. -/
def getNetwork (networks : List (String × NetworkConfig)) (name : String) :
    Except AppError NetworkConfig :=
  match networks.lookup name with
  | some network => .ok network
  | none => .error (.notFound ("unknown network: " ++ name))

/-- What the upstream does with a request that is posted to it. -/
inductive UpstreamReply
  | sendError (err : String)
  | response (status : ℕ) (contentType : Option Bytes) (body : Except String Bytes)

/-- The counters that a request increments. -/
inductive RpcCount
  | jsonrpcMethod (network method : String)
  | rpcUpstreamError (network : String)
  | rpcUpstreamNonSuccess (network : String) (status : ℕ)
  deriving DecidableEq, Repr

/-- What a request did: its counts, what it posted where, and its result. -/
structure RpcRun where
  counts : List RpcCount
  posted : Option (String × Bytes)
  result : Except AppError Response

/-- `SUPPORTED_JSONRPC_METHODS`; `info_get_peers` is not among them. -/
def supportedJsonrpcMethods : List String :=
  ["account_put_deploy",
    "account_put_transaction",
    "chain_get_block",
    "chain_get_block_transfers",
    "chain_get_era_info_by_switch_block",
    "chain_get_era_summary",
    "chain_get_state_root_hash",
    "info_get_chainspec",
    "info_get_deploy",
    "info_get_reward",
    "info_get_status",
    "info_get_transaction",
    "info_get_validator_changes",
    "query_balance",
    "query_balance_details",
    "query_global_state",
    "speculative_exec",
    "speculative_exec_txn",
    "state_get_account_info",
    "state_get_auction_info",
    "state_get_auction_info_v2",
    "state_get_balance",
    "state_get_dictionary_item",
    "state_get_entity",
    "state_get_item",
    "state_get_package",
    "state_get_trie"]

/-- `is_supported_jsonrpc_method`. -/
def isSupportedJsonrpcMethod (method : String) : Bool :=
  supportedJsonrpcMethods.any fun known => known == method

/-! ## The proxy -/

variable (S : SerdeJson)

/-- `jsonrpc_error_response`, which has the status 200. -/
def jsonrpcErrorResponse (id : Json S.Number) (code : ℤ) (message : String) : Response :=
  let error : Json S.Number := .object (Members.collect S.order
    [("code", .number (S.number code)), ("message", .string message)])
  let payload : Json S.Number := .object (Members.collect S.order
    [("jsonrpc", .string "2.0"), ("id", id), ("error", error)])
  ⟨200, some applicationJson, S.toString payload⟩

/-- The method of a request, or the answer to a request that has no supported one. -/
def rpcMethod : Json S.Number → Except Response String
  | .object map =>
    let id := (map.lookup "id").getD .null
    match (map.lookup "method").bind Json.asStr with
    | none => .error (jsonrpcErrorResponse S .null (-32600) "Invalid Request")
    | some method =>
      if !isSupportedJsonrpcMethod method then
        .error (jsonrpcErrorResponse S id (-32601) "Method not found")
      else .ok method
  | _ => .error (jsonrpcErrorResponse S .null (-32600) "Invalid Request")

/-- The members and the `result` of a response, when it is an object with an object as result. -/
def resultOf {ν : Type} :
    Json ν → Option (List (String × Json ν) × List (String × Json ν))
  | .object map =>
    match map.lookup "result" with
    | some (.object result) => some (map, result)
    | _ => none
  | _ => none

/-- The response with its peers replaced by the empty array. -/
def withoutPeers {ν : Type} (o : Members.Order) (map result : List (String × Json ν)) : Json ν :=
  .object (Members.insert o "result" (.object (Members.insert o "peers" (.array []) result)) map)

/-- `sanitize_info_get_status_response`: a body without a result object stays as it is. -/
def sanitizeInfoGetStatusResponse (body : Bytes) : Except AppError Bytes :=
  match S.fromSlice body with
  | .error err => .error (.badGateway ("upstream RPC response is not JSON: " ++ S.display err))
  | .ok value =>
    match resultOf value with
    | none => .ok body
    | some (map, result) =>
      match S.toVec (withoutPeers S.order map result) with
      | .error err =>
        .error (.badGateway ("failed to encode JSON-RPC response: " ++ S.display err))
      | .ok bytes => .ok bytes

/-- The end of `rpc_proxy`, from the reply of the upstream on. -/
def relay (networkName : String) (sanitizeStatus : Bool) :
    UpstreamReply → List RpcCount × Except AppError Response
  | .sendError err =>
    ([.rpcUpstreamError networkName], .error (.badGateway ("upstream RPC error: " ++ err)))
  | .response status contentType body =>
    let counts := if 200 ≤ status ∧ status < 300 then []
      else [.rpcUpstreamNonSuccess networkName status]
    match body with
    | .error err => (counts, .error (.badGateway ("upstream body error: " ++ err)))
    | .ok body =>
      match if sanitizeStatus then sanitizeInfoGetStatusResponse S body else .ok body with
      | .error err => (counts, .error err)
      | .ok body => (counts, .ok ⟨status, contentType, body⟩)

/-- `rpc_proxy`: the request is posted as the bytes that came in, not as the value they were parsed
to. -/
def rpcProxy (networks : List (String × NetworkConfig)) (upstream : String → Bytes → UpstreamReply)
    (networkName : String) (body : Bytes) : RpcRun :=
  match getNetwork networks networkName with
  | .error err => ⟨[], none, .error err⟩
  | .ok network =>
    match S.fromSlice body with
    | .error _ => ⟨[], none, .ok (jsonrpcErrorResponse S .null (-32700) "Parse error")⟩
    | .ok json =>
      match rpcMethod S json with
      | .error response => ⟨[], none, .ok response⟩
      | .ok method =>
        let reply := relay S networkName (method == "info_get_status") (upstream network.rpc body)
        ⟨.jsonrpcMethod networkName method :: reply.1, some (network.rpc, body), reply.2⟩

/-! ## What is posted -/

variable {S}

theorem fromSlice_eq_ok {body : Bytes} {v : Json S.Number} :
    S.fromSlice body = .ok v ↔ ∃ text, S.read body = .ok text ∧ text.collapse S.order = v := by
  unfold SerdeJson.fromSlice
  cases S.read body with
  | error err => simp [Except.map]
  | ok text => simp [Except.map]

theorem isSupportedJsonrpcMethod_iff {method : String} :
    isSupportedJsonrpcMethod method = true ↔ method ∈ supportedJsonrpcMethods := by
  simp only [isSupportedJsonrpcMethod, List.any_eq_true, beq_iff_eq, exists_eq_right]

theorem rpcMethod_eq_ok {json : Json S.Number} {method : String} :
    rpcMethod S json = .ok method ↔ ∃ map, json = .object map ∧
      map.lookup "method" = some (.string method) ∧ method ∈ supportedJsonrpcMethods := by
  constructor
  · intro h
    cases json with
    | object map =>
      simp only [rpcMethod] at h
      split at h
      · cases h
      · next m hm =>
        split_ifs at h with hs
        cases h
        obtain ⟨v, hv, hstr⟩ := Option.bind_eq_some_iff.mp hm
        cases v with
        | string s =>
          cases hstr
          exact ⟨map, rfl, hv, isSupportedJsonrpcMethod_iff.mp (by simpa using hs)⟩
        | _ => cases hstr
    | _ => cases h
  · rintro ⟨map, rfl, hm, hs⟩
    simp only [rpcMethod, hm, Option.bind_some, Json.asStr, isSupportedJsonrpcMethod_iff.mpr hs]
    rfl

/-- **The requests that are posted.** -/
theorem rpcProxy_posted {networks : List (String × NetworkConfig)}
    {upstream : String → Bytes → UpstreamReply} {networkName url : String} {body posted : Bytes}
    (h : (rpcProxy S networks upstream networkName body).posted = some (url, posted)) :
    posted = body ∧ ∃ network map method, getNetwork networks networkName = .ok network ∧
      url = network.rpc ∧ S.fromSlice body = .ok (.object map) ∧
      map.lookup "method" = some (.string method) ∧ method ∈ supportedJsonrpcMethods := by
  unfold rpcProxy at h
  split at h
  · cases h
  · next network hn =>
    split at h
    · cases h
    · next json hj =>
      split at h
      · cases h
      · next method hm =>
        cases h
        obtain ⟨map, rfl, hlookup, hs⟩ := rpcMethod_eq_ok.mp hm
        exact ⟨rfl, network, map, method, hn, rfl, hj, hlookup, hs⟩

/-- What a request does whose method is supported. -/
theorem rpcProxy_eq {networks : List (String × NetworkConfig)}
    (upstream : String → Bytes → UpstreamReply) {networkName : String} {body : Bytes}
    {network : NetworkConfig} {map : List (String × Json S.Number)} {method : String}
    (hn : getNetwork networks networkName = .ok network) (hj : S.fromSlice body = .ok (.object map))
    (hm : map.lookup "method" = some (.string method)) (hs : method ∈ supportedJsonrpcMethods) :
    rpcProxy S networks upstream networkName body =
      let reply := relay S networkName (method == "info_get_status") (upstream network.rpc body)
      ⟨.jsonrpcMethod networkName method :: reply.1, some (network.rpc, body), reply.2⟩ := by
  have hr : rpcMethod S (.object map) = .ok method := rpcMethod_eq_ok.mpr ⟨map, rfl, hm, hs⟩
  simp only [rpcProxy, hn, hj, hr]

/-! ## What is counted -/

/-- The label `network` of a series. -/
def RpcCount.network : RpcCount → String
  | .jsonrpcMethod network _ | .rpcUpstreamError network | .rpcUpstreamNonSuccess network _ =>
    network

theorem relay_counts {networkName : String} {sanitizeStatus : Bool} {reply : UpstreamReply}
    {count : RpcCount}
    (h : count ∈ (relay S networkName sanitizeStatus reply).1) : count.network = networkName := by
  have hcounts : ∀ status : ℕ, count ∈ (if 200 ≤ status ∧ status < 300 then []
      else [RpcCount.rpcUpstreamNonSuccess networkName status]) → count.network = networkName := by
    intro status hmem
    split_ifs at hmem
    · cases hmem
    · cases List.mem_singleton.mp hmem
      rfl
  unfold relay at h
  split at h
  · cases List.mem_singleton.mp h
    rfl
  · next status contentType body =>
    dsimp only at h
    split at h
    · exact hcounts status h
    · split at h
      · exact hcounts status h
      · exact hcounts status h

/-- All counts of `rpc_proxy` are under the name that it received. -/
theorem rpcProxy_counts {networks : List (String × NetworkConfig)}
    {upstream : String → Bytes → UpstreamReply} {networkName : String} {body : Bytes}
    {count : RpcCount} (h : count ∈ (rpcProxy S networks upstream networkName body).counts) :
    count.network = networkName := by
  unfold rpcProxy at h
  split at h
  · cases h
  · split at h
    · cases h
    · split at h
      · cases h
      · rcases List.mem_cons.mp h with rfl | h
        · rfl
        · exact relay_counts h

end CasperNodeProxy
