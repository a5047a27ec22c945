import CasperNodeProxy.Http.Metrics
import CasperNodeProxy.Http.Router
import CasperNodeProxy.Rpc.Proxy

/-!
# Metrics and routes

The router hands the name of the network to its handlers with the escapes decoded; the labels of the
HTTP metrics are read off the path as it came in.

* `Attributed`: the labels of a path are the network and the endpoint that serve it.
* `Escaped`: the network in a path has an escape; `networkFromPath_eq_iff`.
* **`attributed_iff`**: of a path that is routed, the first holds exactly if the second does not,
  and the endpoint is right in any case.
* **`rpc_series_agree_iff`**: when the two kinds of series of a JSON-RPC request name one network.
-/

namespace CasperNodeProxy

open Segments

/-- The name of the route of a handler. -/
def Handler.endpoint : Handler → String
  | .networkRoot => "root"
  | .rpcProxy => "rpc"
  | .eventsHandler => "events"
  | .binaryWs => "binary"

/-- If a route matches, the labels of the path are the network that the handler receives and the
endpoint of the route. -/
def Attributed (A : Axum) (path : String) : Prop :=
  ∀ r params, A.findRoute routes path = some (r, params) →
    (∀ name, A.extractPath params = some name → networkFromPath path = name) ∧
      endpointFromPath path = r.handler.endpoint

/-- The network in the path has an escape, and its escapes decode to a text. -/
def Escaped (path : String) : Prop :=
  ∃ text ∈ (split path '/')[1]?,
    Percent.HasEscape (Percent.utf8 text) ∧ (Percent.decodeText text).isSome

instance (path : String) : Decidable (Escaped path) := by unfold Escaped; infer_instance

/-! ## The labels of a path that is routed -/

theorem significant_of_split {path name segment : String}
    (h : split path '/' = ["", name, segment]) (hname : name ≠ "") :
    significant path = [name, segment] := by
  have hne : name.isEmpty = false := by simpa using hname
  rw [significant, h, List.dropWhile_cons_of_pos rfl,
    List.dropWhile_cons_of_neg (by rw [hne]; exact Bool.false_ne_true)]

theorem endpointOf_segment (handler : Handler) :
    endpointOf (some handler.segment) = handler.endpoint := by
  cases handler <;> rfl

variable {A : Axum} {path : String} {r : MethodRouter} {params : List (String × String)}

/-- **The labels**: the network as it stands in the path, and the endpoint of the route. -/
theorem labels_of_routed (hA : A.Lawful) (h : A.findRoute routes path = some (r, params)) :
    ∃ text, (split path '/')[1]? = some text ∧ networkFromPath path = text ∧
      endpointFromPath path = r.handler.endpoint ∧
      A.extractPath params = Percent.decodeText text := by
  obtain ⟨-, text, htext, hsplit, rfl⟩ := (findRoute_iff hA).mp h
  have hsig := significant_of_split hsplit htext
  refine ⟨text, by rw [hsplit]; rfl, ?_, ?_, hA.extracts _ _⟩
  · rw [networkFromPath_eq, hsig]
    rfl
  · rw [endpointFromPath_eq, hsig]
    exact endpointOf_segment r.handler

/-- The network that the handler receives is the label exactly if no escape was decoded. -/
theorem networkFromPath_eq_iff (hA : A.Lawful) (h : A.findRoute routes path = some (r, params))
    {name : String} (hn : A.extractPath params = some name) :
    networkFromPath path = name ↔ ¬ Escaped path := by
  obtain ⟨text, htext, hnet, -, hex⟩ := labels_of_routed hA h
  rw [hex] at hn
  have hescaped : Escaped path ↔ Percent.HasEscape (Percent.utf8 text) := by
    constructor
    · rintro ⟨text', htext', he, -⟩
      cases htext.symm.trans htext'
      exact he
    · intro he
      exact ⟨text, htext, he, by rw [hn]; rfl⟩
  rw [hnet, hescaped, ← Percent.decodeText_eq_some_self_iff, hn, Option.some.injEq]
  exact eq_comm

/-- **Which requests are attributed to the network that serves them**; the endpoint is right for
all of them. -/
theorem attributed_iff (hA : A.Lawful) (h : A.findRoute routes path = some (r, params)) :
    (Attributed A path ↔ ¬ Escaped path) ∧ endpointFromPath path = r.handler.endpoint := by
  obtain ⟨text, htext, -, hendpoint, hex⟩ := labels_of_routed hA h
  refine ⟨⟨fun hatt hesc => ?_, fun hno r' params' h' => ?_⟩, hendpoint⟩
  · obtain ⟨text', htext', -, hsome⟩ := id hesc
    cases htext.symm.trans htext'
    obtain ⟨name, hname⟩ := Option.isSome_iff_exists.mp hsome
    have hn : A.extractPath params = some name := hex.trans hname
    exact (networkFromPath_eq_iff hA h hn).mp ((hatt r params h).1 name hn) hesc
  · cases h.symm.trans h'
    exact ⟨fun name hn => (networkFromPath_eq_iff hA h hn).mpr hno, hendpoint⟩

theorem attributed_iff_mainnet :
    Attributed segmentAxum "/mainnet/rpc" ∧ endpointFromPath "/mainnet/rpc" = "rpc" := by
  have hroute : segmentAxum.findRoute routes "/mainnet/rpc" =
      some (.post .rpcProxy, [("network_name", "mainnet")]) := by decide
  obtain ⟨hiff, hendpoint⟩ := attributed_iff segmentAxum_lawful hroute
  exact ⟨hiff.mpr (by decide), hendpoint⟩

/-- **A network under two names.** The space in its name has to be escaped in a path. -/
theorem network_renamed :
    segmentAxum.findRoute routes "/casper%20test/rpc" =
      some (.post .rpcProxy, [("network_name", "casper%20test")]) ∧
    segmentAxum.extractPath [("network_name", "casper%20test")] = some "casper test" ∧
    networkFromPath "/casper%20test/rpc" = "casper%20test" ∧
    ¬ Attributed segmentAxum "/casper%20test/rpc" := by
  have hroute : segmentAxum.findRoute routes "/casper%20test/rpc" =
      some (.post .rpcProxy, [("network_name", "casper%20test")]) := by decide
  have hname : segmentAxum.extractPath [("network_name", "casper%20test")] =
      some "casper test" := by decide
  have hlabel : networkFromPath "/casper%20test/rpc" = "casper%20test" := by decide
  refine ⟨hroute, hname, hlabel, fun hatt => ?_⟩
  have heq := (hatt _ _ hroute).1 _ hname
  rw [hlabel] at heq
  exact absurd heq (by decide)

/-! ## The series of a JSON-RPC request -/

/-- **The two kinds of series of a JSON-RPC request** name one network exactly if the network in its
path has no escape. -/
theorem rpc_series_agree_iff (hA : A.Lawful) {ρ : Type*} {status : ρ → ℕ} {next : HttpRequest → ρ}
    {req : HttpRequest} (h : A.findRoute routes req.path = some (r, params)) {name : String}
    (hn : A.extractPath params = some name) {S : SerdeJson}
    {networks : List (String × NetworkConfig)} {upstream : String → Wire.Bytes → UpstreamReply}
    {body : Wire.Bytes} {http : HttpCount} (hhttp : http ∈ (trackHttp status next req).1)
    {rpc : RpcCount} (hrpc : rpc ∈ (rpcProxy S networks upstream name body).counts) :
    http.network = rpc.network ↔ ¬ Escaped req.path := by
  rw [(mem_trackHttp hhttp).1, rpcProxy_counts hrpc]
  exact networkFromPath_eq_iff hA h hn

end CasperNodeProxy
