import CasperNodeProxy.Lib.Segments

/-!
# The labels of the HTTP metrics

`track_http` reads the network and the endpoint of a request off its path, without the router.

* `networkFromPath`, `endpointFromPath`, `httpObserve`, `trackHttp`: what is counted.
* `significant`: the segments of a path from the first one on that is not empty;
  **`networkFromPath_eq`**, **`endpointFromPath_eq`**: both labels in terms of them, for every path.
* **`mem_trackHttp`**: no count of a request carries other labels.
-/

namespace CasperNodeProxy

open Segments

/-! ## The labels of a path -/

/-- `GLOBAL_NETWORK`. -/
def globalNetwork : String := "global"

/-- `network_from_path`. -/
def networkFromPath (path : String) : String :=
  let trimmed := trimStart path '/'
  let candidate := (split trimmed '/').head?.getD ""
  if candidate.isEmpty then globalNetwork else candidate

/-- The endpoint for the segment after the network, if there is one. -/
def endpointOf : Option String → String
  | some "" | none => "root"
  | some "rpc" => "rpc"
  | some "events" => "events"
  | some "binary" => "binary"
  | some _ => "other"

/-- `endpoint_from_path`. -/
def endpointFromPath (path : String) : String :=
  let trimmed := trimStart path '/'
  endpointOf (split trimmed '/')[1]?

/-- The segments of a path without the empty ones in front. -/
def significant (path : String) : List String := (split path '/').dropWhile String.isEmpty

theorem significant_head {path name : String} (h : (significant path).head? = some name) :
    name.isEmpty = false := by
  have hhead := List.head?_dropWhile_not String.isEmpty (split path '/')
  rw [← significant, h] at hhead
  exact hhead

/-- **The network of every path**: its first segment that is not empty. -/
theorem networkFromPath_eq (path : String) :
    networkFromPath path = (significant path).head?.getD globalNetwork := by
  have hsplit := split_trimStart path '/'
  rw [← significant] at hsplit
  rw [networkFromPath, hsplit]
  cases hs : significant path with
  | nil => rfl
  | cons name rest =>
    have hname : name.isEmpty = false := significant_head (by rw [hs]; rfl)
    simp [hname]

/-- **The endpoint of every path**: the segment after the network. -/
theorem endpointFromPath_eq (path : String) :
    endpointFromPath path = endpointOf (significant path)[1]? := by
  have hsplit := split_trimStart path '/'
  rw [← significant] at hsplit
  rw [endpointFromPath, hsplit]
  split_ifs with hs
  · rw [hs]
    rfl
  · rfl

/-! ## The counts of a request -/

/-- What `track_http` reads of a request; the address is what `SmartIpKeyExtractor` finds. -/
structure HttpRequest where
  method : String
  path : String
  clientIp : Option String

/-- The series that a request is counted or timed in. -/
inductive HttpCount
  | httpRequests (network method endpoint : String) (status : ℕ)
  | httpRequestDuration (network method endpoint : String)
  | http429 (network endpoint : String)
  | httpRequestsByIp (network ip : String)
  deriving DecidableEq, Repr

/-- `http_observe`: the counts of a request that is answered. -/
def httpObserve (network method endpoint : String) (status : ℕ) (clientIp : Option String) :
    List HttpCount :=
  [.httpRequests network method endpoint status, .httpRequestDuration network method endpoint] ++
    (if status = 429 then [.http429 network endpoint] else []) ++
    match clientIp with
    | some ip => [.httpRequestsByIp network ip]
    | none => []

/-- `track_http`: the counts of a request and its response, from a service with responses of any
type that have a status. -/
def trackHttp {ρ : Type*} (status : ρ → ℕ) (next : HttpRequest → ρ) (req : HttpRequest) :
    List HttpCount × ρ :=
  let network := networkFromPath req.path
  let endpoint := endpointFromPath req.path
  let response := next req
  (httpObserve network req.method endpoint (status response) req.clientIp, response)

namespace HttpCount

/-- The label `network` of a series. -/
def network : HttpCount → String
  | httpRequests network _ _ _ | httpRequestDuration network _ _ | http429 network _
  | httpRequestsByIp network _ => network

/-- The label `endpoint` of a series, if it has one. -/
def endpoint : HttpCount → Option String
  | httpRequests _ _ endpoint _ | httpRequestDuration _ _ endpoint | http429 _ endpoint =>
    some endpoint
  | httpRequestsByIp _ _ => none

end HttpCount

theorem mem_httpObserve {network method endpoint : String} {status : ℕ} {clientIp : Option String}
    {count : HttpCount} (h : count ∈ httpObserve network method endpoint status clientIp) :
    count.network = network ∧ ∀ e, count.endpoint = some e → e = endpoint := by
  simp only [httpObserve, List.mem_append, List.mem_cons, List.not_mem_nil, or_false] at h
  rcases h with ((rfl | rfl) | h) | h
  · exact ⟨rfl, fun e he => (Option.some.inj he).symm⟩
  · exact ⟨rfl, fun e he => (Option.some.inj he).symm⟩
  · split_ifs at h
    · cases List.mem_singleton.mp h
      exact ⟨rfl, fun e he => (Option.some.inj he).symm⟩
    · cases h
  · cases clientIp with
    | none => cases h
    | some ip =>
      cases List.mem_singleton.mp h
      exact ⟨rfl, nofun⟩

variable {ρ : Type*} {status : ρ → ℕ} {next : HttpRequest → ρ} {req : HttpRequest}

/-- **The labels of a request** are those of its path, in all series. -/
theorem mem_trackHttp {count : HttpCount} (h : count ∈ (trackHttp status next req).1) :
    count.network = networkFromPath req.path ∧
      ∀ e, count.endpoint = some e → e = endpointFromPath req.path :=
  mem_httpObserve h

end CasperNodeProxy
