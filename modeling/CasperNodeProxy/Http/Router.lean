import CasperNodeProxy.Lib.Percent
import CasperNodeProxy.Lib.Segments

/-!
# The routes of the proxy

* `Axum`, `Axum.Lawful`: the router and the `Path` extractor, which are not part of the repository,
  as a parameter; `segmentAxum`, **`segmentAxum_lawful`**: an instance.
* `routes`: the four routes of every network.
* **`findRoute_iff`**: the paths that the router matches.
-/

namespace CasperNodeProxy

open Segments

/-! ## The routes -/

/-- The handlers of a network. -/
inductive Handler
  | networkRoot
  | rpcProxy
  | eventsHandler
  | binaryWs
  deriving DecidableEq, Repr

/-- A handler and the method that it is routed for. -/
inductive MethodRouter
  | get (handler : Handler)
  | post (handler : Handler)
  deriving DecidableEq, Repr

/-- The handler that is routed. -/
def MethodRouter.handler : MethodRouter → Handler
  | .get handler | .post handler => handler

/-- The routes of `handlers::routes`. -/
def routes : List (String × MethodRouter) :=
  [("/{network_name}/", .get .networkRoot),
    ("/{network_name}/rpc", .post .rpcProxy),
    ("/{network_name}/events", .get .eventsHandler),
    ("/{network_name}/binary", .get .binaryWs)]

/-! ## `axum` as a parameter -/

/-- What is used of `axum`. -/
structure Axum where
  /-- The route that matches a path, and its parameters with the texts that they stand for. -/
  findRoute : List (String × MethodRouter) → String → Option (MethodRouter × List (String × String))
  /-- What `Path<String>` makes of the parameters; without a value the request is rejected. -/
  extractPath : List (String × String) → Option String

/-- What is assumed of `axum`: a route matches a path as it came in, segment by segment, with a
parameter for one segment that is not empty; `Path` decodes the escapes of a parameter. A path with
an empty segment in place of the parameter, as in `//rpc`, is left out by this assumption. -/
structure Axum.Lawful (A : Axum) : Prop where
  matches_iff : ∀ path r params, A.findRoute routes path = some (r, params) ↔
    ∃ pattern, (pattern, r) ∈ routes ∧ capture (parts pattern '/') (split path '/') = some params
  extracts : ∀ name text, A.extractPath [(name, text)] = Percent.decodeText text

/-! ## The paths that are matched -/

/-- What follows the name of the network in the path of a handler. -/
def Handler.segment : Handler → String
  | .networkRoot => ""
  | .rpcProxy => "rpc"
  | .eventsHandler => "events"
  | .binaryWs => "binary"

theorem parts_of_mem : ∀ route ∈ routes, parts route.1 '/' =
    [.literal "", .param "network_name", .literal route.2.handler.segment] := by
  decide

theorem eq_of_segment_eq : ∀ route ∈ routes, ∀ route' ∈ routes,
    route.2.handler.segment = route'.2.handler.segment → route.2 = route'.2 := by
  decide

theorem capture_route {segment : String} {segments : List String}
    {params : List (String × String)} :
    capture [.literal "", .param "network_name", .literal segment] segments = some params ↔
      ∃ name, name ≠ "" ∧ segments = ["", name, segment] ∧ params = [("network_name", name)] := by
  simp only [capture_literal, capture_param, capture_nil]
  constructor
  · rintro ⟨_, rfl, name, _, _, hname, rfl, ⟨_, rfl, rfl, rfl⟩, rfl⟩
    exact ⟨name, hname, rfl, rfl⟩
  · rintro ⟨name, hname, rfl, rfl⟩
    exact ⟨_, rfl, name, _, _, hname, rfl, ⟨_, rfl, rfl, rfl⟩, rfl⟩

variable {A : Axum}

/-- **The paths that the router matches**: a slash, the text of the network name, a slash and the
segment of the handler. -/
theorem findRoute_iff (hA : A.Lawful) {path : String} {r : MethodRouter}
    {params : List (String × String)} :
    A.findRoute routes path = some (r, params) ↔ r ∈ routes.map Prod.snd ∧
      ∃ name, name ≠ "" ∧ split path '/' = ["", name, r.handler.segment] ∧
        params = [("network_name", name)] := by
  rw [hA.matches_iff]
  constructor
  · rintro ⟨pattern, hmem, hc⟩
    rw [parts_of_mem _ hmem, capture_route] at hc
    exact ⟨List.mem_map.mpr ⟨_, hmem, rfl⟩, hc⟩
  · rintro ⟨hr, hname⟩
    obtain ⟨⟨pattern, r'⟩, hmem, rfl⟩ := List.mem_map.mp hr
    refine ⟨pattern, hmem, ?_⟩
    rw [parts_of_mem _ hmem, capture_route]
    exact hname

/-! ## A router -/

/-- A router that tries one route after the other. -/
def segmentAxum : Axum where
  findRoute routes path := routes.findSome? fun route =>
    (capture (parts route.1 '/') (split path '/')).map fun params => (route.2, params)
  extractPath
    | [(_, text)] => Percent.decodeText text
    | _ => none

/-- No path is matched by two of the routes. -/
theorem routes_disjoint {route route' : String × MethodRouter} (h : route ∈ routes)
    (h' : route' ∈ routes) {segments : List String} {params params' : List (String × String)}
    (hc : capture (parts route.1 '/') segments = some params)
    (hc' : capture (parts route'.1 '/') segments = some params') :
    route.2 = route'.2 ∧ params = params' := by
  rw [parts_of_mem _ h, capture_route] at hc
  rw [parts_of_mem _ h', capture_route] at hc'
  obtain ⟨name, -, rfl, rfl⟩ := hc
  obtain ⟨name', -, heq, rfl⟩ := hc'
  simp only [List.cons.injEq, true_and, and_true] at heq
  obtain ⟨rfl, hsegment⟩ := heq
  exact ⟨eq_of_segment_eq _ h _ h' hsegment, rfl⟩

theorem segmentAxum_lawful : segmentAxum.Lawful := by
  refine ⟨fun path r params => ?_, fun name text => rfl⟩
  constructor
  · intro h
    obtain ⟨route, hmem, hc⟩ := List.exists_of_findSome?_eq_some h
    obtain ⟨params', hc, heq⟩ := Option.map_eq_some_iff.mp hc
    cases heq
    exact ⟨route.1, hmem, hc⟩
  · rintro ⟨pattern, hmem, hc⟩
    cases h : segmentAxum.findRoute routes path with
    | none =>
      have hnone := List.findSome?_eq_none_iff.mp h _ hmem
      rw [hc] at hnone
      cases hnone
    | some found =>
      obtain ⟨route, hmem', hc'⟩ := List.exists_of_findSome?_eq_some h
      obtain ⟨params', hparams, rfl⟩ := Option.map_eq_some_iff.mp hc'
      obtain ⟨hr, rfl⟩ := routes_disjoint hmem' hmem hparams hc
      rw [hr]

end CasperNodeProxy
