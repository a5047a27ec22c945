import CasperNodeProxy.Events.ApiVersion
import CasperNodeProxy.Events.Order
import CasperNodeProxy.Lib.EventStream
import CasperNodeProxy.Rpc.TextJson

/-!
# What clients read

The texts in which events and the ApiVersion are sent, and how a client reads them back.

* `sendEvent`, `sendApiVersion`, `sseEvent`, `sseApiVersionEvent`: the texts of the two handlers.
* `readText`, `readEvent`: the reading of a websocket message, and of an event of an event stream.
* `Textual`: what is used of `serde_json`; `textJson_textual`: an instance.
* `readText_websocketText`, `readEvent_sseItem`: a frame is read back.
* **`frames_read`**: in every run, and wherever the stream stops, a client reads the ApiVersion and
  then events that were pushed, in order.
-/

namespace CasperNodeProxy

open EventStream Run Wire

/-- A `serde_json::Value`: its objects are maps. -/
@[ext] structure Value (S : SerdeJson) where
  json : Json S.Number
  ordered : json.Ordered S.order

namespace SerdeJson

/-- The value of a text. -/
def value (S : SerdeJson) (t : Json S.Number) : Value S :=
  ⟨t.collapse S.order, t.collapse_ordered S.order⟩

theorem value_json {S : SerdeJson} (v : Value S) : S.value v.json = v := by
  ext1
  exact Json.collapse_of_ordered v.ordered

/-- Documented behaviour of `serde_json`: a text is one line and is read as what was written, if
that is within the recursion limit, and `Value::as_u64` gives back a number that was written as a
`u64`. -/
structure Textual (S : SerdeJson) (asU64 : S.Number → Option ℕ) : Prop where
  survives : ∀ t : Json S.Number, t.depth < recursionLimit →
    ∃ text, S.toVec t = .ok text ∧ S.read text = .ok t ∧ ∀ b ∈ text, 32 ≤ b
  asU64 : ∀ n : ℕ, n < 2 ^ 64 → asU64 (S.number n) = some n

end SerdeJson

variable (S : SerdeJson)

/-! ## The texts -/

/-- `serde_json::to_string(..).unwrap_or_else(|_| "{}")`. -/
def toStringOrEmpty (t : Json S.Number) : Bytes :=
  match S.toVec t with
  | .ok text => text
  | .error _ => utf8Bytes ['{', '}']

/-- The derived `Serialize`, which keeps the order of the fields. -/
def EventEnvelope.serialize (e : EventEnvelope (Value S)) : Json S.Number :=
  .object [("id", .number (S.number e.id)), ("data", e.data.json)]

/-- `send_event`: the text of an event. -/
def sendEvent (e : EventEnvelope (Value S)) : Bytes := toStringOrEmpty S (e.serialize S)

/-- `send_api_version`: the text of the ApiVersion, with null as its id. -/
def sendApiVersion (event : Value S) : Bytes :=
  toStringOrEmpty S (.object (Members.collect S.order [("id", .null), ("data", event.json)]))

/-- `sse_event`. -/
def sseEvent (e : EventEnvelope (Value S)) : Item :=
  .event (utf8Bytes (toString e.id).toList) (toStringOrEmpty S e.data.json)

/-- The ApiVersion in an event stream, with an empty id. -/
def sseApiVersionEvent (event : Value S) : Item := .event [] (toStringOrEmpty S event.json)

/-- What a websocket client is sent for a frame. -/
def websocketText : Frame (Value S) → Bytes
  | .apiVersion data => sendApiVersion S data
  | .event e => sendEvent S e

/-- What an event stream carries for a frame. -/
def sseItem : Frame (Value S) → Item
  | .apiVersion data => sseApiVersionEvent S data
  | .event e => sseEvent S e

/-- The data of a frame, and the object around them, are within the recursion limit. -/
def Shallow : Frame (Value S) → Prop
  | .apiVersion data => data.json.depth + 1 < recursionLimit
  | .event e => e.data.json.depth + 1 < recursionLimit

/-! ## The reading -/

/-- A number in decimal digits. -/
def parseDecimal (b : Bytes) : Option ℕ :=
  match utf8Chars b with
  | some [] => none
  | some cs => if cs.all Char.isDigit then some (Nat.ofDigitChars 10 cs 0) else none
  | none => none

/-- A websocket message is an object with an id, or null, and the data. -/
def readText (asU64 : S.Number → Option ℕ) (text : Bytes) : Option (Frame (Value S)) :=
  match S.fromSlice text with
  | .ok (.object map) =>
    match map.lookup "id", map.lookup "data" with
    | some .null, some data => some (.apiVersion (S.value data))
    | some (.number n), some data => (asU64 n).map fun id => .event ⟨id, S.value data⟩
    | _, _ => none
  | _ => none

/-- An event of an event stream carries the id apart from the data; the ApiVersion has none. -/
def readEvent (e : Event) : Option (Frame (Value S)) :=
  match S.read e.data with
  | .ok t =>
    if e.lastEventId = [] then some (.apiVersion (S.value t))
    else (parseDecimal e.lastEventId).map fun id => .event ⟨id, S.value t⟩
  | .error _ => none

section Reading

variable {S} {asU64 : S.Number → Option ℕ} (hS : S.Textual asU64)

/-! ## A frame is read back -/

theorem parseDecimal_toString (n : ℕ) : parseDecimal (utf8Bytes (toString n).toList) = some n := by
  have hlist : (toString n).toList = Nat.toDigits 10 n := by
    rw [Nat.toString_eq_ofList_toDigits, String.toList_ofList]
  have hdigits : (Nat.toDigits 10 n).all Char.isDigit = true :=
    List.all_eq_true.mpr (JsonText.isDigit_toDigits n)
  have hvalue : Nat.ofDigitChars 10 (Nat.toDigits 10 n) 0 = n := Nat.ofDigitChars_ten_toDigits
  have hpos : 0 < (Nat.toDigits 10 n).length := Nat.length_toDigits_pos
  unfold parseDecimal
  rw [hlist, utf8Chars_utf8Bytes]
  obtain ⟨c, cs, hcs⟩ := List.exists_cons_of_length_pos hpos
  rw [hcs] at hdigits hvalue ⊢
  dsimp only
  rw [if_pos hdigits, hvalue]

theorem utf8Bytes_digits {n : ℕ} {b : UInt8} (h : b ∈ utf8Bytes (toString n).toList) :
    32 ≤ b := by
  refine utf8Bytes_plain (fun c hc => ?_) b h
  rw [Nat.toString_eq_ofList_toDigits, String.toList_ofList] at hc
  have hdigit := Char.isDigit_iff_toNat.mp (JsonText.isDigit_toDigits n c hc)
  have hzero : '0'.toNat = 48 := rfl
  omega

theorem toString_ne_nil (n : ℕ) : utf8Bytes (toString n).toList ≠ [] := by
  intro h
  have := parseDecimal_toString n
  rw [h] at this
  cases this

theorem ne_of_plain {b : UInt8} (h : 32 ≤ b) : b ≠ lf ∧ b ≠ cr ∧ b ≠ 0 := by
  refine ⟨?_, ?_, ?_⟩ <;> rintro rfl <;> revert h <;> decide

include hS

theorem toStringOrEmpty_read {t : Json S.Number} (ht : t.depth < recursionLimit) :
    S.read (toStringOrEmpty S t) = .ok t ∧ ∀ b ∈ toStringOrEmpty S t, 32 ≤ b := by
  obtain ⟨text, hto, hread, hplain⟩ := hS.survives t ht
  simp only [toStringOrEmpty, hto]
  exact ⟨hread, hplain⟩

/-- What a client reads of an object that was written. -/
theorem fromSlice_written {members : List (String × Json S.Number)}
    (hm : Json.depthMembers members + 1 < recursionLimit) :
    S.fromSlice (toStringOrEmpty S (.object members)) =
      .ok (.object (Members.collect S.order (Json.collapseMembers S.order members))) := by
  rw [SerdeJson.fromSlice, (toStringOrEmpty_read hS (t := .object members) hm).1]
  rfl

/-- **A websocket message is read back.** -/
theorem readText_websocketText {f : Frame (Value S)} (hf : Shallow S f)
    (hid : ∀ e, f = .event e → e.id < 2 ^ 64) : readText S asU64 (websocketText S f) = some f := by
  cases f with
  | apiVersion data =>
    have hall : ∀ k, (Members.collect S.order (Json.collapseMembers S.order
        (Members.collect S.order [("id", .null), ("data", data.json)]))).lookup k =
          (List.lookup k [("data", data.json), ("id", .null)]).map (Json.collapse S.order) := by
      intro k
      rw [Json.lookup_collapseMembers, ← Members.lookup_collect S.order,
        Members.collect_of_ordered (Members.ordered_collect S.order _), Members.lookup_collect]
      rfl
    have hdepth : Json.depthMembers (Members.collect S.order
        [("id", .null), ("data", data.json)]) ≤ data.json.depth := by
      refine Json.depthMembers_le.mpr fun p hp => ?_
      have hmem := Members.mem_collect hp
      simp only [List.mem_cons, List.not_mem_nil, or_false] at hmem
      rcases hmem with rfl | rfl
      · exact Nat.zero_le _
      · exact le_rfl
    simp only [websocketText, sendApiVersion, readText,
      fromSlice_written hS ((Nat.succ_le_succ hdepth).trans_lt hf)]
    rw [hall, hall]
    simp [List.lookup_cons, Json.collapse, Json.collapse_of_ordered data.ordered,
      SerdeJson.value_json]
  | event e =>
    have hu64 := hS.asU64 e.id (hid e rfl)
    have hdepth : Json.depthMembers [("id", .number (S.number e.id)), ("data", e.data.json)] ≤
        e.data.json.depth := by
      simp [Json.depthMembers, Json.depth]
    simp only [websocketText, sendEvent, EventEnvelope.serialize, readText,
      fromSlice_written hS ((Nat.succ_le_succ hdepth).trans_lt hf)]
    rw [Json.lookup_collapseMembers, Json.lookup_collapseMembers]
    simp [List.lookup_cons, Json.collapse, Json.collapse_of_ordered e.data.ordered, hu64,
      SerdeJson.value_json]

/-- **An event of the stream is read back.** -/
theorem readEvent_sseItem {f : Frame (Value S)} (hf : Shallow S f) :
    (sseItem S f).dispatched.bind (readEvent S) = some f := by
  cases f with
  | apiVersion data =>
    have hread := (toStringOrEmpty_read hS (Nat.lt_of_succ_lt hf)).1
    simp only [sseItem, sseApiVersionEvent, Item.dispatched, Option.bind_some, readEvent, hread,
      if_true, SerdeJson.value_json]
  | event e =>
    have hread := (toStringOrEmpty_read hS (Nat.lt_of_succ_lt hf)).1
    simp only [sseItem, sseEvent, Item.dispatched, Option.bind_some, readEvent, hread,
      if_neg (toString_ne_nil e.id), parseDecimal_toString, Option.map_some,
      SerdeJson.value_json]

theorem writable_sseItem {f : Frame (Value S)} (hf : Shallow S f) : (sseItem S f).Writable := by
  cases f with
  | apiVersion data =>
    have hplain := (toStringOrEmpty_read hS (Nat.lt_of_succ_lt hf)).2
    exact ⟨by simp, fun b hb => (ne_of_plain (hplain b hb)).2.1⟩
  | event e =>
    have hplain := (toStringOrEmpty_read hS (Nat.lt_of_succ_lt hf)).2
    exact ⟨fun b hb => ne_of_plain (utf8Bytes_digits hb),
      fun b hb => (ne_of_plain (hplain b hb)).2.1⟩

end Reading

/-! ## An instance -/

/-- The number that is written in this lexeme, if it is a `u64`. -/
def lexemeU64 (n : JsonText.Lexeme) : Option ℕ :=
  if n.1.all Char.isDigit && decide (Nat.ofDigitChars 10 n.1 0 < 2 ^ 64) then
    some (Nat.ofDigitChars 10 n.1 0)
  else none

theorem decimal_natCast (n : ℕ) :
    decimal n = ⟨Nat.toDigits 10 n, JsonText.isNumber_toDigits n⟩ := by
  have hlist : (toString (n : ℤ)).toList = Nat.toDigits 10 n := by
    have hnat : toString (n : ℤ) = toString n := rfl
    rw [hnat, Nat.toString_eq_ofList_toDigits, String.toList_ofList]
  have hnumber : JsonText.isNumber (toString (n : ℤ)).toList = true := by
    rw [hlist]
    exact JsonText.isNumber_toDigits n
  exact (dif_pos hnumber).trans (Subtype.ext hlist)

theorem textJson_textual : textJson.Textual lexemeU64 where
  survives t ht := ⟨jsonBytes t, rfl, read_jsonBytes ht, utf8Bytes_plain (JsonText.plain_write t)⟩
  asU64 n hn := by
    have hvalue : Nat.ofDigitChars 10 (Nat.toDigits 10 n) 0 = n := Nat.ofDigitChars_ten_toDigits
    have hdigits := List.all_eq_true.mpr (JsonText.isDigit_toDigits n)
    change lexemeU64 (decimal n) = some n
    rw [decimal_natCast]
    unfold lexemeU64
    dsimp only
    rw [hvalue, hdigits, Bool.true_and, if_pos (decide_eq_true hn)]

/-! ## Every run -/

/-- The comment of `KeepAlive::default()`. -/
def keepAlive : Item := .comment []

/-- What a client has read: some of the websocket messages it was sent, or what its reader has
dispatched of an event stream, which stops anywhere and carries comments to keep it alive. -/
inductive Receives (S : SerdeJson) (asU64 : S.Number → Option ℕ) (write : Item → Bytes)
    (d : Client (Value S)) : List (Option (Frame (Value S))) → Prop
  | websocket {texts : List Bytes} (hk : d.kind = .websocket)
      (h : texts <+: d.frames.map (websocketText S)) :
      Receives S asU64 write d (texts.map (readText S asU64))
  | sse {items : List Item} {arrived : Bytes} (hk : d.kind = .sse)
      (hi : items.filter (· ≠ keepAlive) = d.frames.map (sseItem S))
      (h : arrived <+: items.flatMap write) :
      Receives S asU64 write d ((Reader.new.feed arrived).events.map (readEvent S))

section Runs

variable {S : SerdeJson} {asU64 : S.Number → Option ℕ} {write : Item → Bytes}

theorem filterMap_dispatched (items : List Item) :
    (items.filter (· ≠ keepAlive)).filterMap Item.dispatched = items.filterMap Item.dispatched := by
  rw [List.filterMap_filter]
  refine List.filterMap_congr fun x _ => ?_
  cases x with
  | event id data => simp [keepAlive]
  | comment text =>
    simp [Item.dispatched]

theorem map_readEvent (hS : S.Textual asU64) {frames : List (Frame (Value S))}
    (hf : ∀ f ∈ frames, Shallow S f) :
    ((frames.map (sseItem S)).filterMap Item.dispatched).map (readEvent S) = frames.map some := by
  induction frames with
  | nil => rfl
  | cons f frames ih =>
    obtain ⟨hhead, htail⟩ := List.forall_mem_cons.mp hf
    obtain ⟨e, he, hread⟩ := Option.bind_eq_some_iff.mp (readEvent_sseItem hS hhead)
    simp only [List.map_cons, List.filterMap_cons, he, hread, ih htail]

theorem writable_of_filter (hS : S.Textual asU64) {items : List Item}
    {frames : List (Frame (Value S))} (hf : ∀ f ∈ frames, Shallow S f)
    (hi : items.filter (· ≠ keepAlive) = frames.map (sseItem S)) : ∀ x ∈ items, x.Writable := by
  intro x hx
  by_cases hk : x = keepAlive
  · subst hk
    exact fun b hb => absurd hb List.not_mem_nil
  · have hmem : x ∈ frames.map (sseItem S) := hi ▸ List.mem_filter.mpr ⟨hx, by simpa using hk⟩
    obtain ⟨f, hframe, rfl⟩ := List.mem_map.mp hmem
    exact writable_sseItem hS (hf f hframe)

/-- **Frames survive the wire**, whatever has arrived of them. -/
theorem receives_frames (hS : S.Textual asU64) (hw : Understood write) {d : Client (Value S)}
    (hf : ∀ f ∈ d.frames, Shallow S f) (hids : ∀ e, .event e ∈ d.frames → e.id < 2 ^ 64)
    {read : List (Option (Frame (Value S)))} (hr : Receives S asU64 write d read) :
    ∃ frames, frames <+: d.frames ∧ read = frames.map some := by
  cases hr with
  | websocket hk h =>
    obtain ⟨frames, hpre, rfl⟩ := List.prefix_map_iff.mp h
    refine ⟨frames, hpre, ?_⟩
    rw [List.map_map]
    refine List.map_congr_left fun f hmem => ?_
    exact readText_websocketText hS (hf f (hpre.subset hmem)) fun e he =>
      hids e (he ▸ hpre.subset hmem)
  | @sse items arrived hk hi h =>
    have hpre := prefix_dispatched hw (writable_of_filter hS hf hi) h
    rw [← filterMap_dispatched, hi] at hpre
    have hmap := hpre.map (readEvent S)
    rw [map_readEvent hS hf] at hmap
    obtain ⟨frames, hf, he⟩ := List.prefix_map_iff.mp hmap
    exact ⟨frames, hf, he⟩

/-- What a client was sent: nothing, or the ApiVersion of the bus and what it was delivered. -/
theorem frames_reaches {V : Type} {backlogLimit broadcastCapacity : ℕ} {metrics : Bool}
    {c : EventConf V}
    (h : Reaches eventStep (eventInit 1 backlogLimit broadcastCapacity metrics) c) {d : Client V}
    (hd : .client d ∈ c.tasks) :
    d.frames = [] ∨ ∃ data, c.shared.bus.apiVersion = some data ∧
      d.frames = .apiVersion data :: d.delivered.map .event := by
  have h₀ : Tasks.Holds HubVersion (fun h _ t => TaskVersion h t)
      (eventInit (V := V) 1 backlogLimit broadcastCapacity metrics) := ⟨fun _ => rfl, nofun⟩
  obtain ⟨i, hi⟩ := List.mem_iff_getElem?.mp hd
  have hv : PcVersion c.shared d.kind d.frames d.pc := (version_owned.reaches h₀ h).2 i _ hi
  rcases hv.closed with hnil | ⟨data, hdata, es, hes⟩
  · exact .inl hnil
  · refine .inr ⟨data, hdata, ?_⟩
    have hdel : d.delivered = es := by
      unfold Client.delivered
      rw [hes]
      simp [List.filterMap_map]
    rw [hdel, hes]

/-- **What clients read.** With one producer, in every reachable state and for both handlers: what
has arrived at a client, wherever it stops, is read as nothing or as the ApiVersion of the bus and
then events, when the data it was sent are within the recursion limit; these events were pushed with
that id and those data, their ids strictly increase, and what is skipped between two of them was
reported as lagged. -/
theorem frames_read {backlogLimit broadcastCapacity : ℕ} {metrics : Bool}
    {c : EventConf (Value S)} (hS : S.Textual asU64) (hw : Understood write)
    (h : Reaches eventStep (eventInit 1 backlogLimit broadcastCapacity metrics) c)
    (hids : c.shared.pushed.length < 2 ^ 64) {d : Client (Value S)} (hd : .client d ∈ c.tasks)
    (hdepth : ∀ f ∈ d.frames, Shallow S f)
    {read : List (Option (Frame (Value S)))} (hr : Receives S asU64 write d read) :
    read = [] ∨ ∃ (data : Value S) (es : List (EventEnvelope (Value S))),
      c.shared.bus.apiVersion = some data ∧
      read = some (.apiVersion data) :: es.map (fun e => some (.event e)) ∧
      (∀ e ∈ es, e ∈ c.shared.pushed) ∧ es.Pairwise (fun a b => a.id < b.id) ∧
      es.IsChain fun a b => ∀ n, a.id < n → n < b.id → n ∈ d.missed.map (·.id) := by
  obtain ⟨ho, hall⟩ := delivery_reaches h
  obtain ⟨hinc, hmem, hgap⟩ := (hall d hd).delivery.ordered ho
  have hsent := frames_reaches h hd
  have hbound : ∀ e, .event e ∈ d.frames → e.id < 2 ^ 64 := by
    intro e he
    have hdel : e ∈ d.delivered := List.mem_filterMap.mpr ⟨.event e, he, rfl⟩
    exact (ho.numbered.le_length (hmem e hdel)).trans_lt hids
  obtain ⟨frames, hpre, rfl⟩ := receives_frames hS hw hdepth hbound hr
  cases frames with
  | nil => exact .inl rfl
  | cons f frames =>
    right
    rcases hsent with hnil | ⟨data, hdata, hframes⟩
    · rw [hnil] at hpre
      exact absurd (List.prefix_nil.mp hpre) (List.cons_ne_nil _ _)
    rw [hframes] at hpre
    obtain ⟨rfl, htail⟩ := List.cons_prefix_cons.mp hpre
    obtain ⟨es, hes, rfl⟩ := List.prefix_map_iff.mp htail
    refine ⟨data, es, hdata, by simp, fun e he => hmem e (hes.subset he),
      hinc.sublist hes.sublist, ?_⟩
    obtain ⟨rest, hrest⟩ := hes
    have hchain : Gapless d (es ++ rest) := hrest ▸ hgap
    exact hchain.left_of_append

end Runs

/-- The numbers as values. -/
def numberValue (n : ℕ) : Value textJson := ⟨.number (decimal n), .number _⟩

theorem shallow_numberValue (n : ℕ) : (numberValue n).json.depth + 1 < recursionLimit := by
  have hflat : (numberValue n).json.depth = 0 := rfl
  rw [hflat]
  decide

/-- An SSE client is sent the ApiVersion, replays one event, and is then sent the next. -/
def readRun : List (EventAct (Value textJson)) :=
  [.env (.push 0 (numberValue 10)), .env (.run 0), .env (.run 0), .spawn (.client .sse (some 0)),
    .spawn (.setter (numberValue 7)), .task 1 .run, .task 1 .run, .task 0 .run, .task 0 .run,
    .task 0 .run, .task 0 .run, .task 0 .run, .task 0 .run, .task 0 .run,
    .env (.push 0 (numberValue 20)), .env (.run 0), .env (.run 0), .task 0 .run]

theorem readRun_frames :
    (exec eventStep (eventInit 1 1 1 false) readRun).bind (fun c => (clientAt c 0).map fun d =>
      (d.kind, c.shared.pushed.length, d.frames)) =
    some (.sse, 2, [.apiVersion (numberValue 7), .event ⟨1, numberValue 10⟩,
      .event ⟨2, numberValue 20⟩]) := rfl

theorem frames_read_stream :
    ∃ c d, exec eventStep (eventInit 1 1 1 false) readRun = some c ∧ clientAt c 0 = some d ∧
      ∃ (data : Value textJson) (es : List (EventEnvelope (Value textJson))),
        c.shared.bus.apiVersion = some data ∧
        (Reader.new.feed ((keepAlive :: d.frames.map (sseItem textJson)).flatMap
          Item.write)).events.map (readEvent textJson) =
          some (.apiVersion data) :: es.map fun e => some (.event e) := by
  obtain ⟨c, d, hc, hd, hfields⟩ := exec_observed readRun_frames
  simp only [Prod.mk.injEq] at hfields
  obtain ⟨hk, hlen, hframes⟩ := hfields
  have hfilter : (keepAlive :: d.frames.map (sseItem textJson)).filter (· ≠ keepAlive) =
      d.frames.map (sseItem textJson) := by
    rw [hframes]
    rfl
  have hdepth : ∀ f ∈ d.frames, Shallow textJson f := by
    rw [hframes]
    simp only [List.forall_mem_cons]
    exact ⟨shallow_numberValue 7, shallow_numberValue 10, shallow_numberValue 20, nofun⟩
  have hread := frames_read textJson_textual understood_write ⟨_, hc⟩ (by rw [hlen]; decide)
    (clientAt_mem hd) hdepth (.sse hk hfilter (List.prefix_refl _))
  refine ⟨c, d, hc, hd, ?_⟩
  rcases hread with hnil | ⟨data, es, hdata, hes, -⟩
  · rw [events_items understood_write (writable_of_filter textJson_textual hdepth hfilter),
      hframes] at hnil
    cases hnil
  · exact ⟨data, es, hdata, hes⟩

end CasperNodeProxy
