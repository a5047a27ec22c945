import CasperNodeProxy.Lib.Codec
import CasperNodeProxy.Binary.Port

/-!
# The wire format of responses

The formats that `casper_binary_port` 1.1 gives its responses: a version and an error code of two
bytes each, an optional type tag, and the payload behind its length; with a request, the request
bytes behind their length come first.

* `wirePort`: the binary port with these formats. Peers stand in a node status behind the twelve
  bytes of the protocol version; what follows them is kept as bytes.
* **`wirePort_lawful`**.
-/

namespace CasperNodeProxy

open Wire

/-- `bytesrepr` of a `Vec<u8>` or `Bytes`. -/
def bytesCodec : Codec ReprError Bytes := bytes .earlyEndOfStream .notRepresentable

/-- `bytesrepr` of a `String`: its UTF-8 bytes behind their length. -/
def stringCodec : Codec ReprError String :=
  bytesCodec.refine
    (fun b => if h : (ByteArray.mk b.toArray).IsValidUTF8 then .ok (.fromUTF8 _ h)
      else .error .formatting)
    fun s => s.toByteArray.data.toList

/-- `BinaryResponse` on the wire. -/
def binaryResponseCodec : Codec ReprError BinaryResponse :=
  ((u16 .earlyEndOfStream).pair ((u16 .earlyEndOfStream).pair
    (((u8 .earlyEndOfStream).option .earlyEndOfStream .formatting).pair bytesCodec))).refine
    (fun p => .ok ⟨p.1, p.2.1, p.2.2.1, p.2.2.2⟩)
    fun r => (r.version, r.errorCode, r.returnedDataTypeTag, r.payload)

/-- `BinaryResponseAndRequest` on the wire. -/
def binaryResponseAndRequestCodec : Codec ReprError BinaryResponseAndRequest :=
  (bytesCodec.pair binaryResponseCodec).refine (fun p => .ok ⟨p.1, p.2⟩)
    fun r => (r.request, r.response)

/-- `PeerEntry` on the wire. -/
def peerEntryCodec : Codec ReprError PeerEntry :=
  (stringCodec.pair stringCodec).refine (fun p => .ok ⟨p.1, p.2⟩) fun e => (e.nodeId, e.address)

/-- The three words of a `ProtocolVersion`. -/
def protocolVersionCodec : Codec ReprError (ℕ × ℕ × ℕ) :=
  let word := u32 .earlyEndOfStream .notRepresentable
  word.pair (word.pair word)

/-- `NodeStatus` on the wire: the protocol version, the peers, and the fields behind them. -/
def nodeStatusCodec : Codec ReprError (NodeStatus ((ℕ × ℕ × ℕ) × Bytes)) :=
  (protocolVersionCodec.pair
    ((peerEntryCodec.vec .earlyEndOfStream .notRepresentable).pair remaining)).refine
    (fun p => .ok ⟨p.2.1, p.1, p.2.2⟩) fun s => (s.rest.1, s.peers, s.rest.2)

theorem bytesCodec_selfDelimiting : bytesCodec.SelfDelimiting := bytes_selfDelimiting _ _

theorem stringCodec_selfDelimiting : stringCodec.SelfDelimiting := by
  refine bytesCodec_selfDelimiting.refine (fun s => ?_) (fun b s h => ?_)
  · have hs : (ByteArray.mk s.toByteArray.data.toList.toArray) = s.toByteArray := by
      rw [Array.toArray_toList]
    rw [dif_pos (by rw [hs]; exact s.isValidUTF8)]
    congr 1
  · split_ifs at h with hv
    cases h
    rfl

theorem binaryResponseCodec_selfDelimiting : binaryResponseCodec.SelfDelimiting := by
  have h16 := u16_selfDelimiting ReprError.earlyEndOfStream
  have h8 := (u8_selfDelimiting ReprError.earlyEndOfStream).option .earlyEndOfStream .formatting
  refine (h16.pair (h16.pair (h8.pair bytesCodec_selfDelimiting))).refine (fun _ => rfl) ?_
  intro a r h
  cases h
  rfl

theorem binaryResponseAndRequestCodec_selfDelimiting :
    binaryResponseAndRequestCodec.SelfDelimiting := by
  refine (bytesCodec_selfDelimiting.pair binaryResponseCodec_selfDelimiting).refine
    (fun _ => rfl) ?_
  intro a r h
  cases h
  rfl

theorem peerEntryCodec_selfDelimiting : peerEntryCodec.SelfDelimiting := by
  refine (stringCodec_selfDelimiting.pair stringCodec_selfDelimiting).refine (fun _ => rfl) ?_
  intro a r h
  cases h
  rfl

theorem nodeStatusCodec_inverse : nodeStatusCodec.Inverse := by
  have h32 := u32_selfDelimiting ReprError.earlyEndOfStream .notRepresentable
  have hp := peerEntryCodec_selfDelimiting.vec .earlyEndOfStream .notRepresentable
  refine ((h32.pair (h32.pair h32)).inverse_pair (hp.inverse_pair remaining_inverse)).refine
    (fun _ => rfl) ?_
  intro a r h
  cases h
  rfl

/-! ## The bytes of a response -/

/-- A word of two bytes. -/
def u16le (v : UInt16) : Bytes := [.ofNat v.toNat, .ofNat (v.toNat / 256)]

/-- The optional type tag behind its marker. -/
def tagBytes : Option UInt8 → Bytes
  | none => [0]
  | some tag => [1, tag]

/-- The bytes of a response behind its version and its error code. -/
def bodyBytes (r : BinaryResponse) : Bytes :=
  tagBytes r.returnedDataTypeTag ++ (u32le r.payload.length ++ r.payload)

/-- All bytes of a response. -/
def responseBytes (r : BinaryResponse) : Bytes :=
  u16le r.version ++ (u16le r.errorCode ++ bodyBytes r)

theorem bytesCodec_toBytes {v b : Bytes} :
    bytesCodec.toBytes v = .ok b ↔ v.length < 2 ^ 32 ∧ b = u32le v.length ++ v := by
  simp only [bytesCodec, bytes, u32]
  split_ifs with hv
  · rw [and_iff_right hv]
    exact ⟨fun h => (Except.ok.inj h).symm, fun h => congrArg Except.ok h.symm⟩
  · refine iff_of_false (fun h => ?_) fun h => hv h.1
    cases h

theorem bytesCodec_error {v : Bytes} (h : ¬ v.length < 2 ^ 32) :
    bytesCodec.toBytes v = .error .notRepresentable := by
  simp only [bytesCodec, bytes, u32, if_neg h, Except.bind]

theorem binaryResponseCodec_toBytes {r : BinaryResponse} {b : Bytes} :
    binaryResponseCodec.toBytes r = .ok b ↔
      r.payload.length < 2 ^ 32 ∧ b = responseBytes r := by
  obtain ⟨version, errorCode, tag, payload⟩ := r
  by_cases hlt : payload.length < 2 ^ 32
  · have hp := bytesCodec_toBytes.mpr ⟨hlt, rfl⟩
    have hr : binaryResponseCodec.toBytes ⟨version, errorCode, tag, payload⟩ =
        .ok (responseBytes ⟨version, errorCode, tag, payload⟩) := by
      cases tag <;> simp only [binaryResponseCodec, Codec.refine, Codec.pair, hp] <;> rfl
    rw [hr, and_iff_right hlt]
    exact ⟨fun h => (Except.ok.inj h).symm, fun h => congrArg Except.ok h.symm⟩
  · have hp := bytesCodec_error hlt
    have hr : binaryResponseCodec.toBytes ⟨version, errorCode, tag, payload⟩ =
        .error .notRepresentable := by
      cases tag <;> simp only [binaryResponseCodec, Codec.refine, Codec.pair, hp] <;> rfl
    rw [hr]
    refine iff_of_false (fun h => ?_) fun h => hlt h.1
    cases h

theorem binaryResponseAndRequestCodec_toBytes {q : Bytes} {r : BinaryResponse} {b : Bytes} :
    binaryResponseAndRequestCodec.toBytes ⟨q, r⟩ = .ok b ↔
      q.length < 2 ^ 32 ∧ r.payload.length < 2 ^ 32 ∧
        b = (u32le q.length ++ q) ++ responseBytes r := by
  constructor
  · intro h
    obtain ⟨b₁, h₁, h⟩ := bind_eq_ok.mp h
    obtain ⟨b₂, h₂, h⟩ := bind_eq_ok.mp h
    obtain ⟨hq, rfl⟩ := bytesCodec_toBytes.mp h₁
    obtain ⟨hr, rfl⟩ := binaryResponseCodec_toBytes.mp h₂
    exact ⟨hq, hr, (Except.ok.inj h).symm⟩
  · rintro ⟨hq, hr, rfl⟩
    have h₁ := bytesCodec_toBytes.mpr ⟨hq, rfl⟩
    have h₂ := binaryResponseCodec_toBytes.mpr ⟨hr, rfl⟩
    simp only [binaryResponseAndRequestCodec, Codec.refine, Codec.pair, h₁, h₂, Except.bind]

/-! ## The port -/

/-- `GetRequest` behind its variant byte; an information request is a tag and a key. -/
def decodeGetRequest : Bytes → Except ReprError GetRequest
  | [] => .error .earlyEndOfStream
  | variant :: rest =>
    if variant = 1 then
      match ((u16 .earlyEndOfStream).pair bytesCodec).fromBytes rest with
      | .error err => .error err
      | .ok (_, _ :: _) => .error .leftOverBytes
      | .ok ((infoTypeTag, key), []) => .ok (.information infoTypeTag key)
    else if variant ≤ 3 then .ok .other
    else .error .formatting

/-- `CommandHeader` on the wire. -/
def commandHeaderCodec : Codec ReprError CommandHeader :=
  ((u16 .earlyEndOfStream).pair ((u8 .earlyEndOfStream).pair (u16 .earlyEndOfStream))).refine
    (fun p => .ok ⟨p.1, p.2.1, p.2.2⟩) fun h => (h.version, h.typeTag, h.id)

/-- The information requests that have no key. -/
def keyless (tag : UInt16) : Bool := (3 ≤ tag ∧ tag ≤ 15) ∨ tag = 17

/-- `InformationRequest::try_from`; the keys of the requests that have one are kept as bytes. -/
def decodeInformationRequest (tag : UInt16) (key : Bytes) : Except ReprError InformationRequest :=
  if keyless tag ∧ key ≠ [] then .error .leftOverBytes
  else .ok (if tag = 3 then .peers else .other)

/-- The binary port on the wire. The payloads that the proxy only decodes and encodes again are
kept as bytes. -/
def wirePort : BinaryPort where
  commandHeader := commandHeaderCodec
  headerVersion := 1
  CommandTag := UInt8
  commandTag tag := if tag ≤ 2 then some tag else none
  command tag bytes := if tag = 0 then (decodeGetRequest bytes).map .get else .ok .other
  InformationRequestTag := UInt16
  informationRequestTag tag := if tag ≤ 19 then some tag else none
  informationRequest := decodeInformationRequest
  responseVersion := 1
  errorCode
    | .functionDisabled => 1
    | .internalError => 6
    | .badRequest => 8
    | .unsupportedRequest => 9
  responseTypeTag type := .ofNat type.ctorIdx
  responseType tag := if tag.toNat < 44 then some (.ofNat tag.toNat) else none
  binaryResponse := binaryResponseCodec
  binaryResponseAndRequest := binaryResponseAndRequestCodec
  Payload _ := Bytes
  payload _ := remaining
  NodeStatusRest := (ℕ × ℕ × ℕ) × Bytes
  nodeStatus := nodeStatusCodec

theorem ctorIdx_ofNat : ∀ n < 44, (ResponseType.ofNat n).ctorIdx = n := by decide

/-- **The wire formats behave as documented.** -/
theorem wirePort_lawful : wirePort.Lawful where
  binaryResponse := binaryResponseCodec_selfDelimiting.inverse
  binaryResponseAndRequest := binaryResponseAndRequestCodec_selfDelimiting.inverse
  nodeStatus := nodeStatusCodec_inverse
  responseType tag type := by
    constructor
    · intro h
      simp only [wirePort] at h ⊢
      split_ifs at h with ht
      cases h
      rw [ctorIdx_ofNat _ ht, UInt8.ofNat_toNat]
    · rintro rfl
      cases type <;> rfl
  errorCode code := by cases code <;> decide

/-- A request for the status of the node. -/
def statusRequest : Bytes := [1, 0, 0, 7, 0, 1, 14, 0, 0, 0, 0, 0]

/-- A request for the uptime of the node. -/
def uptimeRequest : Bytes := [1, 0, 0, 7, 0, 1, 4, 0, 0, 0, 0, 0]

/-- The reply of a node to the request for its uptime, which it echoes. -/
def uptimeAnswer : Bytes :=
  [12, 0, 0, 0] ++ uptimeRequest ++ [1, 0, 0, 0, 1, 28, 8, 0, 0, 0, 1, 2, 3, 4, 5, 6, 7, 8]

/-- The reply of a node to a bad request, without payload. -/
def failureReply : Bytes := [1, 0, 8, 0, 0, 0, 0, 0, 0]

end CasperNodeProxy
