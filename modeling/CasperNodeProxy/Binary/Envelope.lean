import CasperNodeProxy.Binary.Rewrite
import CasperNodeProxy.Binary.WireFormat

/-!
# Telling the two forms of a reply apart

A reply with its request and a plain response share no marker. `parseResponseEnvelope` tries the
first form, and takes the second one only for bytes that do not begin like the first.

* `HasResponse`, `ReadsWithRequest`: the bytes that begin with a complete response, and the plain
  responses that also read as a request and a response.
* `fromBytes_response`, `fromBytes_responseAndRequest`: what the two decoders accept.
* **`detection_iff`**: parsing undoes serializing except on those responses.
-/

namespace CasperNodeProxy

open Wire

/-- The port has the wire formats of responses. -/
structure BinaryPort.WireFormatted (K : BinaryPort) : Prop where
  binaryResponse : K.binaryResponse = binaryResponseCodec
  binaryResponseAndRequest : K.binaryResponseAndRequest = binaryResponseAndRequestCodec

/-- The bytes begin with a complete response: behind two words stand a marker, a tag if the marker
says so, and a complete frame. -/
def HasResponse (b : Bytes) : Prop :=
  (b[4]? = some 0 ∧ HasFrame (b.drop 5)) ∨ (b[4]? = some 1 ∧ HasFrame (b.drop 6))

instance (b : Bytes) : Decidable (HasResponse b) := by unfold HasResponse; infer_instance

/-- The bytes of the plain response also begin with a request and a response: its version and its
error code are the length of the request. -/
def ReadsWithRequest (r : BinaryResponse) : Prop :=
  let length := r.version.toNat + 65536 * r.errorCode.toNat
  length ≤ (bodyBytes r).length ∧ HasResponse ((bodyBytes r).drop length)

instance (r : BinaryResponse) : Decidable (ReadsWithRequest r) := by
  unfold ReadsWithRequest
  infer_instance

/-! ## What the decoders accept -/

theorem fromBytes_bytesCodec {b : Bytes} :
    (∃ p, bytesCodec.fromBytes b = .ok p) ↔ HasFrame b := by
  rw [bytesCodec, bytes_fromBytes]
  split_ifs with h
  · exact iff_of_true ⟨_, rfl⟩ h
  · refine iff_of_false (fun hp => ?_) h
    obtain ⟨p, hp⟩ := hp
    cases hp

theorem fromBytes_body {b : Bytes} :
    (∃ p, (((u8 .earlyEndOfStream).option .earlyEndOfStream .formatting).pair
      bytesCodec).fromBytes b = .ok p) ↔
      (b[0]? = some 0 ∧ HasFrame (b.drop 1)) ∨ (b[0]? = some 1 ∧ HasFrame (b.drop 2)) := by
  rw [Codec.pair_accepts]
  simp only [fromBytes_bytesCodec]
  cases b with
  | nil => simp [Codec.option]
  | cons marker rest =>
    simp only [Codec.option]
    by_cases h₀ : marker = 0
    · simp [h₀]
    by_cases h₁ : marker = 1
    · cases rest with
      | nil => simp [h₁, u8, Except.bind, HasFrame]
      | cons tag rest => simp [h₁, u8, Except.bind]
    · simp [h₀, h₁]

theorem fromBytes_response {b : Bytes} :
    (∃ p, binaryResponseCodec.fromBytes b = .ok p) ↔ HasResponse b := by
  rw [binaryResponseCodec, Codec.refine_accepts fun _ => ⟨_, rfl⟩]
  simp only [Codec.pair_accepts (C := u16 ReprError.earlyEndOfStream), fromBytes_body]
  rcases b with _ | ⟨b₀, _ | ⟨b₁, _ | ⟨b₂, _ | ⟨b₃, rest⟩⟩⟩⟩
  case cons.cons.cons.cons => simp [u16, HasResponse]
  all_goals simp [u16, HasResponse]

theorem fromBytes_responseAndRequest {b : Bytes} :
    (∃ p, binaryResponseAndRequestCodec.fromBytes b = .ok p) ↔
      HasFrame b ∧ HasResponse (b.drop (4 + u32Of b)) := by
  rw [binaryResponseAndRequestCodec, Codec.refine_accepts fun _ => ⟨_, rfl⟩, Codec.pair_accepts]
  simp only [fromBytes_response, bytesCodec, bytes_fromBytes]
  split_ifs with h
  · simp [h]
  · simp [h]

/-! ## The bytes of a plain response -/

section Plain

variable (r : BinaryResponse)

/-- The first two words of a response, read as one length. -/
theorem u32Of_responseBytes :
    u32Of (responseBytes r) = r.version.toNat + 65536 * r.errorCode.toNat := by
  have hv := r.version.toNat_lt
  have he := r.errorCode.toNat_lt
  simp only [responseBytes, u16le, List.cons_append, List.nil_append, u32Of, UInt8.toNat_ofNat']
  omega

theorem drop_responseBytes (n : ℕ) : (responseBytes r).drop (4 + n) = (bodyBytes r).drop n := by
  rw [← List.drop_drop]
  rfl

/-- A plain response is read as a request and a response exactly when it reads with a request. -/
theorem responseBytes_readsWithRequest :
    (∃ p, binaryResponseAndRequestCodec.fromBytes (responseBytes r) = .ok p) ↔
      ReadsWithRequest r := by
  have hlen : (responseBytes r).length = 4 + (bodyBytes r).length := by
    simp [responseBytes, u16le]
    omega
  rw [fromBytes_responseAndRequest, u32Of_responseBytes, drop_responseBytes, HasFrame,
    u32Of_responseBytes, hlen]
  refine and_congr_left fun _ => ?_
  omega

end Plain

/-! ## The two forms -/

variable {K : BinaryPort}

theorem parse_withRequest (hK : K.WireFormatted) {q bytes : Bytes} {r : BinaryResponse}
    (h : K.binaryResponseAndRequest.toBytes ⟨q, r⟩ = .ok bytes) :
    parseResponseEnvelope K bytes = .ok (.withRequest q r) := by
  rw [hK.binaryResponseAndRequest] at h
  have hd := binaryResponseAndRequestCodec_selfDelimiting.inverse.decode _ _ h
  simp only [parseResponseEnvelope, hK.binaryResponseAndRequest, hd, ne_eq, not_true_eq_false,
    if_false]

theorem parse_response (hK : K.WireFormatted) {bytes : Bytes} {r : BinaryResponse}
    (h : K.binaryResponse.toBytes r = .ok bytes) :
    parseResponseEnvelope K bytes = .ok (.response r) ↔ ¬ ReadsWithRequest r := by
  rw [hK.binaryResponse] at h
  have hd := binaryResponseCodec_selfDelimiting.inverse.decode _ _ h
  obtain ⟨-, rfl⟩ := binaryResponseCodec_toBytes.mp h
  rw [← responseBytes_readsWithRequest]
  simp only [parseResponseEnvelope, hK.binaryResponseAndRequest, hK.binaryResponse]
  cases hp : binaryResponseAndRequestCodec.fromBytes (responseBytes r) with
  | ok p =>
    refine iff_of_false ?_ fun hno => hno ⟨p, rfl⟩
    dsimp only
    split_ifs <;> nofun
  | error err =>
    refine iff_of_true ?_ nofun
    simp only [hd, ne_eq, not_true_eq_false, if_false]

/-- The form of the envelope can be told from its bytes: it has a request, or its bytes do not read
as if it had one. -/
def Unambiguous : ResponseEnvelope → Prop
  | .withRequest _ _ => True
  | .response r => ¬ ReadsWithRequest r

instance : DecidablePred Unambiguous
  | .withRequest _ _ => .isTrue trivial
  | .response _ => inferInstanceAs (Decidable (¬ _))

/-- **Detection of the form.** Parsing undoes serializing exactly for the unambiguous envelopes. -/
theorem detection_iff (hK : K.WireFormatted) {e : ResponseEnvelope} {bytes : Bytes}
    (h : serializeResponseEnvelope K e = .ok bytes) :
    parseResponseEnvelope K bytes = .ok e ↔ Unambiguous e := by
  cases e with
  | withRequest q r => exact iff_of_true (parse_withRequest hK (mapError_eq_ok.mp h)) trivial
  | response r => exact parse_response hK (mapError_eq_ok.mp h)

theorem wirePort_wireFormatted : wirePort.WireFormatted := ⟨rfl, rfl⟩

theorem detection_iff_failure :
    parseResponseEnvelope wirePort failureReply = .ok (.response ⟨1, 8, none, []⟩) ↔
      Unambiguous (.response ⟨1, 8, none, []⟩) :=
  detection_iff wirePort_wireFormatted rfl

/-- A plain peers response of a node without peers. -/
def ambiguousResponse : BinaryResponse := ⟨1, 0, some 18, [0, 0, 0, 0]⟩

/-- **A plain response is taken for another one.** Its marker is read as the request, and the rest
as a response of version 1042 without type. -/
theorem detection_ambiguous :
    ∃ bytes, serializeResponseEnvelope wirePort (.response ambiguousResponse) = .ok bytes ∧
      parseResponseEnvelope wirePort bytes = .ok (.withRequest [1] ⟨1042, 0, none, []⟩) ∧
      parseResponseEnvelope wirePort bytes ≠ .ok (.response ambiguousResponse) :=
  ⟨responseBytes ambiguousResponse, rfl, rfl, by
    intro h
    cases h⟩

end CasperNodeProxy
