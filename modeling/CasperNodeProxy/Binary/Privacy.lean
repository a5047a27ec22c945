import CasperNodeProxy.Binary.Rewrite
import CasperNodeProxy.Binary.WireFormat

/-!
# No peer information leaves through the binary port

* `HidesPeers`: what a client may read in a response.
* `EqualExceptPeers`: two replies that only differ in peer information.
* `rewritten_hidesPeers`, `rewriteResponseBytes_congr`: the one-run and the two-run half.
* **`peers_do_not_leave`**: every rewritten reply hides the peers, and replies that only differ in
  peer information are rewritten to the same bytes.
-/

namespace CasperNodeProxy

open Wire

variable (K : BinaryPort)

/-- The response in `bytes`, decoded in the form of the envelope. -/
def decodeResponseAs : ResponseEnvelope → Bytes → Except ReprError (BinaryResponse × Bytes)
  | .withRequest _ _, bytes =>
    (K.binaryResponseAndRequest.fromBytes bytes).map fun p => (p.1.response, p.2)
  | .response _, bytes => K.binaryResponse.fromBytes bytes

/-- The response is not a successful peers response, and a successful node status response decodes
completely to a status without peers. -/
structure HidesPeers (r : BinaryResponse) : Prop where
  peers : r.isSuccess = true → r.returnedDataTypeTag ≠ some (K.responseTypeTag .peers)
  nodeStatus : r.isSuccess = true → r.returnedDataTypeTag = some (K.responseTypeTag .nodeStatus) →
    ∃ status, K.nodeStatus.fromBytes r.payload = .ok (status, []) ∧ status.peers = []

/-- The two envelopes have the same form and echo the same request. -/
def SameForm (e₁ e₂ : ResponseEnvelope) : Prop := ∀ r, e₁.setResponse r = e₂.setResponse r

/-- Two payloads of the type with tag `tag` that only differ in peer information: any two payloads
of a peers response, or two node statuses that agree outside their peers. -/
inductive PayloadsEqualExceptPeers (tag : Option UInt8) (p₁ p₂ : Bytes) : Prop
  | same (h : p₁ = p₂)
  | peers (h : tag = some (K.responseTypeTag .peers))
  | nodeStatus (h : tag = some (K.responseTypeTag .nodeStatus))
      (s₁ s₂ : NodeStatus K.NodeStatusRest) (h₁ : K.nodeStatus.fromBytes p₁ = .ok (s₁, []))
      (h₂ : K.nodeStatus.fromBytes p₂ = .ok (s₂, [])) (hr : s₁.rest = s₂.rest)

/-- Two envelopes of success responses that only differ in peer information. -/
structure EqualExceptPeers (e₁ e₂ : ResponseEnvelope) : Prop where
  form : SameForm e₁ e₂
  success₁ : e₁.getResponse.isSuccess = true
  success₂ : e₂.getResponse.isSuccess = true
  version : e₁.getResponse.version = e₂.getResponse.version
  errorCode : e₁.getResponse.errorCode = e₂.getResponse.errorCode
  tag : e₁.getResponse.returnedDataTypeTag = e₂.getResponse.returnedDataTypeTag
  payload : PayloadsEqualExceptPeers K e₁.getResponse.returnedDataTypeTag e₁.getResponse.payload
    e₂.getResponse.payload

variable {K}

/-! ## One run -/

theorem decodeResponseAs_serialize (hK : K.Lawful) {e : ResponseEnvelope} {r : BinaryResponse}
    {c : Bytes} (h : serializeResponseEnvelope K (e.setResponse r) = .ok c) :
    decodeResponseAs K e c = .ok (r, []) := by
  cases e with
  | withRequest q r₀ =>
    have hb := hK.binaryResponseAndRequest.decode _ _ (mapError_eq_ok.mp h)
    simp [decodeResponseAs, hb, Except.map]
  | response r₀ => exact hK.binaryResponse.decode _ _ (mapError_eq_ok.mp h)

theorem hidesPeers_of_failure {r : BinaryResponse} (h : r.isSuccess = false) : HidesPeers K r := by
  constructor <;> intro hs <;> rw [h] at hs <;> cases hs

theorem hidesPeers_of_untagged {r : BinaryResponse} (h : r.returnedDataTypeTag = none) :
    HidesPeers K r := by
  constructor
  · intro _ ht
    rw [h] at ht
    cases ht
  · intro _ ht
    rw [h] at ht
    cases ht

theorem rewriteResponse_hidesPeers (hK : K.Lawful) {type : ResponseType} {p : Bytes}
    {r : BinaryResponse} (h : rewriteResponse K type p = .ok r) : HidesPeers K r := by
  have hinj := BinaryPort.responseTypeTag_injective hK
  rcases rewriteResponse_ok h with ⟨-, rfl⟩ | ⟨-, q, hq, rfl⟩ | ⟨hp, hn, q, rfl⟩
  · exact hidesPeers_of_failure (BinaryPort.newError_isSuccess hK _)
  · obtain ⟨status, -, hto⟩ := sanitizeNodeStatusPayload_ok hq
    refine ⟨fun _ ht => ?_, fun _ _ => ⟨_, hK.nodeStatus.decode _ _ hto, rfl⟩⟩
    exact ResponseType.noConfusion (hinj (Option.some.inj ht))
  · exact ⟨fun _ ht => hp (hinj (Option.some.inj ht)),
      fun _ ht => absurd (hinj (Option.some.inj ht)) hn⟩

/-- **A rewritten response hides the peers.** -/
theorem rewritten_hidesPeers (hK : K.Lawful) {r r' : BinaryResponse} (h : Rewritten K r r') :
    HidesPeers K r' := by
  cases h with
  | failure hs => exact hidesPeers_of_failure hs
  | empty ht => exact hidesPeers_of_untagged ht
  | typed ht hk hr => exact rewriteResponse_hidesPeers hK hr

/-! ## Two runs -/

theorem rewriteResponseBytes_eq {b : Bytes} {e : ResponseEnvelope} {tag : UInt8}
    (he : parseResponseEnvelope K b = .ok e) (hs : e.getResponse.isSuccess = true)
    (ht : e.getResponse.returnedDataTypeTag = some tag) :
    rewriteResponseBytes K b =
      match K.responseType tag with
      | none => .error (.unknownTypeTag tag)
      | some type =>
        match rewriteResponse K type e.getResponse.payload with
        | .error err => .error err
        | .ok r => serializeResponseEnvelope K (e.setResponse r) := by
  unfold rewriteResponseBytes
  rw [he]
  dsimp only
  rw [hs, ht]
  rfl

theorem rewriteResponse_congr (hK : K.Lawful) {tag : UInt8} {type : ResponseType} {p₁ p₂ : Bytes}
    (hk : K.responseType tag = some type) (h : PayloadsEqualExceptPeers K (some tag) p₁ p₂) :
    rewriteResponse K type p₁ = rewriteResponse K type p₂ := by
  have htag : tag = K.responseTypeTag type := (hK.responseType tag type).mp hk
  have hinj := BinaryPort.responseTypeTag_injective hK
  cases h with
  | same h => rw [h]
  | peers h =>
    obtain rfl : type = .peers := hinj (htag.symm.trans (Option.some.inj h))
    rfl
  | nodeStatus h s₁ s₂ h₁ h₂ hr =>
    obtain rfl : type = .nodeStatus := hinj (htag.symm.trans (Option.some.inj h))
    -- the sanitized statuses are the same value
    simp only [rewriteResponse, sanitizeNodeStatusPayload, h₁, h₂, hr]

/-- **Replies that only differ in peer information are rewritten alike.** -/
theorem rewriteResponseBytes_congr (hK : K.Lawful) {b₁ b₂ : Bytes} {e₁ e₂ : ResponseEnvelope}
    (h₁ : parseResponseEnvelope K b₁ = .ok e₁) (h₂ : parseResponseEnvelope K b₂ = .ok e₂)
    (h : EqualExceptPeers K e₁ e₂) : rewriteResponseBytes K b₁ = rewriteResponseBytes K b₂ := by
  have htag := h.tag
  have hpay := h.payload
  cases ht : e₁.getResponse.returnedDataTypeTag with
  | none =>
    -- without a tag the payloads are the same, hence so are the envelopes
    rw [ht] at htag hpay
    have hp : e₁.getResponse.payload = e₂.getResponse.payload := by
      cases hpay with
      | same h => exact h
      | peers h => cases h
      | nodeStatus h => cases h
    have hr : e₁.getResponse = e₂.getResponse := by
      have hv := h.version
      have hc := h.errorCode
      cases hr₁ : e₁.getResponse
      cases hr₂ : e₂.getResponse
      simp_all
    have he : e₁ = e₂ := by
      rw [← e₁.setResponse_getResponse, hr, h.form, e₂.setResponse_getResponse]
    simp only [rewriteResponseBytes, h₁, h₂, he]
  | some tag =>
    rw [ht] at htag hpay
    rw [rewriteResponseBytes_eq h₁ h.success₁ ht, rewriteResponseBytes_eq h₂ h.success₂ htag.symm]
    cases hk : K.responseType tag with
    | none => rfl
    | some type =>
      dsimp only
      rw [rewriteResponse_congr hK hk hpay]
      cases rewriteResponse K type e₂.getResponse.payload with
      | error err => rfl
      | ok r => exact congrArg (serializeResponseEnvelope K) (h.form r)

/-- **No peer information leaves through the binary port.** Whatever the upstream replies, the
rewritten reply, decoded in the form of the reply, hides the peers; and two replies that only
differ in peer information are rewritten to the same bytes. -/
theorem peers_do_not_leave (hK : K.Lawful) :
    (∀ b c, rewriteResponseBytes K b = .ok c →
      ∃ e r, parseResponseEnvelope K b = .ok e ∧ decodeResponseAs K e c = .ok (r, []) ∧
        HidesPeers K r) ∧
    (∀ b₁ b₂ e₁ e₂, parseResponseEnvelope K b₁ = .ok e₁ → parseResponseEnvelope K b₂ = .ok e₂ →
      EqualExceptPeers K e₁ e₂ → rewriteResponseBytes K b₁ = rewriteResponseBytes K b₂) := by
  refine ⟨fun b c h => ?_, fun b₁ b₂ e₁ e₂ h₁ h₂ h => rewriteResponseBytes_congr hK h₁ h₂ h⟩
  obtain ⟨e, r, he, hr, hc⟩ := rewriteResponseBytes_ok h
  exact ⟨e, r, he, decodeResponseAs_serialize hK hc, rewritten_hidesPeers hK hr⟩

/-- The fields of a node status behind its peers: the build version and the chainspec name, the
starting state root hash, nothing that is optional, the uptime, the reactor state, the last
progress, the available blocks and the state of the block synchronizer. -/
def statusFields : Bytes :=
  [5, 0, 0, 0, 50, 46, 48, 46, 48] ++ [6, 0, 0, 0, 99, 97, 115, 112, 101, 114] ++
    List.replicate 32 9 ++ [0, 0, 0, 0] ++ [96, 234, 0, 0, 0, 0, 0, 0] ++
    [8, 0, 0, 0, 86, 97, 108, 105, 100, 97, 116, 101] ++ [1, 0, 0, 0, 0, 0, 0, 0] ++
    [0, 0, 0, 0, 0, 0, 0, 0, 4, 0, 0, 0, 0, 0, 0, 0] ++ [0, 0, 0]

/-- A node status of version 2.0.0 with these peers on the wire. -/
def statusPayload (peers : Bytes) : Bytes :=
  [2, 0, 0, 0, 0, 0, 0, 0, 0, 0, 0, 0] ++ peers ++ statusFields

/-- The peer `n1` at `a:1`. -/
def onePeer : Bytes := [1, 0, 0, 0, 2, 0, 0, 0, 110, 49, 3, 0, 0, 0, 97, 58, 49]

/-- A list of no peers. -/
def noPeers : Bytes := [0, 0, 0, 0]

/-- A response with the node status of version 1. -/
def statusResponse (peers : Bytes) : BinaryResponse := ⟨1, 0, some 34, statusPayload peers⟩

/-- A reply with the node status, which echoes the request. -/
def statusReply (peers : Bytes) : Bytes :=
  (u32le statusRequest.length ++ statusRequest) ++ responseBytes (statusResponse peers)

/-- What `parse_response_envelope` makes of this reply. -/
def statusEnvelope (peers : Bytes) : ResponseEnvelope :=
  .withRequest statusRequest (statusResponse peers)

set_option maxRecDepth 4000 in
/-- The two halves on the wire, for a node status with a peer. -/
theorem peers_do_not_leave_status :
    (∃ e r, parseResponseEnvelope wirePort (statusReply onePeer) = .ok e ∧
      decodeResponseAs wirePort e (statusReply noPeers) = .ok (r, []) ∧ HidesPeers wirePort r) ∧
    rewriteResponseBytes wirePort (statusReply onePeer) =
      rewriteResponseBytes wirePort (statusReply noPeers) :=
  ⟨(peers_do_not_leave wirePort_lawful).1 _ _ rfl,
    (peers_do_not_leave wirePort_lawful).2 _ _ (statusEnvelope onePeer) (statusEnvelope noPeers)
      rfl rfl
      { form := fun _ => rfl
        success₁ := rfl
        success₂ := rfl
        version := rfl
        errorCode := rfl
        tag := rfl
        payload := .nodeStatus rfl ⟨[⟨"n1", "a:1"⟩], (2, 0, 0), statusFields⟩
          ⟨[], (2, 0, 0), statusFields⟩ rfl rfl rfl }⟩

end CasperNodeProxy
