import Mathlib.Tactic.SplitIfs
import CasperNodeProxy.Binary.Port

/-!
# Rewriting upstream responses

`rewriteResponseBytes` decodes a reply of the upstream node, drops what must not leave through the
proxy and encodes the rest again.

* `ResponseEnvelope`, `parseResponseEnvelope`, `serializeResponseEnvelope`: a response with or
  without its echoed request.
* `rewriteResponse`: the new response, type by type.
* `rewriteResponseBytes_ok`: a rewritten reply is an envelope whose response was rewritten.
-/

namespace CasperNodeProxy

open Wire

/-- The two forms of a reply. -/
inductive ResponseEnvelope
  | withRequest (request : Bytes) (response : BinaryResponse)
  | response (response : BinaryResponse)
  deriving DecidableEq, Repr

namespace ResponseEnvelope

/-- The response inside. -/
def getResponse : ResponseEnvelope → BinaryResponse
  | .withRequest _ r => r
  | .response r => r

/-- The envelope around another response. -/
def setResponse : ResponseEnvelope → BinaryResponse → ResponseEnvelope
  | .withRequest q _, r => .withRequest q r
  | .response _, r => .response r

@[simp] theorem setResponse_getResponse (e : ResponseEnvelope) :
    e.setResponse e.getResponse = e := by
  cases e <;> rfl

end ResponseEnvelope

/-- `OpaquePayload`: bytes that are passed through. -/
def opaquePayload : Codec ReprError Bytes := ⟨fun bytes => .ok (bytes, []), fun bytes => .ok bytes⟩

/-- Why a reply cannot be rewritten. -/
inductive ResponseRewriteError
  | decode (err : ReprError)
  | encode (err : ReprError)
  | unknownTypeTag (tag : UInt8)
  | missingTypeTag
  deriving DecidableEq, Repr

/-- The code of the error response that the client gets instead. -/
def ResponseRewriteError.errorCode : ResponseRewriteError → ErrorCode
  | .unknownTypeTag _ => .unsupportedRequest
  | .missingTypeTag => .internalError
  | .decode _ => .internalError
  | .encode _ => .internalError

variable (K : BinaryPort)

/-- A reply is first read as a response with its request. Bytes left over by that reading are an
error; only when it fails is the reply read as a plain response. -/
def parseResponseEnvelope (responseBytes : Bytes) : Except ResponseRewriteError ResponseEnvelope :=
  match K.binaryResponseAndRequest.fromBytes responseBytes with
  | .ok (responseAndRequest, remainder) =>
    if remainder ≠ [] then .error (.decode .leftOverBytes)
    else .ok (.withRequest responseAndRequest.request responseAndRequest.response)
  | .error _ =>
    match K.binaryResponse.fromBytes responseBytes with
    | .error err => .error (.decode err)
    | .ok (response, remainder) =>
      if remainder ≠ [] then .error (.decode .leftOverBytes) else .ok (.response response)

/-- `serialize_response_envelope`, in the form of the envelope. -/
def serializeResponseEnvelope : ResponseEnvelope → Except ResponseRewriteError Bytes
  | .withRequest request response =>
    (K.binaryResponseAndRequest.toBytes ⟨request, response⟩).mapError .encode
  | .response response => (K.binaryResponse.toBytes response).mapError .encode

/-- Decode a payload completely and encode the value again. -/
def roundtripPayload {T : Type} (C : Codec ReprError T) (payload : Bytes) :
    Except ResponseRewriteError Bytes :=
  match C.fromBytes payload with
  | .error err => .error (.decode err)
  | .ok (value, remainder) =>
    if remainder ≠ [] then .error (.decode .leftOverBytes)
    else (C.toBytes value).mapError .encode

/-- A response with its payload decoded and encoded again. -/
def roundtripResponse {T : Type} (C : Codec ReprError T) (type : ResponseType) (payload : Bytes) :
    Except ResponseRewriteError BinaryResponse :=
  (roundtripPayload C payload).map (K.fromRawBytes type)

/-- The node status with its peers emptied. -/
def sanitizeNodeStatusPayload (payload : Bytes) : Except ResponseRewriteError Bytes :=
  match K.nodeStatus.fromBytes payload with
  | .error err => .error (.decode err)
  | .ok (status, remainder) =>
    if remainder ≠ [] then .error (.decode .leftOverBytes)
    else (K.nodeStatus.toBytes { status with peers := [] }).mapError .encode

/-- The new response for a success response of a known type. -/
def rewriteResponse (type : ResponseType) (payload : Bytes) :
    Except ResponseRewriteError BinaryResponse :=
  match type with
  | .peers => .ok (K.newError .functionDisabled)
  | .nodeStatus => (sanitizeNodeStatusPayload K payload).map (K.fromRawBytes type)
  | .blockHeaderV1 => roundtripResponse K (K.payload .blockHeaderV1) type payload
  | .blockHeader => roundtripResponse K (K.payload .blockHeader) type payload
  | .blockBodyV1 => roundtripResponse K (K.payload .blockBodyV1) type payload
  | .blockBody => roundtripResponse K (K.payload .blockBody) type payload
  | .approvalsHashesV1 | .approvalsHashes => roundtripResponse K opaquePayload type payload
  | .blockSignaturesV1 => roundtripResponse K (K.payload .blockSignaturesV1) type payload
  | .blockSignatures => roundtripResponse K (K.payload .blockSignatures) type payload
  | .deploy => roundtripResponse K (K.payload .deploy) type payload
  | .transaction => roundtripResponse K (K.payload .transaction) type payload
  | .executionResultV1 => roundtripResponse K (K.payload .executionResultV1) type payload
  | .executionResult => roundtripResponse K (K.payload .executionResult) type payload
  | .wasmV1Result => roundtripResponse K opaquePayload type payload
  | .transfers => roundtripResponse K (K.payload .vecTransfer) type payload
  | .finalizedDeployApprovals | .finalizedApprovals =>
    roundtripResponse K (K.payload .vecApproval) type payload
  | .blockWithSignatures => roundtripResponse K (K.payload .blockWithSignatures) type payload
  | .transactionWithExecutionInfo =>
    roundtripResponse K (K.payload .transactionWithExecutionInfo) type payload
  | .lastProgress => roundtripResponse K (K.payload .lastProgress) type payload
  | .reactorState => roundtripResponse K (K.payload .reactorStateName) type payload
  | .networkName => roundtripResponse K (K.payload .networkName) type payload
  | .consensusValidatorChanges =>
    roundtripResponse K (K.payload .consensusValidatorChanges) type payload
  | .blockSynchronizerStatus =>
    roundtripResponse K (K.payload .blockSynchronizerStatus) type payload
  | .availableBlockRange => roundtripResponse K (K.payload .availableBlockRange) type payload
  | .nextUpgrade => roundtripResponse K (K.payload .nextUpgrade) type payload
  | .consensusStatus => roundtripResponse K (K.payload .consensusStatus) type payload
  | .chainspecRawBytes => roundtripResponse K (K.payload .chainspecRawBytes) type payload
  | .uptime => roundtripResponse K (K.payload .uptime) type payload
  | .highestBlockSequenceCheckResult => roundtripResponse K opaquePayload type payload
  | .speculativeExecutionResult =>
    roundtripResponse K (K.payload .speculativeExecutionResult) type payload
  | .globalStateQueryResult =>
    roundtripResponse K (K.payload .globalStateQueryResult) type payload
  | .storedValues => roundtripResponse K (K.payload .vecStoredValue) type payload
  | .getTrieFullResult => roundtripResponse K (K.payload .getTrieFullResult) type payload
  | .dictionaryQueryResult => roundtripResponse K (K.payload .dictionaryQueryResult) type payload
  | .balanceResponse => roundtripResponse K (K.payload .balanceResponse) type payload
  | .reward => roundtripResponse K (K.payload .rewardResponse) type payload
  | .protocolVersion => roundtripResponse K (K.payload .protocolVersion) type payload
  | .contractPackageWithProof =>
    roundtripResponse K (K.payload .contractPackageWithProof) type payload
  | .contractInformation => roundtripResponse K (K.payload .contractInformation) type payload
  | .accountInformation => roundtripResponse K (K.payload .accountInformation) type payload
  | .packageWithProof => roundtripResponse K (K.payload .packageWithProof) type payload
  | .addressableEntityInformation =>
    roundtripResponse K (K.payload .addressableEntityInformation) type payload

/-- `rewrite_response_bytes`. -/
def rewriteResponseBytes (responseBytes : Bytes) : Except ResponseRewriteError Bytes :=
  match parseResponseEnvelope K responseBytes with
  | .error err => .error err
  | .ok envelope =>
    let response := envelope.getResponse
    if !response.isSuccess then serializeResponseEnvelope K envelope
    else
      match response.returnedDataTypeTag with
      | none =>
        if response.payload.isEmpty then serializeResponseEnvelope K envelope
        else .error .missingTypeTag
      | some tag =>
        match K.responseType tag with
        | none => .error (.unknownTypeTag tag)
        | some type =>
          match rewriteResponse K type response.payload with
          | .error err => .error err
          | .ok newResponse => serializeResponseEnvelope K (envelope.setResponse newResponse)

/-! ## What rewriting does -/

variable {K}

theorem mapError_eq_ok {ε ε' α : Type} {f : ε → ε'} {x : Except ε α} {v : α} :
    x.mapError f = .ok v ↔ x = .ok v := by
  cases x <;> simp [Except.mapError]

theorem map_eq_ok {ε α β : Type} {f : α → β} {x : Except ε α} {w : β} :
    x.map f = .ok w ↔ ∃ v, x = .ok v ∧ f v = w := by
  cases x <;> simp [Except.map]

theorem sanitizeNodeStatusPayload_ok {payload q : Bytes}
    (h : sanitizeNodeStatusPayload K payload = .ok q) :
    ∃ status, K.nodeStatus.fromBytes payload = .ok (status, []) ∧
      K.nodeStatus.toBytes { status with peers := [] } = .ok q := by
  unfold sanitizeNodeStatusPayload at h
  split at h
  · cases h
  · next status remainder hd =>
    split_ifs at h with hr
    rw [ne_eq, not_not] at hr
    subst hr
    exact ⟨status, hd, mapError_eq_ok.mp h⟩

theorem roundtripResponse_ok {T : Type} {C : Codec ReprError T} {type : ResponseType}
    {payload : Bytes} {r : BinaryResponse} (h : roundtripResponse K C type payload = .ok r) :
    ∃ q, r = K.fromRawBytes type q := by
  obtain ⟨q, -, hr⟩ := map_eq_ok.mp h
  exact ⟨q, hr.symm⟩

/-- Three kinds of rewriting: peers become an error, a node status is sanitized, and every other
type keeps its tag. -/
theorem rewriteResponse_ok {type : ResponseType} {payload : Bytes} {r : BinaryResponse}
    (h : rewriteResponse K type payload = .ok r) :
    (type = .peers ∧ r = K.newError .functionDisabled) ∨
    (type = .nodeStatus ∧ ∃ q, sanitizeNodeStatusPayload K payload = .ok q ∧
      r = K.fromRawBytes .nodeStatus q) ∨
    (type ≠ .peers ∧ type ≠ .nodeStatus ∧ ∃ q, r = K.fromRawBytes type q) := by
  cases type with
  | peers => exact .inl ⟨rfl, (Except.ok.inj h).symm⟩
  | nodeStatus =>
    obtain ⟨q, hq, hr⟩ := map_eq_ok.mp h
    exact .inr (.inl ⟨rfl, q, hq, hr.symm⟩)
  | _ => exact .inr (.inr ⟨by decide, by decide, roundtripResponse_ok h⟩)

/-- The response that replaces `r` inside the envelope. -/
inductive Rewritten (K : BinaryPort) (r : BinaryResponse) : BinaryResponse → Prop
  | failure (h : r.isSuccess = false) : Rewritten K r r
  | empty (h : r.returnedDataTypeTag = none) : Rewritten K r r
  | typed {tag type r'} (ht : r.returnedDataTypeTag = some tag)
      (hk : K.responseType tag = some type)
      (hr : rewriteResponse K type r.payload = .ok r') : Rewritten K r r'

/-- **A rewritten reply is the envelope of the reply around a rewritten response.** -/
theorem rewriteResponseBytes_ok {b c : Bytes} (h : rewriteResponseBytes K b = .ok c) :
    ∃ e r, parseResponseEnvelope K b = .ok e ∧ Rewritten K e.getResponse r ∧
      serializeResponseEnvelope K (e.setResponse r) = .ok c := by
  unfold rewriteResponseBytes at h
  split at h
  · cases h
  · next e he =>
    refine ⟨e, ?_⟩
    dsimp only at h
    cases hs : e.getResponse.isSuccess with
    | false =>
      rw [hs] at h
      exact ⟨_, he, .failure hs, by rwa [ResponseEnvelope.setResponse_getResponse]⟩
    | true =>
      simp only [hs, Bool.not_true, Bool.false_eq_true, if_false] at h
      cases ht : e.getResponse.returnedDataTypeTag with
      | none =>
        simp only [ht] at h
        split_ifs at h
        exact ⟨_, he, .empty ht, by rwa [ResponseEnvelope.setResponse_getResponse]⟩
      | some tag =>
        simp only [ht] at h
        split at h
        · cases h
        · next type hk =>
          split at h
          · cases h
          · next r' hr => exact ⟨r', he, .typed ht hk hr, h⟩

end CasperNodeProxy
