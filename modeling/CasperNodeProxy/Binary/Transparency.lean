import CasperNodeProxy.Binary.Privacy

/-!
# What rewriting leaves as it was

* `BinaryPort.Canonical`: documented behaviour of the codecs that results about unaltered replies
  rely on; `wirePort_canonical`.
* `Transparent`: a reply with its request is rewritten byte for byte to itself, apart from peers.
* `Rebuilt`: the responses that are taken apart and built anew.
* **`transparent_iff`**: that is so unless a rebuilt response had another header version than the
  one the crate stamps.
-/

namespace CasperNodeProxy

open Wire

/-- Documented behaviour of the crates: the payload codecs are canonical, and encoding only fails
when something is too long. -/
structure BinaryPort.Canonical (K : BinaryPort) : Prop where
  payload : ∀ T v b, (K.payload T).fromBytes b = .ok (v, []) → (K.payload T).toBytes v = .ok b
  response : ∀ q r r' b, K.binaryResponseAndRequest.toBytes ⟨q, r⟩ = .ok b →
    r'.payload.length ≤ r.payload.length → ∃ b', K.binaryResponseAndRequest.toBytes ⟨q, r'⟩ = .ok b'
  nodeStatus : ∀ status b, K.nodeStatus.toBytes status = .ok b →
    ∃ b', K.nodeStatus.toBytes { status with peers := [] } = .ok b' ∧ b'.length ≤ b.length

/-- The type that payloads are decoded to; opaque payloads have none. -/
def ResponseType.payloadType : ResponseType → Option PayloadType
  | .blockHeaderV1 => some .blockHeaderV1
  | .blockHeader => some .blockHeader
  | .blockBodyV1 => some .blockBodyV1
  | .blockBody => some .blockBody
  | .blockSignaturesV1 => some .blockSignaturesV1
  | .blockSignatures => some .blockSignatures
  | .deploy => some .deploy
  | .transaction => some .transaction
  | .executionResultV1 => some .executionResultV1
  | .executionResult => some .executionResult
  | .transfers => some .vecTransfer
  | .finalizedDeployApprovals | .finalizedApprovals => some .vecApproval
  | .blockWithSignatures => some .blockWithSignatures
  | .transactionWithExecutionInfo => some .transactionWithExecutionInfo
  | .lastProgress => some .lastProgress
  | .reactorState => some .reactorStateName
  | .networkName => some .networkName
  | .consensusValidatorChanges => some .consensusValidatorChanges
  | .blockSynchronizerStatus => some .blockSynchronizerStatus
  | .availableBlockRange => some .availableBlockRange
  | .nextUpgrade => some .nextUpgrade
  | .consensusStatus => some .consensusStatus
  | .chainspecRawBytes => some .chainspecRawBytes
  | .uptime => some .uptime
  | .speculativeExecutionResult => some .speculativeExecutionResult
  | .globalStateQueryResult => some .globalStateQueryResult
  | .storedValues => some .vecStoredValue
  | .getTrieFullResult => some .getTrieFullResult
  | .dictionaryQueryResult => some .dictionaryQueryResult
  | .balanceResponse => some .balanceResponse
  | .reward => some .rewardResponse
  | .protocolVersion => some .protocolVersion
  | .contractPackageWithProof => some .contractPackageWithProof
  | .contractInformation => some .contractInformation
  | .accountInformation => some .accountInformation
  | .packageWithProof => some .packageWithProof
  | .addressableEntityInformation => some .addressableEntityInformation
  | .approvalsHashesV1 | .approvalsHashes | .wasmV1Result | .highestBlockSequenceCheckResult
  | .peers | .nodeStatus => none

variable (K : BinaryPort)

/-- The payload decodes completely as a payload of this type. -/
def PayloadDecodes (type : ResponseType) (payload : Bytes) : Prop :=
  if type = .nodeStatus then ∃ status, K.nodeStatus.fromBytes payload = .ok (status, [])
  else ∀ T, type.payloadType = some T → ∃ v, (K.payload T).fromBytes payload = .ok (v, [])

/-- A failure, an empty response without type, or a response that has nothing to do with peers. -/
def Unaltered (r : BinaryResponse) : Prop :=
  r.isSuccess = false ∨ (r.returnedDataTypeTag = none ∧ r.payload = []) ∨
    ∃ type, r.returnedDataTypeTag = some (K.responseTypeTag type) ∧ type ≠ .peers ∧
      type ≠ .nodeStatus ∧ PayloadDecodes K type r.payload

/-- The reply `b`, which is the response `r` to the request `q`, is rewritten as it should be. -/
structure Transparent (b q : Bytes) (r : BinaryResponse) : Prop where
  unaltered : Unaltered K r → rewriteResponseBytes K b = .ok b
  nodeStatus : r.isSuccess = true →
    r.returnedDataTypeTag = some (K.responseTypeTag .nodeStatus) →
    ∀ status, K.nodeStatus.fromBytes r.payload = .ok (status, []) →
      ∃ payload c, K.nodeStatus.toBytes { status with peers := [] } = .ok payload ∧
        K.binaryResponseAndRequest.toBytes ⟨q, { r with payload := payload }⟩ = .ok c ∧
        rewriteResponseBytes K b = .ok c
  peers : r.isSuccess = true → r.returnedDataTypeTag = some (K.responseTypeTag .peers) →
    ∃ r' c, r'.isSuccess = false ∧ K.binaryResponseAndRequest.fromBytes c = .ok (⟨q, r'⟩, []) ∧
      rewriteResponseBytes K b = .ok c

/-- The response is taken apart and built anew from its payload. -/
def Rebuilt (r : BinaryResponse) : Prop :=
  r.isSuccess = true ∧ ∃ type, r.returnedDataTypeTag = some (K.responseTypeTag type) ∧
    type ≠ .peers ∧ PayloadDecodes K type r.payload

variable {K}

/-! ## One payload -/

theorem roundtripPayload_canonical {T : Type} {C : Codec ReprError T} {payload : Bytes} {v : T}
    (hd : C.fromBytes payload = .ok (v, [])) (he : C.toBytes v = .ok payload) :
    roundtripPayload C payload = .ok payload := by
  simp only [roundtripPayload, hd, he, ne_eq, not_true_eq_false, if_false, Except.mapError]

theorem rewriteResponse_eq {type : ResponseType} (hp : type ≠ .peers) (hn : type ≠ .nodeStatus)
    (payload : Bytes) :
    rewriteResponse K type payload =
      match type.payloadType with
      | some T => roundtripResponse K (K.payload T) type payload
      | none => roundtripResponse K opaquePayload type payload := by
  cases type with
  | peers => exact absurd rfl hp
  | nodeStatus => exact absurd rfl hn
  | _ => rfl

/-- A payload that decodes is encoded again to the same bytes. -/
theorem rewriteResponse_canonical (hC : K.Canonical) {type : ResponseType} {payload : Bytes}
    (hp : type ≠ .peers) (hn : type ≠ .nodeStatus) (hd : PayloadDecodes K type payload) :
    rewriteResponse K type payload = .ok (K.fromRawBytes type payload) := by
  rw [rewriteResponse_eq hp hn]
  unfold PayloadDecodes at hd
  rw [if_neg hn] at hd
  split
  · next T hT =>
    obtain ⟨v, hv⟩ := hd T hT
    rw [roundtripResponse, roundtripPayload_canonical hv (hC.payload T v payload hv)]
    rfl
  · rfl

theorem rewriteResponse_nodeStatus {payload p : Bytes} {status : NodeStatus K.NodeStatusRest}
    (hd : K.nodeStatus.fromBytes payload = .ok (status, []))
    (he : K.nodeStatus.toBytes { status with peers := [] } = .ok p) :
    rewriteResponse K .nodeStatus payload = .ok (K.fromRawBytes .nodeStatus p) := by
  simp only [rewriteResponse, sanitizeNodeStatusPayload, hd, he, ne_eq, not_true_eq_false, if_false,
    Except.mapError, Except.map]

/-! ## One reply -/

section Reply

variable {b q : Bytes} {r : BinaryResponse}
  (h : K.binaryResponseAndRequest.fromBytes b = .ok (⟨q, r⟩, []))

include h

theorem parseResponseEnvelope_withRequest :
    parseResponseEnvelope K b = .ok (.withRequest q r) := by
  simp only [parseResponseEnvelope, h, ne_eq, not_true_eq_false, if_false]

theorem rewriteResponseBytes_kept (hK : K.Lawful)
    (hr : r.isSuccess = false ∨ (r.returnedDataTypeTag = none ∧ r.payload = [])) :
    rewriteResponseBytes K b = .ok b := by
  have hb := hK.binaryResponseAndRequest.encode _ _ h
  unfold rewriteResponseBytes
  rw [parseResponseEnvelope_withRequest h]
  cases hs : r.isSuccess with
  | false =>
    simp [ResponseEnvelope.getResponse, hs, serializeResponseEnvelope, hb, Except.mapError]
  | true =>
    rcases hr with hf | ⟨ht, hp⟩
    · rw [hs] at hf
      cases hf
    · simp [ResponseEnvelope.getResponse, hs, ht, hp, serializeResponseEnvelope, hb,
        Except.mapError]

theorem rewriteResponseBytes_typed (hK : K.Lawful) (hs : r.isSuccess = true) {type : ResponseType}
    (ht : r.returnedDataTypeTag = some (K.responseTypeTag type)) {r' : BinaryResponse}
    (hr : rewriteResponse K type r.payload = .ok r') :
    rewriteResponseBytes K b =
      (K.binaryResponseAndRequest.toBytes ⟨q, r'⟩).mapError .encode := by
  rw [rewriteResponseBytes_eq (parseResponseEnvelope_withRequest h) hs ht]
  simp only [(hK.responseType _ _).mpr rfl, ResponseEnvelope.getResponse, hr]
  rfl

end Reply

theorem fromRawBytes_eq {r : BinaryResponse} {type : ResponseType} (hs : r.isSuccess = true)
    (ht : r.returnedDataTypeTag = some (K.responseTypeTag type))
    (hv : r.version = K.responseVersion) (payload : Bytes) :
    K.fromRawBytes type payload = { r with payload := payload } := by
  have he : r.errorCode = 0 := beq_iff_eq.mp hs
  simp only [BinaryPort.fromRawBytes, ← hv, ← ht, he]

section Version

variable {b q : Bytes} {r : BinaryResponse}
  (h : K.binaryResponseAndRequest.fromBytes b = .ok (⟨q, r⟩, []))

include h

theorem transparent_of_version (hK : K.Lawful) (hC : K.Canonical)
    (hv : Rebuilt K r → r.version = K.responseVersion) : Transparent K b q r := by
  have hb := hK.binaryResponseAndRequest.encode _ _ h
  refine ⟨?_, fun hs ht status hd => ?_, fun hs ht => ?_⟩
  · rintro (hf | hu | ⟨type, ht, hp, hn, hd⟩)
    · exact rewriteResponseBytes_kept h hK (.inl hf)
    · exact rewriteResponseBytes_kept h hK (.inr hu)
    · cases hs : r.isSuccess with
      | false => exact rewriteResponseBytes_kept h hK (.inl hs)
      | true =>
        have hver : r.version = K.responseVersion := hv ⟨hs, type, ht, hp, hd⟩
        rw [rewriteResponseBytes_typed h hK hs ht (rewriteResponse_canonical hC hp hn hd),
          fromRawBytes_eq hs ht hver, hb]
        rfl
  · have hdec : PayloadDecodes K .nodeStatus r.payload := by
      rw [PayloadDecodes, if_pos rfl]
      exact ⟨status, hd⟩
    have hver : r.version = K.responseVersion := hv ⟨hs, _, ht, by decide, hdec⟩
    obtain ⟨payload, hp, hlen⟩ := hC.nodeStatus status _ (hK.nodeStatus.encode _ _ hd)
    obtain ⟨c, hc⟩ := hC.response q r { r with payload := payload } b hb hlen
    refine ⟨payload, c, hp, hc, ?_⟩
    rw [rewriteResponseBytes_typed h hK hs ht (rewriteResponse_nodeStatus hd hp),
      fromRawBytes_eq hs ht hver, hc]
    rfl
  · obtain ⟨c, hc⟩ := hC.response q r (K.newError .functionDisabled) b hb (Nat.zero_le _)
    refine ⟨_, c, BinaryPort.newError_isSuccess hK .functionDisabled,
      hK.binaryResponseAndRequest.decode _ _ hc, ?_⟩
    rw [rewriteResponseBytes_typed h hK hs ht rfl, hc]
    rfl

theorem Transparent.version (hK : K.Lawful) (hC : K.Canonical) (ht : Transparent K b q r)
    (hr : Rebuilt K r) : r.version = K.responseVersion := by
  obtain ⟨hs, type, htag, hp, hd⟩ := hr
  by_cases hn : type = .nodeStatus
  · subst hn
    rw [PayloadDecodes, if_pos rfl] at hd
    obtain ⟨status, hd⟩ := hd
    obtain ⟨payload, c, hpay, hc, hout⟩ := ht.nodeStatus hs htag status hd
    rw [rewriteResponseBytes_typed h hK hs htag (rewriteResponse_nodeStatus hd hpay),
      mapError_eq_ok] at hout
    -- one encoding of two responses
    have hsame := (hK.binaryResponseAndRequest.decode _ _ hc).symm.trans
      (hK.binaryResponseAndRequest.decode _ _ hout)
    simp only [Except.ok.injEq, Prod.mk.injEq, BinaryResponseAndRequest.mk.injEq, true_and,
      and_true, BinaryPort.fromRawBytes, BinaryResponse.mk.injEq] at hsame
    exact hsame.1
  · have hout := ht.unaltered (.inr (.inr ⟨type, htag, hp, hn, hd⟩))
    rw [rewriteResponseBytes_typed h hK hs htag (rewriteResponse_canonical hC hp hn hd),
      mapError_eq_ok] at hout
    have hsame := h.symm.trans (hK.binaryResponseAndRequest.decode _ _ hout)
    simp only [Except.ok.injEq, Prod.mk.injEq, BinaryResponseAndRequest.mk.injEq, true_and,
      and_true] at hsame
    rw [hsame]
    rfl

/-- **Rewriting is transparent apart from peers, and apart from the header version.** A reply is
rewritten as it should be if and only if its response is not rebuilt, or carries the very version
that the crate stamps. -/
theorem transparent_iff (hK : K.Lawful) (hC : K.Canonical) :
    Transparent K b q r ↔ (Rebuilt K r → r.version = K.responseVersion) :=
  ⟨fun ht hr => ht.version h hK hC hr, transparent_of_version h hK hC⟩

end Version

/-! ## On the wire -/

theorem wirePort_canonical : wirePort.Canonical where
  payload T v b h := by
    cases h
    rfl
  response q r r' b h hle := by
    obtain ⟨hq, hr, -⟩ := binaryResponseAndRequestCodec_toBytes.mp h
    exact ⟨_, binaryResponseAndRequestCodec_toBytes.mpr ⟨hq, Nat.lt_of_le_of_lt hle hr, rfl⟩⟩
  nodeStatus status b h := by
    obtain ⟨b₁, h₁, h⟩ := bind_eq_ok.mp h
    obtain ⟨b₂, h₂, h⟩ := bind_eq_ok.mp h
    cases h
    obtain ⟨c, hc, h₂⟩ := bind_eq_ok.mp h₂
    cases h₂
    obtain ⟨n, hn, hc⟩ := bind_eq_ok.mp hc
    obtain ⟨e, -, hc⟩ := bind_eq_ok.mp hc
    cases hc
    -- without peers their number is still there
    have hlen : n.length = 4 := by
      simp only [u32] at hn
      split_ifs at hn
      cases hn
      rfl
    refine ⟨b₁ ++ (u32le 0 ++ status.rest.2), ?_, by simp [hlen]⟩
    simp only [wirePort, nodeStatusCodec, Codec.refine, Codec.pair, h₁, Except.bind]
    rfl

/-- A node's answer with header version `version` to the request `[9]`: an uptime. -/
def uptimeReply (version : UInt8) : Bytes :=
  [1, 0, 0, 0, 9, version, 0, 0, 0, 1, 28, 8, 0, 0, 0, 1, 2, 3, 4, 5, 6, 7, 8]

/-- The response in that answer. -/
def uptimeResponse (version : UInt16) : BinaryResponse :=
  ⟨version, 0, some 28, [1, 2, 3, 4, 5, 6, 7, 8]⟩

theorem uptimeResponse_unaltered (version : UInt16) : Unaltered wirePort (uptimeResponse version) :=
  .inr (.inr ⟨.uptime, rfl, by decide, by decide, by
    rw [PayloadDecodes, if_neg (by decide)]
    exact fun T _ => ⟨_, rfl⟩⟩)

theorem transparent_iff_uptime :
    Transparent wirePort (uptimeReply 1) [9] (uptimeResponse 1) ↔
      (Rebuilt wirePort (uptimeResponse 1) → (uptimeResponse 1).version = 1) :=
  transparent_iff rfl wirePort_lawful wirePort_canonical

/-- **The header version is not carried over.** A node that answers with version 2 is quoted with
version 1. -/
theorem version_restamped :
    wirePort.binaryResponseAndRequest.fromBytes (uptimeReply 2) =
      .ok (⟨[9], uptimeResponse 2⟩, []) ∧
    rewriteResponseBytes wirePort (uptimeReply 2) = .ok (uptimeReply 1) ∧
    ¬ Transparent wirePort (uptimeReply 2) [9] (uptimeResponse 2) := by
  have hout : rewriteResponseBytes wirePort (uptimeReply 2) = .ok (uptimeReply 1) := rfl
  refine ⟨rfl, hout, fun ht => ?_⟩
  have hsame := ht.unaltered (uptimeResponse_unaltered 2)
  rw [hout] at hsame
  cases hsame

end CasperNodeProxy
