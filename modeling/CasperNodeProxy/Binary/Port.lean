import CasperNodeProxy.Lib.Wire

/-!
# The binary port

What `binary_proxy` uses of `casper_binary_port` and `casper_types`, which are not part of the
repository: their records as far as the proxy reads them, and their functions and constants as the
fields of a parameter `BinaryPort`.

* `BinaryPort.Lawful`: the documented behaviour that results about responses rely on.
-/

namespace CasperNodeProxy

open Wire

/-- `casper_types::bytesrepr::Error`. -/
inductive ReprError
  | earlyEndOfStream
  | formatting
  | leftOverBytes
  | outOfMemory
  | notRepresentable
  | exceededRecursionDepth
  deriving DecidableEq, Repr

/-- The error codes that the proxy answers with. -/
inductive ErrorCode
  | functionDisabled
  | unsupportedRequest
  | badRequest
  | internalError
  deriving DecidableEq, Repr

/-- `ResponseType`: what the payload of a successful response is. -/
inductive ResponseType
  | blockHeaderV1 | blockHeader | blockBodyV1 | blockBody
  | approvalsHashesV1 | approvalsHashes | blockSignaturesV1 | blockSignatures
  | deploy | transaction | executionResultV1 | executionResult
  | wasmV1Result | transfers | finalizedDeployApprovals | finalizedApprovals
  | blockWithSignatures | transactionWithExecutionInfo | peers | lastProgress
  | reactorState | networkName | consensusValidatorChanges | blockSynchronizerStatus
  | availableBlockRange | nextUpgrade | consensusStatus | chainspecRawBytes
  | uptime | highestBlockSequenceCheckResult | speculativeExecutionResult | globalStateQueryResult
  | storedValues | getTrieFullResult | nodeStatus | dictionaryQueryResult
  | balanceResponse | reward | protocolVersion | contractPackageWithProof
  | contractInformation | accountInformation | packageWithProof | addressableEntityInformation
  deriving DecidableEq, Repr

/-- The crates' payload types that responses are decoded to. -/
inductive PayloadType
  | blockHeaderV1 | blockHeader | blockBodyV1 | blockBody
  | blockSignaturesV1 | blockSignatures | deploy | transaction
  | executionResultV1 | executionResult | vecTransfer | vecApproval
  | blockWithSignatures | transactionWithExecutionInfo | lastProgress | reactorStateName
  | networkName | consensusValidatorChanges | blockSynchronizerStatus | availableBlockRange
  | nextUpgrade | consensusStatus | chainspecRawBytes | uptime
  | speculativeExecutionResult | globalStateQueryResult | vecStoredValue | getTrieFullResult
  | dictionaryQueryResult | balanceResponse | rewardResponse | protocolVersion
  | contractPackageWithProof | contractInformation | accountInformation | packageWithProof
  | addressableEntityInformation
  deriving DecidableEq, Repr

/-! ## Records -/

/-- `CommandHeader`. -/
structure CommandHeader where
  version : UInt16
  typeTag : UInt8
  id : UInt16
  deriving DecidableEq, Repr

/-- `GetRequest`; the proxy only looks into the information requests. -/
inductive GetRequest
  | information (infoTypeTag : UInt16) (key : Bytes)
  | other
  deriving DecidableEq, Repr

/-- `Command`. -/
inductive Command
  | get (request : GetRequest)
  | other
  deriving DecidableEq, Repr

/-- `InformationRequest`; the proxy only tells the peers request from the others. -/
inductive InformationRequest
  | peers
  | other
  deriving DecidableEq, Repr

/-- `BinaryResponse`: its header and its payload. -/
structure BinaryResponse where
  version : UInt16
  errorCode : UInt16
  returnedDataTypeTag : Option UInt8
  payload : Bytes
  deriving DecidableEq, Repr

/-- `is_success`. -/
def BinaryResponse.isSuccess (r : BinaryResponse) : Bool := r.errorCode == 0

/-- `BinaryResponseAndRequest`: a response that echoes its request. -/
structure BinaryResponseAndRequest where
  request : Bytes
  response : BinaryResponse
  deriving DecidableEq, Repr

/-- An entry of `Peers`. -/
structure PeerEntry where
  nodeId : String
  address : String
  deriving DecidableEq, Repr

/-- `NodeStatus`: the peers and all its other fields. -/
structure NodeStatus (Rest : Type) where
  peers : List PeerEntry
  rest : Rest

/-! ## The crates as a parameter -/

/-- The functions and constants of the two crates. -/
structure BinaryPort where
  /-- `CommandHeader::from_bytes`. -/
  commandHeader : Codec ReprError CommandHeader
  /-- `CommandHeader::HEADER_VERSION`. -/
  headerVersion : UInt16
  CommandTag : Type
  /-- `CommandTag::try_from`. -/
  commandTag : UInt8 → Option CommandTag
  /-- `Command::try_from`. -/
  command : CommandTag → Bytes → Except ReprError Command
  InformationRequestTag : Type
  /-- `InformationRequestTag::try_from`. -/
  informationRequestTag : UInt16 → Option InformationRequestTag
  /-- `InformationRequest::try_from`. -/
  informationRequest : InformationRequestTag → Bytes → Except ReprError InformationRequest
  /-- The header version that `new_error` and `from_raw_bytes` stamp. -/
  responseVersion : UInt16
  /-- `ErrorCode as u16`. -/
  errorCode : ErrorCode → UInt16
  /-- `ResponseType as u8`. -/
  responseTypeTag : ResponseType → UInt8
  /-- `ResponseType::try_from`. -/
  responseType : UInt8 → Option ResponseType
  binaryResponse : Codec ReprError BinaryResponse
  binaryResponseAndRequest : Codec ReprError BinaryResponseAndRequest
  Payload : PayloadType → Type
  payload : (T : PayloadType) → Codec ReprError (Payload T)
  NodeStatusRest : Type
  nodeStatus : Codec ReprError (NodeStatus NodeStatusRest)

namespace BinaryPort

variable (K : BinaryPort)

/-- `BinaryResponse::new_error`. -/
def newError (code : ErrorCode) : BinaryResponse := ⟨K.responseVersion, K.errorCode code, none, []⟩

/-- `BinaryResponse::from_raw_bytes`. -/
def fromRawBytes (type : ResponseType) (payload : Bytes) : BinaryResponse :=
  ⟨K.responseVersion, 0, some (K.responseTypeTag type), payload⟩

/-- Documented behaviour of the crates: `from_bytes` and `to_bytes` of a response, of a response
with its request and of a node status are mutually inverse, `ResponseType::try_from` inverts the
cast to `u8`, and no error code is the code of success. -/
structure Lawful : Prop where
  binaryResponse : K.binaryResponse.Inverse
  binaryResponseAndRequest : K.binaryResponseAndRequest.Inverse
  nodeStatus : K.nodeStatus.Inverse
  responseType : ∀ tag type, K.responseType tag = some type ↔ tag = K.responseTypeTag type
  errorCode : ∀ code, K.errorCode code ≠ 0

variable {K}

theorem newError_isSuccess (hK : K.Lawful) (code : ErrorCode) :
    (K.newError code).isSuccess = false := beq_false_of_ne (hK.errorCode code)

theorem responseTypeTag_injective (hK : K.Lawful) : Function.Injective K.responseTypeTag := by
  intro t u h
  have ht := (hK.responseType _ t).mpr rfl
  have hu := (hK.responseType _ u).mpr rfl
  rw [h, hu] at ht
  exact (Option.some.inj ht).symm

end BinaryPort

end CasperNodeProxy
