import Mathlib.Tactic.SplitIfs
import CasperNodeProxy.Binary.Port

/-!
# Requests on the binary port

* `parseRequest`: the checks a client payload passes before it may be forwarded.
* `buildErrorResponse`: the answer of the proxy itself, which echoes the request.
* **`parseRequest_eq_ok`**: which payloads pass.
* `ErrorReply`, `buildErrorResponse_reply`: what the answer of the proxy decodes to.
-/

namespace CasperNodeProxy

open Wire

/-- `std::io::ErrorKind`, as far as a retry depends on it. -/
inductive ErrorKind
  | unexpectedEof
  | connectionReset
  | connectionAborted
  | brokenPipe
  | other
  deriving DecidableEq, Repr

/-- Errors produced by binary port forwarding. -/
inductive BinaryError
  | io (kind : ErrorKind)
  | channelClosed
  | connectionUnavailable
  | requestTooLarge (allowed got : ℕ)
  | responseEncoding (err : ReprError)
  deriving DecidableEq, Repr

/-- Why a payload is not forwarded. -/
inductive RequestParseError
  | unsupportedVersion
  | invalidRequest
  deriving DecidableEq, Repr

/-- The code of the error response to such a payload. -/
def RequestParseError.errorCode : RequestParseError → ErrorCode
  | .unsupportedVersion => .unsupportedRequest
  | .invalidRequest => .badRequest

/-- What is read of a payload. -/
structure ParsedRequest where
  header : CommandHeader
  informationRequest : Option InformationRequest
  deriving DecidableEq, Repr

variable (K : BinaryPort)

/-- The information request of a command: the second tag and the key must decode too. -/
def parseInformationRequest : Command → Except RequestParseError (Option InformationRequest)
  | .get (.information infoTypeTag key) =>
    match K.informationRequestTag infoTypeTag with
    | none => .error .invalidRequest
    | some infoTag =>
      match K.informationRequest infoTag key with
      | .error _ => .error .invalidRequest
      | .ok infoRequest => .ok (some infoRequest)
  | _ => .ok none

/-- `parse_request`. -/
def parseRequest (payload : Bytes) : Except RequestParseError ParsedRequest :=
  match K.commandHeader.fromBytes payload with
  | .error _ => .error .invalidRequest
  | .ok (header, remainder) =>
    if header.version ≠ K.headerVersion then .error .unsupportedVersion
    else
      match K.commandTag header.typeTag with
      | none => .error .invalidRequest
      | some tag =>
        match K.command tag remainder with
        | .error _ => .error .invalidRequest
        | .ok command =>
          match parseInformationRequest K command with
          | .error err => .error err
          | .ok informationRequest => .ok ⟨header, informationRequest⟩

/-- `build_error_response`: an error response that echoes the request. -/
def buildErrorResponse (code : ErrorCode) (request : Bytes) : Except BinaryError Bytes :=
  match K.binaryResponseAndRequest.toBytes ⟨request, K.newError code⟩ with
  | .error err => .error (.responseEncoding err)
  | .ok bytes => .ok bytes

/-! ## Which payloads pass -/

/-- The command carries a valid information request, or none. -/
inductive Informs : Command → Option InformationRequest → Prop
  | information {infoTypeTag key infoTag infoRequest}
      (ht : K.informationRequestTag infoTypeTag = some infoTag)
      (hk : K.informationRequest infoTag key = .ok infoRequest) :
      Informs (.get (.information infoTypeTag key)) (some infoRequest)
  | get : Informs (.get .other) none
  | other : Informs .other none

/-- The payload is a header of the right version with a valid command tag, and a command that
decodes with nothing left over, with this information request. -/
def Decodes (payload : Bytes) (informationRequest : Option InformationRequest) : Prop :=
  ∃ header remainder tag command, K.commandHeader.fromBytes payload = .ok (header, remainder) ∧
    header.version = K.headerVersion ∧ K.commandTag header.typeTag = some tag ∧
    K.command tag remainder = .ok command ∧ Informs K command informationRequest

variable {K}

theorem parseInformationRequest_eq_ok {command : Command} {info : Option InformationRequest} :
    parseInformationRequest K command = .ok info ↔ Informs K command info := by
  constructor
  · intro h
    unfold parseInformationRequest at h
    split at h
    · split at h
      · cases h
      · next ht =>
        split at h
        · cases h
        · next hk =>
          cases h
          exact .information ht hk
    · next hno =>
      cases h
      cases command with
      | other => exact .other
      | get request =>
        cases request with
        | other => exact .get
        | information tag key => exact absurd rfl (hno tag key)
  · intro h
    cases h with
    | information ht hk => simp only [parseInformationRequest, ht, hk]
    | get | other => rfl

/-- **A payload passes if and only if it decodes.** -/
theorem parseRequest_eq_ok {payload : Bytes} {info : Option InformationRequest} :
    (∃ parsed, parseRequest K payload = .ok parsed ∧ parsed.informationRequest = info) ↔
      Decodes K payload info := by
  constructor
  · rintro ⟨parsed, h, rfl⟩
    unfold parseRequest at h
    split at h
    · cases h
    · next header remainder hd =>
      split_ifs at h with hv
      rw [ne_eq, not_not] at hv
      split at h
      · cases h
      · next tag ht =>
        split at h
        · cases h
        · next command hc =>
          split at h
          · cases h
          · next info hi =>
            cases h
            exact ⟨header, remainder, tag, command, hd, hv, ht, hc,
              parseInformationRequest_eq_ok.mp hi⟩
  · rintro ⟨header, remainder, tag, command, hd, hv, ht, hc, hi⟩
    refine ⟨⟨header, info⟩, ?_, rfl⟩
    simp only [parseRequest, hd, hv, ne_eq, not_true_eq_false, if_false, ht, hc,
      parseInformationRequest_eq_ok.mpr hi]

/-- The encoder takes the error responses to a payload. -/
def ErrorsEncode (K : BinaryPort) (payload : Bytes) : Prop :=
  ∀ code, ∃ bytes, K.binaryResponseAndRequest.toBytes ⟨payload, K.newError code⟩ = .ok bytes

/-- The result decodes completely as a response that echoes the payload, with a non-success error
code and an empty response payload. -/
def ErrorReply (K : BinaryPort) (payload : Bytes) (result : Except BinaryError Bytes) : Prop :=
  ∃ bytes r, result = .ok bytes ∧
    K.binaryResponseAndRequest.fromBytes bytes = .ok (⟨payload, r⟩, []) ∧
    r.isSuccess = false ∧ r.payload = []

theorem buildErrorResponse_reply (hK : K.Lawful) {payload : Bytes} (hE : ErrorsEncode K payload)
    (code : ErrorCode) : ErrorReply K payload (buildErrorResponse K code payload) := by
  obtain ⟨bytes, hb⟩ := hE code
  refine ⟨bytes, K.newError code, ?_, hK.binaryResponseAndRequest.decode _ _ hb,
    BinaryPort.newError_isSuccess hK code, rfl⟩
  simp only [buildErrorResponse, hb]

end CasperNodeProxy
