import Svp.Exec.Frame
import Svp.Exec.Scheduler
import Svp.Exec.TaskResultCodec
import Svp.Exec.TaskSpecCodec

/-!
# The frames an executor and its worker exchange

ASSIGN, CANCEL and SHUTDOWN go to the worker; HEARTBEAT, REJECT and RESULT come
back. The main results are that every frame a worker makes is read back as what
it was made of (`leaseIdFromHeartbeatFrame_make`, `leaseRejectionFromFrame_make`,
`taskResultFromResultFrame_make`), and that the payloads of a RESULT frame that
is read are the bytes its outputs name (`taskResultFromResultFrame_payloads`).
-/

namespace Svp.Exec

/-! ## Shared checks -/

def requireControlFrame (frame : Frame) (expected : MessageType) : Except ExecError Unit := do
  require (frame.type = expected) .frameMalformed
    ("expected a " ++ messageTypeName expected ++ " frame, got " ++ messageTypeName frame.type)
  require frame.payloads.isEmpty .frameMalformed
    (messageTypeName expected ++ " frames carry no payloads")

def checkedLeaseId (leaseId : String) : Except ExecError String := do
  require (isRecordIdentifier leaseId) .invalidValue
    ("lease_id must be a non-empty [A-Za-z0-9._-] identifier: `" ++ leaseId ++ "`")
  return leaseId

def positiveMs (value : Millis) (name : String) : Except ExecError Nat := do
  require (0 < value) .invalidValue ("lease." ++ name ++ " must be at least 1 ms")
  return value.toNat

def checkedRejectionCode (code : String) : Except ExecError String := do
  require (code ≠ "" && code.toList.all fun c => isLowerAlnum c || c == '_') .invalidValue
    ("REJECT code must be a non-empty [a-z0-9_] identifier: `" ++ code ++ "`")
  return code

/-! ## Frames that name a lease -/

def leaseIdFrame (type : MessageType) (leaseId : String) : Except ExecError Frame := do
  let leaseId ← checkedLeaseId leaseId
  return { type, body := .object [("lease_id", .string leaseId)], payloads := [] }

def leaseIdFrom (frame : Frame) (type : MessageType) : Except ExecError String := do
  requireControlFrame frame type
  let path := messageTypeName type ++ ".body"
  requireObject frame.body path
  rejectUnknownFields frame.body ["lease_id"] path
  checkedLeaseId (← requiredString frame.body "lease_id" path)

def makeHeartbeatFrame (leaseId : String) : Except ExecError Frame := leaseIdFrame .heartbeat leaseId

def leaseIdFromHeartbeatFrame (frame : Frame) : Except ExecError String := leaseIdFrom frame .heartbeat

def makeCancelFrame (leaseId : String) : Except ExecError Frame := leaseIdFrame .cancel leaseId

def leaseIdFromCancelFrame (frame : Frame) : Except ExecError String := leaseIdFrom frame .cancel

def makeShutdownFrame : Frame := { type := .shutdown, body := .object [], payloads := [] }

theorem checkedLeaseId_eq_ok {leaseId checked : String}
    (accepted : checkedLeaseId leaseId = .ok checked) :
    isRecordIdentifier leaseId = true ∧ checked = leaseId := by
  obtain ⟨_, valid, same⟩ := bind_eq_ok.mp accepted
  exact ⟨require_eq_ok.mp valid, by cases same; rfl⟩

/-- A lease id is read back from the frame made of it. -/
theorem leaseIdFrom_leaseIdFrame {type : MessageType} {leaseId : String} {frame : Frame}
    (made : leaseIdFrame type leaseId = .ok frame) : leaseIdFrom frame type = .ok leaseId := by
  obtain ⟨checked, accepted, built⟩ := bind_eq_ok.mp made
  obtain ⟨-, rfl⟩ := checkedLeaseId_eq_ok accepted
  cases built
  simp [leaseIdFrom, requireControlFrame, requireObject, rejectUnknownFields, Json.fields, require,
    requiredString, requiredField, accepted, bind, Except.bind]

theorem leaseIdFromHeartbeatFrame_make {leaseId : String} {frame : Frame}
    (made : makeHeartbeatFrame leaseId = .ok frame) :
    leaseIdFromHeartbeatFrame frame = .ok leaseId :=
  leaseIdFrom_leaseIdFrame made

/-! ## REJECT -/

/-- A worker's refusal to run one lease it was assigned. -/
structure LeaseRejection where
  leaseId : String
  code : String
  message : String
deriving DecidableEq

def makeRejectFrame (rejection : LeaseRejection) : Except ExecError Frame := do
  let code ← checkedRejectionCode rejection.code
  let leaseId ← checkedLeaseId rejection.leaseId
  return { type := .reject
           body := .object [("code", .string code), ("lease_id", .string leaseId),
             ("message", .string rejection.message)]
           payloads := [] }

def leaseRejectionFromFrame (frame : Frame) : Except ExecError LeaseRejection := do
  requireControlFrame frame .reject
  requireObject frame.body "REJECT.body"
  rejectUnknownFields frame.body ["code", "lease_id", "message"] "REJECT.body"
  let leaseId ← checkedLeaseId (← requiredString frame.body "lease_id" "REJECT.body")
  let code ← checkedRejectionCode (← requiredString frame.body "code" "REJECT.body")
  let message ← requiredString frame.body "message" "REJECT.body"
  return { leaseId, code, message }

theorem leaseRejectionFromFrame_make {rejection : LeaseRejection} {frame : Frame}
    (made : makeRejectFrame rejection = .ok frame) :
    leaseRejectionFromFrame frame = .ok rejection := by
  obtain ⟨code, codeOk, made⟩ := bind_eq_ok.mp made
  obtain ⟨leaseId, leaseOk, made⟩ := bind_eq_ok.mp made
  obtain ⟨-, rfl⟩ := checkedLeaseId_eq_ok leaseOk
  obtain ⟨_, -, same⟩ := bind_eq_ok.mp codeOk
  cases same
  cases made
  simp [leaseRejectionFromFrame, requireControlFrame, requireObject, rejectUnknownFields,
    Json.fields, require, requiredString, requiredField, List.lookup, leaseOk, codeOk, bind,
    Except.bind, pure, Except.pure]

section Codec

variable (codec : Codec)

/-! ## ASSIGN -/

def makeLeasedAssignFrame (spec : TaskSpec) (lease : Lease) : Except ExecError Frame := do
  require (lease.attempt ≠ 0) .invalidValue "lease.attempt must be at least 1"
  let expiresInMs ← positiveMs lease.duration "expires_in_ms"
  let heartbeatIntervalMs ← positiveMs lease.heartbeatInterval "heartbeat_interval_ms"
  let leaseId ← checkedLeaseId lease.leaseId
  let taskSpec ← taskSpecToJson codec spec
  return { type := .assign
           body := .object [
             ("lease", .object [("attempt", .integer lease.attempt),
               ("expires_in_ms", .integer expiresInMs),
               ("heartbeat_interval_ms", .integer heartbeatIntervalMs),
               ("lease_id", .string leaseId)]),
             ("task_spec", taskSpec)]
           payloads := [] }

def kMaxMillis : Nat := 2 ^ 63 - 1

def positiveField (object : Json) (name path : String) : Except ExecError Nat := do
  let value ← requiredUnsigned object name path
  require (value ≠ 0) .invalidValue (childPath path name ++ " must be at least 1")
  return value

/-- A count of milliseconds, a signed 64-bit number. -/
def positiveMsField (object : Json) (name path : String) : Except ExecError Millis := do
  let value ← positiveField object name path
  require (value ≤ kMaxMillis) .invalidValue (childPath path name ++ " is out of range")
  return value

structure LeasedAssignment where
  spec : TaskSpec
  lease : Lease

def leasedAssignmentFromFrame (frame : Frame) : Except ExecError LeasedAssignment := do
  requireControlFrame frame .assign
  requireObject frame.body "ASSIGN.body"
  rejectUnknownFields frame.body ["lease", "task_spec"] "ASSIGN.body"
  let leaseJson ← requiredObject frame.body "lease" "ASSIGN.body"
  rejectUnknownFields leaseJson ["attempt", "expires_in_ms", "heartbeat_interval_ms", "lease_id"]
    "ASSIGN.body.lease"
  let leaseId ← checkedLeaseId (← requiredString leaseJson "lease_id" "ASSIGN.body.lease")
  let attempt ← positiveField leaseJson "attempt" "ASSIGN.body.lease"
  let duration ← positiveMsField leaseJson "expires_in_ms" "ASSIGN.body.lease"
  let heartbeatInterval ← positiveMsField leaseJson "heartbeat_interval_ms" "ASSIGN.body.lease"
  let taskSpec ← requiredObject frame.body "task_spec" "ASSIGN.body"
  let spec ← taskSpecFromJson codec taskSpec
  return { spec, lease := { leaseId, attempt, duration, heartbeatInterval } }

/-! ## RESULT -/

def singleMemberBody (frame : Frame) (expectedType : MessageType) (member : String) :
    Except ExecError Json := do
  require (frame.type = expectedType) .frameMalformed
    ("expected a " ++ messageTypeName expectedType ++ " frame, got " ++ messageTypeName frame.type)
  let path := messageTypeName expectedType ++ ".body"
  requireObject frame.body path
  rejectUnknownFields frame.body [member] path
  requiredObject frame.body member path

/-- Payload `i` must be the bytes of `outputs[i]`. The caller picks the codes:
building a frame from bad data is one error, receiving one is another. -/
def requirePayloadsMatch (outputs : List ArtifactRef) (payloads : List FramePayload)
    (countCode contentCode : ExecErrorCode) : Except ExecError Unit := do
  require (payloads.length = outputs.length) countCode
    ("RESULT frame carries " ++ toString payloads.length ++ " payloads for " ++
      toString outputs.length ++ " outputs")
  match findPayloadDefect codec outputs payloads 0 with
  | none => .ok ()
  | some index => .error ⟨contentCode, "RESULT payload " ++ toString index ++
      " does not match outputs[" ++ toString index ++ "]"⟩

def makeResultFrame (result : TaskResult) (outputPayloads : List FramePayload) :
    Except ExecError Frame := do
  requirePayloadsMatch codec result.outputs outputPayloads .invalidValue .invalidValue
  let taskResult ← taskResultToJson codec result
  return { type := .result, body := .object [("task_result", taskResult)], payloads := outputPayloads }

def taskResultFromResultFrame (frame : Frame) : Except ExecError TaskResult := do
  let body ← singleMemberBody frame .result "task_result"
  let result ← taskResultFromJson codec body
  requirePayloadsMatch codec result.outputs frame.payloads .frameMalformed .payloadHashMismatch
  return result

theorem requirePayloadsMatch_eq_ok {outputs : List ArtifactRef} {payloads : List FramePayload}
    {countCode contentCode : ExecErrorCode} :
    requirePayloadsMatch codec outputs payloads countCode contentCode = .ok () ↔
      payloads.length = outputs.length ∧ findPayloadDefect codec outputs payloads 0 = none := by
  unfold requirePayloadsMatch
  rw [bind_eq_ok]
  cases defect : findPayloadDefect codec outputs payloads 0 <;> simp

/-- The payloads of a RESULT frame that is read are the bytes of the outputs. -/
theorem taskResultFromResultFrame_payloads {frame : Frame} {result : TaskResult}
    (read : taskResultFromResultFrame codec frame = .ok result) :
    List.Forall₂ (fun ref payload => payload.length = ref.bytes ∧ codec.blake3 payload = ref.blake3)
      result.outputs frame.payloads := by
  obtain ⟨body, -, read⟩ := bind_eq_ok.mp read
  obtain ⟨decoded, -, read⟩ := bind_eq_ok.mp read
  obtain ⟨_, payloads, same⟩ := bind_eq_ok.mp read
  obtain ⟨count, none⟩ := (requirePayloadsMatch_eq_ok codec).mp payloads
  cases same
  exact (findPayloadDefect_eq_none codec count).mp none

theorem taskResultFromResultFrame_make {result : TaskResult} {payloads : List FramePayload}
    {frame : Frame} (made : makeResultFrame codec result payloads = .ok frame) :
    taskResultFromResultFrame codec frame = .ok result := by
  obtain ⟨_, matched, made⟩ := bind_eq_ok.mp made
  obtain ⟨value, written, made⟩ := bind_eq_ok.mp made
  cases made
  have received : requirePayloadsMatch codec result.outputs payloads .frameMalformed
      .payloadHashMismatch = .ok () :=
    (requirePayloadsMatch_eq_ok codec).mpr ((requirePayloadsMatch_eq_ok codec).mp matched)
  obtain ⟨fields, object⟩ : ∃ fields, value = .object fields := by
    obtain ⟨_, -, same⟩ := bind_eq_ok.mp written
    cases same
    exact ⟨_, rfl⟩
  have body : singleMemberBody
      { type := .result, body := .object [("task_result", value)], payloads } .result
      "task_result" = .ok value := by
    subst object
    simp [singleMemberBody, require, requireObject, rejectUnknownFields, Json.fields,
      requiredObject, requiredField, bind, Except.bind, pure, Except.pure]
  simp only [taskResultFromResultFrame, body, taskResultFromJson_taskResultToJson codec written,
    received, bind, Except.bind, pure, Except.pure]

end Codec

end Svp.Exec
