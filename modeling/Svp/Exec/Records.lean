import Svp.Exec.JsonFields
import Svp.Lib.OrderedMap

/-!
# Task records

`ArtifactRef`, `TaskSpec` and `TaskResult` with the checks a result passes
before it is committed (`validateTaskResult`, `findResultDefect`).

Unsigned 64-bit fields are natural numbers: the records carry them, and no code
here does arithmetic on them.
-/

namespace Svp.Exec

/-- The BLAKE3 function and the JSON library the records are written with. -/
structure Codec where
  blake3 : Bytes → Blake3Digest
  json : JsonLibrary

/-! ## Identifiers -/

def isLowerAlnum (c : Char) : Bool :=
  decide ('a' ≤ c ∧ c ≤ 'z') || decide ('0' ≤ c ∧ c ≤ '9')

def isAlnum (c : Char) : Bool := isLowerAlnum c || decide ('A' ≤ c ∧ c ≤ 'Z')

def kMaxMediaTypeNameChars : Nat := 127

def kRestrictedNameSymbols : List Char := ['!', '#', '$', '&', '-', '^', '_', '.', '+']

def isRestrictedName (name : List Char) : Bool :=
  match name with
  | [] => false
  | first :: _ =>
    decide (name.length ≤ kMaxMediaTypeNameChars) && isLowerAlnum first &&
      name.all fun c => isLowerAlnum c || kRestrictedNameSymbols.contains c

def isRecordIdentifier (value : String) : Bool :=
  value ≠ "" && value.toList.all fun c => isAlnum c || c == '.' || c == '_' || c == '-'

def isLowerIdentifier (value : String) : Bool :=
  value ≠ "" && value.toList.all fun c => isLowerAlnum c || c == '.' || c == '_'

/-- A lowercase `type/subtype`, split at the first slash. -/
def isMediaType (value : String) : Bool :=
  match value.toList.dropWhile (· != '/') with
  | [] => false
  | _ :: subtype =>
    isRestrictedName (value.toList.takeWhile (· != '/')) && isRestrictedName subtype

/-! ## Records -/

/-- Content-addressed reference to anything that crosses a process boundary. -/
structure ArtifactRef where
  blake3 : Blake3Digest
  bytes : Nat
  mediaType : String
  role : String
deriving DecidableEq, Inhabited

/-- Model identity a task depends on. -/
structure TaskModelRef where
  modelId : String
  modelBundleId : String
  bundleBlake3 : Blake3Digest
deriving DecidableEq

/-- Scheduler estimates of a task type's resource model. -/
structure TaskResources where
  estPeakRssMb : Nat := 0
  estCpuThreads : Nat := 0
  estSeconds : Nat := 0
deriving DecidableEq

/-- One schedulable unit of work. -/
structure TaskSpec where
  buildSessionId : String
  taskId : String
  taskType : String
  taskTypeVersion : Nat := 1
  dependsOn : List String := []
  modelRefs : List TaskModelRef := []
  inputs : Lib.OrderedMap String ArtifactRef := .empty
  parameters : Json := .object []
  parametersBlake3 : Blake3Digest := default
  cacheKey : Blake3Digest := default
  resources : TaskResources := {}

structure TaskTimingMs where
  queue : Nat := 0
  inputFetch : Nat := 0
  decode : Nat := 0
  compute : Nat := 0
  encode : Nat := 0

structure TaskCpuMs where
  user : Nat := 0
  system : Nat := 0

/-- Where and how an attempt ran. -/
structure TaskExecution where
  workerSessionId : String
  runtimeId : Blake3Digest := default
  timingMs : TaskTimingMs := {}
  cpuMs : TaskCpuMs := {}
  peakRssBytes : Nat := 0

inductive TaskStatus
  | succeeded
  | failed
deriving DecidableEq

structure TaskError where
  code : String
  message : String
  retryable : Bool := false
deriving DecidableEq

/-- Outcome of one attempt of one task. -/
structure TaskResult where
  taskId : String
  attempt : Nat
  status : TaskStatus := .succeeded
  outputs : List ArtifactRef := []
  outputDigest : Blake3Digest
  execution : TaskExecution
  diagnostics : Json := .object []
  error : Option TaskError := none

abbrev FramePayload := Bytes

/-- What one attempt produced: its result and, for a success, the bytes of each
output in output order. -/
structure AttemptOutput where
  result : TaskResult
  payloads : List FramePayload

/-- One verified result with its payloads and the executor that produced it. -/
structure CommittedResult where
  result : TaskResult
  payloads : List FramePayload
  executorId : String

/-! ## Artifact references -/

def validateArtifactRef (ref : ArtifactRef) : Except ExecError Unit := do
  require (isMediaType ref.mediaType) .invalidValue
    ("artifact media_type must be a lowercase type/subtype: `" ++ ref.mediaType ++ "`")
  require (isLowerIdentifier ref.role) .invalidValue
    ("artifact role must be a lowercase identifier: `" ++ ref.role ++ "`")

/-- The JSON object of a reference, its checks done. -/
def artifactRefJson (ref : ArtifactRef) : Json :=
  .object [("blake3", .string (blake3Hex ref.blake3)), ("bytes", .integer ref.bytes),
    ("media_type", .string ref.mediaType), ("role", .string ref.role)]

def artifactRefToJson (ref : ArtifactRef) : Except ExecError Json := do
  validateArtifactRef ref
  return artifactRefJson ref

def artifactRefFromJsonAt (value : Json) (path : String) : Except ExecError ArtifactRef := do
  requireObject value path
  rejectUnknownFields value ["blake3", "bytes", "media_type", "role"] path
  let blake3 ← requiredBlake3Hex value "blake3" path
  let bytes ← requiredUnsigned value "bytes" path
  let mediaType ← requiredString value "media_type" path
  let role ← requiredString value "role" path
  let ref : ArtifactRef := { blake3, bytes, mediaType, role }
  validateArtifactRef ref
  return ref

theorem artifactRefFromJsonAt_toJson {ref : ArtifactRef} (valid : validateArtifactRef ref = .ok ())
    (path : String) : artifactRefFromJsonAt (artifactRefJson ref) path = .ok ref := by
  have known : rejectUnknownFields (artifactRefJson ref)
      ["blake3", "bytes", "media_type", "role"] path = .ok () :=
    rejectUnknownFields_of path (by simp [artifactRefJson, Json.fields])
  have blake3 : requiredBlake3Hex (artifactRefJson ref) "blake3" path = .ok ref.blake3 :=
    requiredBlake3Hex_of path rfl
  have bytes : requiredUnsigned (artifactRefJson ref) "bytes" path = .ok ref.bytes :=
    requiredUnsigned_of path rfl
  have mediaType : requiredString (artifactRefJson ref) "media_type" path = .ok ref.mediaType :=
    requiredString_of path rfl
  have role : requiredString (artifactRefJson ref) "role" path = .ok ref.role :=
    requiredString_of path rfl
  have object : requireObject (artifactRefJson ref) path = .ok () := rfl
  simp [artifactRefFromJsonAt, object, known, blake3, bytes, mediaType, role, valid, bind,
    Except.bind, pure, Except.pure]

/-! ## Results -/

def kTaskResultSchema : String := "svp-task-result-v1"

def kOutputDigestDomain : String := "svp-task-output-digest-v1"

def taskStatusName : TaskStatus → String
  | .succeeded => "succeeded"
  | .failed => "failed"

def parseStatus (value : String) : Except ExecError TaskStatus :=
  if value = taskStatusName .succeeded then .ok .succeeded
  else if value = taskStatusName .failed then .ok .failed
  else .error ⟨.invalidValue,
    "task_result.status must be \"succeeded\" or \"failed\": `" ++ value ++ "`"⟩

section Codec

variable (codec : Codec)

/-- The JSON text the output digest is taken over. -/
def outputDigestMaterial (outputs : List ArtifactRef) : Except ExecError Bytes := do
  let refs ← outputs.mapM artifactRefToJson
  encodeCanonicalJson codec.json (.array [.string kOutputDigestDomain, .array refs])

def computeOutputDigest (outputs : List ArtifactRef) : Except ExecError Blake3Digest := do
  return codec.blake3 (← outputDigestMaterial codec outputs)

def validateTaskExecution (execution : TaskExecution) : Except ExecError Unit :=
  require (isRecordIdentifier execution.workerSessionId) .invalidValue
    ("task_result.execution.worker_session_id must be a " ++
      "non-empty [A-Za-z0-9._-] identifier")

def validateStatusConsistency (result : TaskResult) : Except ExecError Unit :=
  match result.status, result.error with
  | .succeeded, some _ =>
    .error ⟨.invalidValue, "task_result.error must be absent when status is succeeded"⟩
  | .succeeded, none => .ok ()
  | .failed, none =>
    .error ⟨.missingField, "task_result.error is required when status is failed"⟩
  | .failed, some error => do
    require (isLowerIdentifier error.code) .invalidValue
      ("task_result.error.code must be a lowercase identifier: `" ++ error.code ++ "`")
    require result.outputs.isEmpty .invalidValue
      "task_result.outputs must be empty when status is failed"

def requireDiagnosticsObject : Json → Except ExecError Unit
  | .object _ => .ok ()
  | _ => .error ⟨.wrongType, "task_result.diagnostics must be a JSON object"⟩

/-- The semantic checks shared by encode, decode and the scheduler. -/
def validateTaskResult (result : TaskResult) : Except ExecError Unit := do
  require (isRecordIdentifier result.taskId) .invalidValue
    ("task_result.task_id must be a non-empty [A-Za-z0-9._-] identifier: `" ++
      result.taskId ++ "`")
  require (result.attempt ≠ 0) .invalidValue "task_result.attempt must be at least 1"
  requireDiagnosticsObject result.diagnostics
  let _ ← encodeCanonicalJson codec.json result.diagnostics
  validateStatusConsistency result
  validateTaskExecution result.execution
  result.outputs.forM validateArtifactRef
  require ((← computeOutputDigest codec result.outputs) = result.outputDigest) .digestMismatch
    "task_result.output_digest does not match the outputs"

/-- Position of the first payload whose length or BLAKE3 differs from its
output's; the lists have equal length. -/
def findPayloadDefect : List ArtifactRef → List FramePayload → Nat → Option Nat
  | ref :: refs, payload :: payloads, index =>
    if payload.length ≠ ref.bytes ∨ codec.blake3 payload ≠ ref.blake3 then some index
    else findPayloadDefect refs payloads (index + 1)
  | _, _, _ => none

/-- Why a result may not be committed for `spec` as attempt `attempt`. -/
def findResultDefect (spec : TaskSpec) (attempt : Nat) (result : TaskResult)
    (payloads : List FramePayload) : Option String :=
  match validateTaskResult codec result with
  | .error error => some ("result record rejected: " ++ error.message)
  | .ok () =>
    if result.taskId ≠ spec.taskId then
      some ("result names task `" ++ result.taskId ++ "`, expected `" ++ spec.taskId ++ "`")
    else if result.attempt ≠ attempt then
      some ("result names attempt " ++ toString result.attempt ++ ", expected " ++
        toString attempt)
    else if payloads.length ≠ result.outputs.length then
      some ("result carries " ++ toString payloads.length ++ " payloads for " ++
        toString result.outputs.length ++ " outputs")
    else
      (findPayloadDefect codec result.outputs payloads 0).map fun index =>
        "payload " ++ toString index ++ " does not match outputs[" ++ toString index ++ "]"

/-- A failed result that passes validation carries its error. -/
theorem validateTaskResult_error {result : TaskResult}
    (valid : validateTaskResult codec result = .ok ()) (failed : result.status = .failed) :
    result.error.isSome := by
  unfold validateTaskResult at valid
  obtain ⟨_, -, valid⟩ := bind_eq_ok.mp valid
  obtain ⟨_, -, valid⟩ := bind_eq_ok.mp valid
  obtain ⟨_, -, valid⟩ := bind_eq_ok.mp valid
  obtain ⟨_, -, valid⟩ := bind_eq_ok.mp valid
  obtain ⟨_, consistent, -⟩ := bind_eq_ok.mp valid
  cases error : result.error with
  | none => simp [validateStatusConsistency, failed, error] at consistent
  | some e => rfl

/-- What a result without defect satisfies. -/
theorem findResultDefect_eq_none {spec : TaskSpec} {attempt : Nat} {result : TaskResult}
    {payloads : List FramePayload} :
    findResultDefect codec spec attempt result payloads = none ↔
      validateTaskResult codec result = .ok () ∧ result.taskId = spec.taskId ∧
        result.attempt = attempt ∧ payloads.length = result.outputs.length ∧
        findPayloadDefect codec result.outputs payloads 0 = none := by
  unfold findResultDefect
  cases validateTaskResult codec result with
  | error e => simp
  | ok u =>
    simp only [true_and]
    split_ifs with task attempt' count
    · simp [task]
    · simp [attempt']
    · simp [count]
    · rw [Option.map_eq_none_iff]
      simp_all

theorem findPayloadDefect_eq_none {refs : List ArtifactRef} {payloads : List FramePayload}
    {index : Nat} (count : payloads.length = refs.length) :
    findPayloadDefect codec refs payloads index = none ↔
      List.Forall₂ (fun ref payload => payload.length = ref.bytes ∧ codec.blake3 payload = ref.blake3)
        refs payloads := by
  induction refs generalizing payloads index with
  | nil =>
    obtain rfl : payloads = [] := List.length_eq_zero_iff.mp count
    simp [findPayloadDefect]
  | cons ref refs ih =>
    cases payloads with
    | nil => simp at count
    | cons payload payloads =>
      rw [findPayloadDefect, List.forall₂_cons]
      split
      · next bad => simp; tauto
      · next good =>
        rw [ih (by simpa using count)]
        tauto

end Codec

/-! ## A codec to evaluate with -/

/-- BLAKE3 of `["svp-task-output-digest-v1",[]]`, the digest of no outputs. -/
def emptyOutputsDigest : Blake3Digest :=
  ⟨[0x45, 0x1E, 0x4C, 0x65, 0x2A, 0xAD, 0x31, 0x3A, 0x06, 0xEF, 0xD4, 0x49, 0x21, 0xE5, 0xE5, 0x3C,
    0x44, 0xE2, 0xF1, 0x87, 0xC8, 0xFA, 0xDD, 0xE8, 0xFD, 0x45, 0xC4, 0xE3, 0x6B, 0x92, 0x00, 0xB4],
    rfl⟩

/-- BLAKE3 of no bytes. -/
def emptyBytesDigest : Blake3Digest :=
  ⟨[0xAF, 0x13, 0x49, 0xB9, 0xF5, 0xF9, 0xA1, 0xA6, 0xA0, 0x40, 0x4D, 0xEA, 0x36, 0xDC, 0xC9, 0x49,
    0x9B, 0xCB, 0x25, 0xC9, 0xAD, 0xC1, 0x12, 0xB7, 0xCC, 0x9A, 0x93, 0xCA, 0xE4, 0x1F, 0x32, 0x62],
    rfl⟩

/-- An output of no bytes. -/
def emptyOutput : ArtifactRef :=
  { blake3 := emptyBytesDigest, bytes := 0, mediaType := "application/octet-stream", role := "result" }

/-- BLAKE3 of the digest material of the one output `emptyOutput`. -/
def emptyOutputDigest : Blake3Digest :=
  ⟨[0x92, 0x17, 0xB1, 0xAB, 0x80, 0x84, 0x23, 0x50, 0xD1, 0xFC, 0x54, 0x5C, 0xDF, 0x4A, 0x26, 0x6D,
    0x25, 0xDA, 0x35, 0x91, 0x90, 0xB1, 0x6F, 0x06, 0x4D, 0x74, 0x2E, 0xC7, 0x7A, 0xAB, 0x04, 0x28],
    rfl⟩

/-- Agrees with BLAKE3 and the JSON library on the few texts the small runs in
this development hash and parse. -/
def sampleCodec : Codec where
  blake3 bytes :=
    if bytes = [] then emptyBytesDigest
    else if bytes = utf8 "[\"svp-task-output-digest-v1\",[]]" then emptyOutputsDigest
    else emptyOutputDigest
  json :=
    { floatText := fun _ => utf8 "0.0"
      floatText_plain := fun _ => by decide +kernel
      parse := fun text => if text = utf8 "\x7b\x7d" then .ok (.object []) else .error "parse error" }

end Svp.Exec
