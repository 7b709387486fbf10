import Svp.Exec.Records

/-!
# The JSON form of a task result

`taskResultFromJson_taskResultToJson` is the round trip: what is written of a
valid result is read back as the same result. `decodeTaskResult_encodeTaskResult`
is the round trip of the canonical text.
-/

namespace Svp.Exec

/-! ## Execution records -/

def taskTimingJson (timing : TaskTimingMs) : Json :=
  .object [("compute", .integer timing.compute), ("decode", .integer timing.decode),
    ("encode", .integer timing.encode), ("input_fetch", .integer timing.inputFetch),
    ("queue", .integer timing.queue)]

def taskCpuJson (cpu : TaskCpuMs) : Json :=
  .object [("system", .integer cpu.system), ("user", .integer cpu.user)]

/-- The JSON object of an execution record, its check done. -/
def taskExecutionJson (execution : TaskExecution) : Json :=
  .object [("cpu_ms", taskCpuJson execution.cpuMs),
    ("peak_rss_bytes", .integer execution.peakRssBytes),
    ("runtime_id", .string (blake3Prefixed execution.runtimeId)),
    ("timing_ms", taskTimingJson execution.timingMs),
    ("worker_session_id", .string execution.workerSessionId)]

def taskExecutionToJson (execution : TaskExecution) : Except ExecError Json := do
  validateTaskExecution execution
  return taskExecutionJson execution

def taskExecutionFromJsonAt (value : Json) (path : String) : Except ExecError TaskExecution := do
  requireObject value path
  rejectUnknownFields value
    ["cpu_ms", "peak_rss_bytes", "runtime_id", "timing_ms", "worker_session_id"] path
  let timingPath := childPath path "timing_ms"
  let timing ← requiredObject value "timing_ms" path
  rejectUnknownFields timing ["compute", "decode", "encode", "input_fetch", "queue"] timingPath
  let cpuPath := childPath path "cpu_ms"
  let cpu ← requiredObject value "cpu_ms" path
  rejectUnknownFields cpu ["system", "user"] cpuPath
  let workerSessionId ← requiredString value "worker_session_id" path
  let runtimeId ← requiredBlake3Prefixed value "runtime_id" path
  let queue ← requiredUnsigned timing "queue" timingPath
  let inputFetch ← requiredUnsigned timing "input_fetch" timingPath
  let decode ← requiredUnsigned timing "decode" timingPath
  let compute ← requiredUnsigned timing "compute" timingPath
  let encode ← requiredUnsigned timing "encode" timingPath
  let user ← requiredUnsigned cpu "user" cpuPath
  let system ← requiredUnsigned cpu "system" cpuPath
  let peakRssBytes ← requiredUnsigned value "peak_rss_bytes" path
  let execution : TaskExecution :=
    { workerSessionId, runtimeId, peakRssBytes
      timingMs := { queue, inputFetch, decode, compute, encode }
      cpuMs := { user, system } }
  validateTaskExecution execution
  return execution

theorem taskExecutionFromJsonAt_toJson {execution : TaskExecution}
    (valid : validateTaskExecution execution = .ok ()) (path : String) :
    taskExecutionFromJsonAt (taskExecutionJson execution) path = .ok execution := by
  have object : requireObject (taskExecutionJson execution) path = .ok () := rfl
  have known : rejectUnknownFields (taskExecutionJson execution)
      ["cpu_ms", "peak_rss_bytes", "runtime_id", "timing_ms", "worker_session_id"] path =
      .ok () := rejectUnknownFields_of path (by simp [taskExecutionJson, Json.fields])
  have timing : requiredObject (taskExecutionJson execution) "timing_ms" path =
      .ok (taskTimingJson execution.timingMs) := requiredObject_of path rfl
  have cpu : requiredObject (taskExecutionJson execution) "cpu_ms" path =
      .ok (taskCpuJson execution.cpuMs) := requiredObject_of path rfl
  have worker : requiredString (taskExecutionJson execution) "worker_session_id" path =
      .ok execution.workerSessionId := requiredString_of path rfl
  have runtime : requiredBlake3Prefixed (taskExecutionJson execution) "runtime_id" path =
      .ok execution.runtimeId := requiredBlake3Prefixed_of path rfl
  have rss : requiredUnsigned (taskExecutionJson execution) "peak_rss_bytes" path =
      .ok execution.peakRssBytes := requiredUnsigned_of path rfl
  have knownTiming : ∀ path, rejectUnknownFields (taskTimingJson execution.timingMs)
      ["compute", "decode", "encode", "input_fetch", "queue"] path = .ok () := fun path =>
    rejectUnknownFields_of path (by simp [taskTimingJson, Json.fields])
  have knownCpu : ∀ path, rejectUnknownFields (taskCpuJson execution.cpuMs) ["system", "user"]
      path = .ok () := fun path =>
    rejectUnknownFields_of path (by simp [taskCpuJson, Json.fields])
  have queue : ∀ path, requiredUnsigned (taskTimingJson execution.timingMs) "queue" path =
      .ok execution.timingMs.queue := fun path => requiredUnsigned_of path rfl
  have inputFetch : ∀ path, requiredUnsigned (taskTimingJson execution.timingMs) "input_fetch"
      path = .ok execution.timingMs.inputFetch := fun path => requiredUnsigned_of path rfl
  have decode : ∀ path, requiredUnsigned (taskTimingJson execution.timingMs) "decode" path =
      .ok execution.timingMs.decode := fun path => requiredUnsigned_of path rfl
  have compute : ∀ path, requiredUnsigned (taskTimingJson execution.timingMs) "compute" path =
      .ok execution.timingMs.compute := fun path => requiredUnsigned_of path rfl
  have encode : ∀ path, requiredUnsigned (taskTimingJson execution.timingMs) "encode" path =
      .ok execution.timingMs.encode := fun path => requiredUnsigned_of path rfl
  have user : ∀ path, requiredUnsigned (taskCpuJson execution.cpuMs) "user" path =
      .ok execution.cpuMs.user := fun path => requiredUnsigned_of path rfl
  have system : ∀ path, requiredUnsigned (taskCpuJson execution.cpuMs) "system" path =
      .ok execution.cpuMs.system := fun path => requiredUnsigned_of path rfl
  simp only [taskExecutionFromJsonAt, object, known, timing, knownTiming, cpu, knownCpu, worker,
    runtime, queue, inputFetch, decode, compute, encode, user, system, rss, valid, bind,
    Except.bind, pure, Except.pure]

/-! ## Task results -/

def taskErrorJson (error : TaskError) : Json :=
  .object [("code", .string error.code), ("message", .string error.message),
    ("retryable", .bool error.retryable)]

def errorFromJson (value : Json) (path : String) : Except ExecError TaskError := do
  rejectUnknownFields value ["code", "message", "retryable"] path
  let code ← requiredString value "code" path
  let message ← requiredString value "message" path
  let retryable ← requiredBool value "retryable" path
  return { code, message, retryable }

theorem errorFromJson_toJson (error : TaskError) (path : String) :
    errorFromJson (taskErrorJson error) path = .ok error := by
  have known : rejectUnknownFields (taskErrorJson error) ["code", "message", "retryable"] path =
      .ok () := rejectUnknownFields_of path (by simp [taskErrorJson, Json.fields])
  have code : requiredString (taskErrorJson error) "code" path = .ok error.code :=
    requiredString_of path rfl
  have message : requiredString (taskErrorJson error) "message" path = .ok error.message :=
    requiredString_of path rfl
  have retryable : requiredBool (taskErrorJson error) "retryable" path = .ok error.retryable :=
    requiredBool_of path rfl
  simp only [errorFromJson, known, code, message, retryable, bind, Except.bind, pure, Except.pure]

/-- The JSON object of a result, its checks done; `error` is present only for a
failed one. -/
def taskResultJson (result : TaskResult) : Json :=
  .object
    ([("attempt", .integer result.attempt), ("diagnostics", result.diagnostics)] ++
      result.error.toList.map (fun error => ("error", taskErrorJson error)) ++
      [("execution", taskExecutionJson result.execution),
        ("output_digest", .string (blake3Prefixed result.outputDigest)),
        ("outputs", .array (result.outputs.map artifactRefJson)),
        ("schema", .string kTaskResultSchema),
        ("status", .string (taskStatusName result.status)),
        ("task_id", .string result.taskId)])

def kTaskResultRoot : String := "task_result"

def kTaskResultFields : List String :=
  ["attempt", "diagnostics", "error", "execution", "output_digest", "outputs", "schema", "status",
    "task_id"]

/-- The optional `error` member. -/
def optionalErrorFromJson (value : Json) : Except ExecError (Option TaskError) :=
  match value.fields.lookup "error" with
  | none => .ok none
  | some _ => do
    let object ← requiredObject value "error" kTaskResultRoot
    let error ← errorFromJson object (childPath kTaskResultRoot "error")
    return some error

section Codec

variable (codec : Codec)

/-- `validate_task_result` covers the checks of the parts. -/
def taskResultToJson (result : TaskResult) : Except ExecError Json := do
  validateTaskResult codec result
  return taskResultJson result

def taskResultFromJson (value : Json) : Except ExecError TaskResult := do
  requireObject value kTaskResultRoot
  rejectUnknownFields value kTaskResultFields kTaskResultRoot
  let schema ← requiredString value "schema" kTaskResultRoot
  require (schema = kTaskResultSchema) .invalidValue
    ("task_result.schema must be \"" ++ kTaskResultSchema ++ "\"")
  let taskId ← requiredString value "task_id" kTaskResultRoot
  let attempt ← requiredUnsigned value "attempt" kTaskResultRoot
  let statusName ← requiredString value "status" kTaskResultRoot
  let status ← parseStatus statusName
  let items ← requiredArray value "outputs" kTaskResultRoot
  let outputs ← items.mapM fun output =>
    artifactRefFromJsonAt output (childPath kTaskResultRoot "outputs[]")
  let outputDigest ← requiredBlake3Prefixed value "output_digest" kTaskResultRoot
  let executionJson ← requiredField value "execution" kTaskResultRoot
  let execution ← taskExecutionFromJsonAt executionJson (childPath kTaskResultRoot "execution")
  let diagnostics ← requiredObject value "diagnostics" kTaskResultRoot
  let error ← optionalErrorFromJson value
  let result : TaskResult :=
    { taskId, attempt, status, outputs, outputDigest, execution, diagnostics, error }
  validateTaskResult codec result
  return result

def encodeTaskResult (result : TaskResult) : Except ExecError Bytes := do
  encodeCanonicalJson codec.json (← taskResultToJson codec result)

def decodeTaskResult (bytes : Bytes) : Except ExecError TaskResult := do
  taskResultFromJson codec (← decodeCanonicalJson codec.json bytes)

/-! ## Round trips -/

theorem parseStatus_taskStatusName (status : TaskStatus) :
    parseStatus (taskStatusName status) = .ok status := by
  cases status <;> rfl

/-- A valid result's diagnostics are an object, its outputs and execution record
are valid. -/
theorem validateTaskResult_parts {result : TaskResult}
    (valid : validateTaskResult codec result = .ok ()) :
    requireDiagnosticsObject result.diagnostics = .ok () ∧
      validateTaskExecution result.execution = .ok () ∧
      ∀ output ∈ result.outputs, validateArtifactRef output = .ok () := by
  obtain ⟨_, -, valid⟩ := bind_eq_ok.mp valid
  obtain ⟨_, -, valid⟩ := bind_eq_ok.mp valid
  obtain ⟨_, diagnostics, valid⟩ := bind_eq_ok.mp valid
  obtain ⟨_, -, valid⟩ := bind_eq_ok.mp valid
  obtain ⟨_, -, valid⟩ := bind_eq_ok.mp valid
  obtain ⟨_, execution, valid⟩ := bind_eq_ok.mp valid
  obtain ⟨_, outputs, -⟩ := bind_eq_ok.mp valid
  exact ⟨diagnostics, execution, forM_eq_ok.mp outputs⟩

theorem optionalErrorFromJson_toJson (result : TaskResult) :
    optionalErrorFromJson (taskResultJson result) = .ok result.error := by
  unfold optionalErrorFromJson
  cases error : result.error with
  | none =>
    have absent : (taskResultJson result).fields.lookup "error" = none := by
      simp [taskResultJson, Json.fields, error, List.lookup]
    rw [absent]
  | some taskError =>
    have present : (taskResultJson result).fields.lookup "error" = some (taskErrorJson taskError) := by
      simp [taskResultJson, Json.fields, error, List.lookup]
    have object : requiredObject (taskResultJson result) "error" kTaskResultRoot =
        .ok (taskErrorJson taskError) := requiredObject_of _ present
    simp only [present, object, errorFromJson_toJson, bind, Except.bind, pure, Except.pure]

/-- A result is read back as it was written. -/
theorem taskResultFromJson_taskResultToJson {result : TaskResult} {value : Json}
    (written : taskResultToJson codec result = .ok value) :
    taskResultFromJson codec value = .ok result := by
  obtain ⟨_, valid, same⟩ := bind_eq_ok.mp written
  obtain rfl : taskResultJson result = value := by simpa [pure, Except.pure] using same
  obtain ⟨diagnosticsObject, executionValid, outputsValid⟩ := validateTaskResult_parts codec valid
  -- the members after `error` are found whether or not it is there
  have look : ∀ name, name ≠ "attempt" → name ≠ "diagnostics" → name ≠ "error" →
      (taskResultJson result).fields.lookup name =
        [("execution", taskExecutionJson result.execution),
          ("output_digest", Json.string (blake3Prefixed result.outputDigest)),
          ("outputs", .array (result.outputs.map artifactRefJson)),
          ("schema", .string kTaskResultSchema),
          ("status", .string (taskStatusName result.status)),
          ("task_id", .string result.taskId)].lookup name := by
    intro name attempt diagnostics error
    cases found : result.error <;>
      simp [taskResultJson, Json.fields, found, List.lookup, beq_eq_false_iff_ne.mpr attempt,
        beq_eq_false_iff_ne.mpr diagnostics, beq_eq_false_iff_ne.mpr error]
  have readOutputs : ∀ path, ((result.outputs.map artifactRefJson).mapM fun output =>
      artifactRefFromJsonAt output path) = .ok result.outputs := fun path =>
    mapM_written fun ref mem => artifactRefFromJsonAt_toJson (outputsValid ref mem) path
  have object : requireObject (taskResultJson result) kTaskResultRoot = .ok () := rfl
  have known : rejectUnknownFields (taskResultJson result) kTaskResultFields kTaskResultRoot =
      .ok () := by
    refine rejectUnknownFields_of _ ?_
    cases found : result.error <;>
      simp [taskResultJson, Json.fields, kTaskResultFields, found]
  have schema : requiredString (taskResultJson result) "schema" kTaskResultRoot =
      .ok kTaskResultSchema :=
    requiredString_of _ ((look "schema" (by decide) (by decide) (by decide)).trans rfl)
  have taskId : requiredString (taskResultJson result) "task_id" kTaskResultRoot =
      .ok result.taskId :=
    requiredString_of _ ((look "task_id" (by decide) (by decide) (by decide)).trans rfl)
  have attempt : requiredUnsigned (taskResultJson result) "attempt" kTaskResultRoot =
      .ok result.attempt := requiredUnsigned_of _ rfl
  have status : requiredString (taskResultJson result) "status" kTaskResultRoot =
      .ok (taskStatusName result.status) :=
    requiredString_of _ ((look "status" (by decide) (by decide) (by decide)).trans rfl)
  have outputs : requiredArray (taskResultJson result) "outputs" kTaskResultRoot =
      .ok (result.outputs.map artifactRefJson) :=
    requiredArray_of _ ((look "outputs" (by decide) (by decide) (by decide)).trans rfl)
  have digest : requiredBlake3Prefixed (taskResultJson result) "output_digest" kTaskResultRoot =
      .ok result.outputDigest :=
    requiredBlake3Prefixed_of _ ((look "output_digest" (by decide) (by decide) (by decide)).trans rfl)
  have execution : requiredField (taskResultJson result) "execution" kTaskResultRoot =
      .ok (taskExecutionJson result.execution) :=
    requiredField_of _ ((look "execution" (by decide) (by decide) (by decide)).trans rfl)
  have diagnostics : requiredObject (taskResultJson result) "diagnostics" kTaskResultRoot =
      .ok result.diagnostics := by
    cases isObject : result.diagnostics with
    | object fields =>
      refine requiredObject_of _ ?_
      show _ = some (Json.object fields)
      rw [← isObject]
      rfl
    | _ => simp [requireDiagnosticsObject, isObject] at diagnosticsObject
  simp only [taskResultFromJson, object, known, schema, require, decide_true, if_true, taskId,
    attempt, status, parseStatus_taskStatusName, outputs, readOutputs, digest,
    execution, taskExecutionFromJsonAt_toJson executionValid, diagnostics,
    optionalErrorFromJson_toJson, valid, bind, Except.bind, pure, Except.pure]

/-- A result is read back from its canonical text, where the JSON library parses
back what it wrote. -/
theorem decodeTaskResult_encodeTaskResult {result : TaskResult} {bytes : Bytes}
    (inverse : codec.json.parse (dump codec.json (taskResultJson result)) =
      .ok (taskResultJson result))
    (encoded : encodeTaskResult codec result = .ok bytes) :
    decodeTaskResult codec bytes = .ok result := by
  obtain ⟨value, written, encoded⟩ := bind_eq_ok.mp encoded
  obtain ⟨_, -, same⟩ := bind_eq_ok.mp written
  obtain rfl : taskResultJson result = value := by simpa [pure, Except.pure] using same
  have read := taskResultFromJson_taskResultToJson codec written
  simp only [decodeTaskResult, decode_encode codec.json inverse encoded, bind, Except.bind, read]

/-- What is read is valid, and its diagnostics are a member of the record. -/
theorem taskResultFromJson_eq_ok {value : Json} {result : TaskResult}
    (read : taskResultFromJson codec value = .ok result) :
    validateTaskResult codec result = .ok () ∧
      requiredObject value "diagnostics" kTaskResultRoot = .ok result.diagnostics := by
  obtain ⟨-, read⟩ := check_bind_eq_ok.mp read
  obtain ⟨-, read⟩ := check_bind_eq_ok.mp read
  obtain ⟨_, -, read⟩ := bind_eq_ok.mp read
  obtain ⟨-, read⟩ := check_bind_eq_ok.mp read
  obtain ⟨_, -, read⟩ := bind_eq_ok.mp read
  obtain ⟨_, -, read⟩ := bind_eq_ok.mp read
  obtain ⟨_, -, read⟩ := bind_eq_ok.mp read
  obtain ⟨_, -, read⟩ := bind_eq_ok.mp read
  obtain ⟨_, -, read⟩ := bind_eq_ok.mp read
  obtain ⟨_, -, read⟩ := bind_eq_ok.mp read
  obtain ⟨_, -, read⟩ := bind_eq_ok.mp read
  obtain ⟨_, -, read⟩ := bind_eq_ok.mp read
  obtain ⟨_, -, read⟩ := bind_eq_ok.mp read
  obtain ⟨diagnostics, found, read⟩ := bind_eq_ok.mp read
  obtain ⟨_, -, read⟩ := bind_eq_ok.mp read
  obtain ⟨valid, same⟩ := check_bind_eq_ok.mp read
  cases same
  exact ⟨valid, found⟩

end Codec

end Svp.Exec
