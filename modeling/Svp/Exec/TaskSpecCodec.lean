import Svp.Exec.Records

/-!
# The JSON form of a task spec

`validateTaskSpec` is the semantic check shared by encode and decode;
`taskSpecToJson` writes the record an ASSIGN frame and a journal row carry.
-/

namespace Svp.Exec

/-! ## Model identities -/

def kModelIdLead : String := "model_"

def kModelHashMarker : String := "+blake3_"

def isCanonicalModelId (value : List Char) : Bool :=
  kModelIdLead.toList.isPrefixOf value && decide (kModelIdLead.length < value.length) &&
    (value.drop kModelIdLead.length).all fun c => isLowerAlnum c || c == '_'

structure ModelBundleIdParts where
  modelId : String
  modelVersion : String
  hashPrefix : String
deriving DecidableEq

/-- The last position at which `marker` stands in `value`. -/
def findLast (marker value : List Char) : Option Nat :=
  (List.range (value.length + 1)).reverse.find? fun i => marker.isPrefixOf (value.drop i)

/-- Splits `model_id@version+blake3_hash`: at the first `@` and the last marker. -/
def parseModelBundleId (value : String) : Option ModelBundleIdParts := do
  let chars := value.toList
  let atPosition ← chars.findIdx? (· == '@')
  let markerPosition ← findLast kModelHashMarker.toList chars
  if markerPosition ≤ atPosition + 1 then none
  else
    let modelId := chars.take atPosition
    let modelVersion := (chars.drop (atPosition + 1)).take (markerPosition - atPosition - 1)
    let hash := chars.drop (markerPosition + kModelHashMarker.length)
    if isCanonicalModelId modelId && !modelVersion.isEmpty && !modelVersion.contains '+' &&
        hash.length == 12 && hash.all isLowerHex then
      some ⟨String.ofList modelId, String.ofList modelVersion, String.ofList hash⟩
    else none

example : (parseModelBundleId "model_a@1+blake3_0123456789ab").map (·.hashPrefix) =
    some "0123456789ab" := by decide

/-! ## Validation -/

def requireIdentifier (value name : String) : Except ExecError Unit :=
  require (isRecordIdentifier value) .invalidValue
    ("task_spec." ++ name ++ " must be a non-empty [A-Za-z0-9._-] identifier: `" ++ value ++ "`")

def validateModelRef (ref : TaskModelRef) : Except ExecError Unit := do
  require (isCanonicalModelId ref.modelId.toList) .invalidValue
    ("task_spec.model_refs model_id is not canonical: `" ++ ref.modelId ++ "`")
  let mismatch : ExecError := ⟨.invalidValue, "task_spec.model_refs model_bundle_id `" ++
    ref.modelBundleId ++ "` does not match its model_id and bundle_blake3"⟩
  match parseModelBundleId ref.modelBundleId with
  | none => .error mismatch
  | some parts =>
    require (parts.modelId = ref.modelId ∧
        parts.hashPrefix.toList.isPrefixOf (blake3Hex ref.bundleBlake3).toList)
      mismatch.code mismatch.message

/-- Each entry is below the next one. -/
def strictlyAscending : List String → Bool
  | first :: second :: rest => decide (first < second) && strictlyAscending (second :: rest)
  | _ => true

def validateOrdering (spec : TaskSpec) : Except ExecError Unit := do
  require (strictlyAscending spec.dependsOn) .invalidValue
    "task_spec.depends_on must be strictly ascending"
  require (strictlyAscending (spec.modelRefs.map (·.modelId))) .invalidValue
    "task_spec.model_refs must be strictly ascending by model_id"

section Codec

variable (codec : Codec)

def computeParametersBlake3 (parameters : Json) : Except ExecError Blake3Digest :=
  match parameters with
  | .object _ => do return codec.blake3 (← encodeCanonicalJson codec.json parameters)
  | _ => .error ⟨.wrongType, "task parameters must be a JSON object"⟩

def validateInput (input : String × ArtifactRef) : Except ExecError Unit := do
  require (isLowerIdentifier input.1) .invalidValue
    ("task_spec.inputs name must be a lowercase identifier: `" ++ input.1 ++ "`")
  validateArtifactRef input.2

def validateTaskSpec (spec : TaskSpec) : Except ExecError Unit := do
  requireIdentifier spec.buildSessionId "build_session_id"
  requireIdentifier spec.taskId "task_id"
  spec.dependsOn.forM fun dependency => requireIdentifier dependency "depends_on[]"
  require (isLowerIdentifier spec.taskType) .invalidValue
    ("task_spec.task_type must be a lowercase identifier: `" ++ spec.taskType ++ "`")
  require (spec.taskTypeVersion ≠ 0) .invalidValue "task_spec.task_type_version must be at least 1"
  require (spec.resources.estCpuThreads ≠ 0) .invalidValue
    "task_spec.resources.est_cpu_threads must be at least 1"
  validateOrdering spec
  spec.modelRefs.forM validateModelRef
  spec.inputs.entries.forM validateInput
  require ((← computeParametersBlake3 codec spec.parameters) = spec.parametersBlake3)
    .digestMismatch "task_spec.parameters_blake3 does not match the canonical parameters"

/-! ## The record -/

def kTaskSpecSchema : String := "svp-task-spec-v1"

def modelRefToJson (ref : TaskModelRef) : Json :=
  .object [("bundle_blake3", .string (blake3Hex ref.bundleBlake3)),
    ("model_bundle_id", .string ref.modelBundleId), ("model_id", .string ref.modelId)]

def taskResourcesJson (resources : TaskResources) : Json :=
  .object [("est_cpu_threads", .integer resources.estCpuThreads),
    ("est_peak_rss_mb", .integer resources.estPeakRssMb),
    ("est_seconds", .integer resources.estSeconds)]

def inputsToJson (inputs : List (String × ArtifactRef)) : Except ExecError (List (String × Json)) :=
  inputs.mapM fun input => do return (input.1, ← artifactRefToJson input.2)

def taskSpecToJson (spec : TaskSpec) : Except ExecError Json := do
  validateTaskSpec codec spec
  let inputs ← inputsToJson spec.inputs.entries
  return .object [
    ("build_session_id", .string spec.buildSessionId),
    ("cache_key", .string (blake3Prefixed spec.cacheKey)),
    ("depends_on", .array (spec.dependsOn.map .string)),
    ("inputs", .object inputs),
    ("model_refs", .array (spec.modelRefs.map modelRefToJson)),
    ("parameters", spec.parameters),
    ("parameters_blake3", .string (blake3Hex spec.parametersBlake3)),
    ("resources", taskResourcesJson spec.resources),
    ("schema", .string kTaskSpecSchema),
    ("task_id", .string spec.taskId),
    ("task_type", .string spec.taskType),
    ("task_type_version", .integer spec.taskTypeVersion)]

theorem strictlyAscending_iff {l : List String} :
    strictlyAscending l = true ↔ l.Pairwise (· < ·) := by
  rw [← List.isChain_iff_pairwise]
  induction l with
  | nil => simp [strictlyAscending]
  | cons first rest ih =>
    cases rest with
    | nil => simp [strictlyAscending]
    | cons second rest =>
      rw [strictlyAscending, Bool.and_eq_true, decide_eq_true_eq, ih, List.isChain_cons_cons]

/-- The dependencies of a valid spec ascend. -/
theorem validateTaskSpec_ascending {spec : TaskSpec} (valid : validateTaskSpec codec spec = .ok ()) :
    spec.dependsOn.Pairwise (· < ·) := by
  obtain ⟨-, valid⟩ := check_bind_eq_ok.mp valid
  obtain ⟨-, valid⟩ := check_bind_eq_ok.mp valid
  obtain ⟨-, valid⟩ := check_bind_eq_ok.mp valid
  obtain ⟨-, valid⟩ := check_bind_eq_ok.mp valid
  obtain ⟨-, valid⟩ := check_bind_eq_ok.mp valid
  obtain ⟨-, valid⟩ := check_bind_eq_ok.mp valid
  obtain ⟨ordering, -⟩ := check_bind_eq_ok.mp valid
  exact strictlyAscending_iff.mp (require_eq_ok.mp (check_bind_eq_ok.mp ordering).1)

/-- The inputs of a valid spec are valid references. -/
theorem validateTaskSpec_inputs {spec : TaskSpec} (valid : validateTaskSpec codec spec = .ok ()) :
    ∀ input ∈ spec.inputs.entries, validateArtifactRef input.2 = .ok () := by
  obtain ⟨-, valid⟩ := check_bind_eq_ok.mp valid
  obtain ⟨-, valid⟩ := check_bind_eq_ok.mp valid
  obtain ⟨-, valid⟩ := check_bind_eq_ok.mp valid
  obtain ⟨-, valid⟩ := check_bind_eq_ok.mp valid
  obtain ⟨-, valid⟩ := check_bind_eq_ok.mp valid
  obtain ⟨-, valid⟩ := check_bind_eq_ok.mp valid
  obtain ⟨-, valid⟩ := check_bind_eq_ok.mp valid
  obtain ⟨-, valid⟩ := check_bind_eq_ok.mp valid
  obtain ⟨checked, -⟩ := check_bind_eq_ok.mp valid
  exact fun input mem => (check_bind_eq_ok.mp (forM_eq_ok.mp checked input mem)).2

/-! ## Reading the record -/

def modelRefFromJson (path : String) (value : Json) : Except ExecError TaskModelRef := do
  requireObject value path
  rejectUnknownFields value ["bundle_blake3", "model_bundle_id", "model_id"] path
  let modelId ← requiredString value "model_id" path
  let modelBundleId ← requiredString value "model_bundle_id" path
  let bundleBlake3 ← requiredBlake3Hex value "bundle_blake3" path
  return { modelId, modelBundleId, bundleBlake3 }

def resourcesFromJson (value : Json) (path : String) : Except ExecError TaskResources := do
  rejectUnknownFields value ["est_cpu_threads", "est_peak_rss_mb", "est_seconds"] path
  let estPeakRssMb ← requiredUnsigned value "est_peak_rss_mb" path
  let estCpuThreads ← requiredUnsigned value "est_cpu_threads" path
  let estSeconds ← requiredUnsigned value "est_seconds" path
  return { estPeakRssMb, estCpuThreads, estSeconds }

def dependencyFromJson (path : String) : Json → Except ExecError String
  | .string dependency => .ok dependency
  | _ => .error ⟨.wrongType, path ++ " entries must be strings"⟩

/-- The loop over the members of `inputs`, with the map built so far. -/
def inputsFromJson (path : String) (inputs : Lib.OrderedMap String ArtifactRef) :
    List (String × Json) → Except ExecError (Lib.OrderedMap String ArtifactRef)
  | [] => .ok inputs
  | (name, value) :: rest => do
    let ref ← artifactRefFromJsonAt value (childPath path name)
    inputsFromJson path (inputs.emplace name ref) rest

def kTaskSpecRoot : String := "task_spec"

def kTaskSpecFields : List String :=
  ["build_session_id", "cache_key", "depends_on", "inputs", "model_refs", "parameters",
    "parameters_blake3", "resources", "schema", "task_id", "task_type", "task_type_version"]

def taskSpecFromJson (value : Json) : Except ExecError TaskSpec := do
  requireObject value kTaskSpecRoot
  rejectUnknownFields value kTaskSpecFields kTaskSpecRoot
  let schema ← requiredString value "schema" kTaskSpecRoot
  require (schema = kTaskSpecSchema) .invalidValue
    ("task_spec.schema must be \"" ++ kTaskSpecSchema ++ "\"")
  let buildSessionId ← requiredString value "build_session_id" kTaskSpecRoot
  let taskId ← requiredString value "task_id" kTaskSpecRoot
  let taskType ← requiredString value "task_type" kTaskSpecRoot
  let taskTypeVersion ← requiredUnsigned value "task_type_version" kTaskSpecRoot
  let dependencies ← requiredArray value "depends_on" kTaskSpecRoot
  let dependsOn ← dependencies.mapM (dependencyFromJson (childPath kTaskSpecRoot "depends_on"))
  let refs ← requiredArray value "model_refs" kTaskSpecRoot
  let modelRefs ← refs.mapM (modelRefFromJson (childPath kTaskSpecRoot "model_refs[]"))
  let inputsJson ← requiredObject value "inputs" kTaskSpecRoot
  let inputs ← inputsFromJson (childPath kTaskSpecRoot "inputs") .empty inputsJson.fields
  let parameters ← requiredObject value "parameters" kTaskSpecRoot
  let parametersBlake3 ← requiredBlake3Hex value "parameters_blake3" kTaskSpecRoot
  let cacheKey ← requiredBlake3Prefixed value "cache_key" kTaskSpecRoot
  let resourcesJson ← requiredObject value "resources" kTaskSpecRoot
  let resources ← resourcesFromJson resourcesJson (childPath kTaskSpecRoot "resources")
  let spec : TaskSpec :=
    { buildSessionId, taskId, taskType, taskTypeVersion, dependsOn, modelRefs, inputs, parameters
      parametersBlake3, cacheKey, resources }
  validateTaskSpec codec spec
  return spec

def encodeTaskSpec (spec : TaskSpec) : Except ExecError Bytes := do
  encodeCanonicalJson codec.json (← taskSpecToJson codec spec)

def decodeTaskSpec (bytes : Bytes) : Except ExecError TaskSpec := do
  taskSpecFromJson codec (← decodeCanonicalJson codec.json bytes)

/-- The JSON object of a spec, its checks done. -/
def taskSpecJson (spec : TaskSpec) : Json :=
  .object [
    ("build_session_id", .string spec.buildSessionId),
    ("cache_key", .string (blake3Prefixed spec.cacheKey)),
    ("depends_on", .array (spec.dependsOn.map .string)),
    ("inputs", .object (spec.inputs.entries.map fun input => (input.1, artifactRefJson input.2))),
    ("model_refs", .array (spec.modelRefs.map modelRefToJson)),
    ("parameters", spec.parameters),
    ("parameters_blake3", .string (blake3Hex spec.parametersBlake3)),
    ("resources", taskResourcesJson spec.resources),
    ("schema", .string kTaskSpecSchema),
    ("task_id", .string spec.taskId),
    ("task_type", .string spec.taskType),
    ("task_type_version", .integer spec.taskTypeVersion)]

theorem inputsToJson_eq {entries : List (String × ArtifactRef)}
    (valid : ∀ input ∈ entries, validateArtifactRef input.2 = .ok ()) :
    inputsToJson entries = .ok (entries.map fun input => (input.1, artifactRefJson input.2)) := by
  induction entries with
  | nil => rfl
  | cons first rest ih =>
    have head : artifactRefToJson first.2 = .ok (artifactRefJson first.2) := by
      simp [artifactRefToJson, valid first (by simp), bind, Except.bind, pure, Except.pure]
    have tail := ih fun input mem => valid input (List.mem_cons_of_mem _ mem)
    unfold inputsToJson at tail ⊢
    rw [List.mapM_cons, head, tail]
    rfl

/-- Writing a spec fails exactly where validation does. -/
theorem taskSpecToJson_eq_ok {spec : TaskSpec} {value : Json} :
    taskSpecToJson codec spec = .ok value ↔
      validateTaskSpec codec spec = .ok () ∧ taskSpecJson spec = value := by
  unfold taskSpecToJson
  rw [check_bind_eq_ok]
  refine and_congr_right fun valid => ?_
  rw [inputsToJson_eq (validateTaskSpec_inputs codec valid)]
  exact ⟨fun same => by cases same; rfl, fun same => by rw [← same]; rfl⟩

theorem taskSpecToJson_isOk {spec : TaskSpec} (valid : validateTaskSpec codec spec = .ok ()) :
    ∃ value, taskSpecToJson codec spec = .ok value :=
  ⟨_, (taskSpecToJson_eq_ok codec).mpr ⟨valid, rfl⟩⟩

/-- The parameters of a valid spec are an object canonical JSON can represent. -/
theorem validateTaskSpec_parameters {spec : TaskSpec} (valid : validateTaskSpec codec spec = .ok ()) :
    ∃ fields, spec.parameters = .object fields := by
  obtain ⟨-, valid⟩ := check_bind_eq_ok.mp valid
  obtain ⟨-, valid⟩ := check_bind_eq_ok.mp valid
  obtain ⟨-, valid⟩ := check_bind_eq_ok.mp valid
  obtain ⟨-, valid⟩ := check_bind_eq_ok.mp valid
  obtain ⟨-, valid⟩ := check_bind_eq_ok.mp valid
  obtain ⟨-, valid⟩ := check_bind_eq_ok.mp valid
  obtain ⟨-, valid⟩ := check_bind_eq_ok.mp valid
  obtain ⟨-, valid⟩ := check_bind_eq_ok.mp valid
  obtain ⟨-, valid⟩ := check_bind_eq_ok.mp valid
  obtain ⟨digest, hashed, -⟩ := bind_eq_ok.mp valid
  cases parameters : spec.parameters with
  | object fields => exact ⟨fields, rfl⟩
  | _ => rw [parameters] at hashed; cases hashed

/-! ## Round trip -/

theorem modelRefFromJson_toJson (path : String) (ref : TaskModelRef) :
    modelRefFromJson path (modelRefToJson ref) = .ok ref := by
  have object : requireObject (modelRefToJson ref) path = .ok () := rfl
  have known : rejectUnknownFields (modelRefToJson ref)
      ["bundle_blake3", "model_bundle_id", "model_id"] path = .ok () :=
    rejectUnknownFields_of path (by simp [modelRefToJson, Json.fields])
  have modelId : requiredString (modelRefToJson ref) "model_id" path = .ok ref.modelId :=
    requiredString_of path rfl
  have bundleId : requiredString (modelRefToJson ref) "model_bundle_id" path =
      .ok ref.modelBundleId := requiredString_of path rfl
  have digest : requiredBlake3Hex (modelRefToJson ref) "bundle_blake3" path =
      .ok ref.bundleBlake3 := requiredBlake3Hex_of path rfl
  simp only [modelRefFromJson, object, known, modelId, bundleId, digest, bind, Except.bind, pure,
    Except.pure]

theorem resourcesFromJson_toJson (resources : TaskResources) (path : String) :
    resourcesFromJson (taskResourcesJson resources) path = .ok resources := by
  have known : rejectUnknownFields (taskResourcesJson resources)
      ["est_cpu_threads", "est_peak_rss_mb", "est_seconds"] path = .ok () :=
    rejectUnknownFields_of path (by simp [taskResourcesJson, Json.fields])
  have rss : requiredUnsigned (taskResourcesJson resources) "est_peak_rss_mb" path =
      .ok resources.estPeakRssMb := requiredUnsigned_of path rfl
  have threads : requiredUnsigned (taskResourcesJson resources) "est_cpu_threads" path =
      .ok resources.estCpuThreads := requiredUnsigned_of path rfl
  have seconds : requiredUnsigned (taskResourcesJson resources) "est_seconds" path =
      .ok resources.estSeconds := requiredUnsigned_of path rfl
  simp only [resourcesFromJson, known, rss, threads, seconds, bind, Except.bind, pure, Except.pure]

/-- Members written in key order are read back after what is there already. -/
theorem inputsFromJson_toJson (path : String) (rest : List (String × ArtifactRef)) :
    ∀ (inputs whole : Lib.OrderedMap String ArtifactRef), whole.entries = inputs.entries ++ rest →
      (∀ input ∈ rest, validateArtifactRef input.2 = .ok ()) →
      inputsFromJson path inputs (rest.map fun input => (input.1, artifactRefJson input.2)) =
        .ok whole := by
  induction rest with
  | nil =>
    intro inputs whole same _
    rw [List.append_nil] at same
    rw [Lib.OrderedMap.ext_entries same]
    rfl
  | cons first rest ih =>
    intro inputs whole same valid
    have above : ∀ p ∈ inputs.entries, p.1 < first.1 := by
      have sorted := whole.sorted
      rw [same, List.map_append, List.pairwise_append] at sorted
      exact fun p mem => sorted.2.2 p.1 (List.mem_map_of_mem mem) first.1 (by simp)
    have placed := inputs.emplace_above first.2 above
    have tail := ih (inputs.emplace first.1 first.2) whole
      (by rw [placed, same, List.append_assoc]; rfl)
      fun input mem => valid input (List.mem_cons_of_mem _ mem)
    rw [List.map_cons, inputsFromJson, artifactRefFromJsonAt_toJson (valid first (by simp))]
    exact tail

/-- A spec is read back as it was written. -/
theorem taskSpecFromJson_taskSpecToJson {spec : TaskSpec} {value : Json}
    (written : taskSpecToJson codec spec = .ok value) : taskSpecFromJson codec value = .ok spec := by
  obtain ⟨valid, rfl⟩ := (taskSpecToJson_eq_ok codec).mp written
  obtain ⟨fields, isObject⟩ := validateTaskSpec_parameters codec valid
  have object : requireObject (taskSpecJson spec) kTaskSpecRoot = .ok () := rfl
  have known : rejectUnknownFields (taskSpecJson spec) kTaskSpecFields kTaskSpecRoot = .ok () :=
    rejectUnknownFields_of _ (by simp [taskSpecJson, Json.fields, kTaskSpecFields])
  have schema : requiredString (taskSpecJson spec) "schema" kTaskSpecRoot = .ok kTaskSpecSchema :=
    requiredString_of _ rfl
  have session : requiredString (taskSpecJson spec) "build_session_id" kTaskSpecRoot =
      .ok spec.buildSessionId := requiredString_of _ rfl
  have taskId : requiredString (taskSpecJson spec) "task_id" kTaskSpecRoot = .ok spec.taskId :=
    requiredString_of _ rfl
  have taskType : requiredString (taskSpecJson spec) "task_type" kTaskSpecRoot =
      .ok spec.taskType := requiredString_of _ rfl
  have version : requiredUnsigned (taskSpecJson spec) "task_type_version" kTaskSpecRoot =
      .ok spec.taskTypeVersion := requiredUnsigned_of _ rfl
  have dependencies : requiredArray (taskSpecJson spec) "depends_on" kTaskSpecRoot =
      .ok (spec.dependsOn.map .string) := requiredArray_of _ rfl
  have refs : requiredArray (taskSpecJson spec) "model_refs" kTaskSpecRoot =
      .ok (spec.modelRefs.map modelRefToJson) := requiredArray_of _ rfl
  have inputsJson : requiredObject (taskSpecJson spec) "inputs" kTaskSpecRoot =
      .ok (.object (spec.inputs.entries.map fun input => (input.1, artifactRefJson input.2))) :=
    requiredObject_of _ rfl
  have parameters : requiredObject (taskSpecJson spec) "parameters" kTaskSpecRoot =
      .ok spec.parameters := by
    rw [isObject]
    exact requiredObject_of _ (by rw [← isObject]; rfl)
  have digest : requiredBlake3Hex (taskSpecJson spec) "parameters_blake3" kTaskSpecRoot =
      .ok spec.parametersBlake3 := requiredBlake3Hex_of _ rfl
  have cacheKey : requiredBlake3Prefixed (taskSpecJson spec) "cache_key" kTaskSpecRoot =
      .ok spec.cacheKey := requiredBlake3Prefixed_of _ rfl
  have resources : requiredObject (taskSpecJson spec) "resources" kTaskSpecRoot =
      .ok (taskResourcesJson spec.resources) := requiredObject_of _ rfl
  have inputs : ∀ path, inputsFromJson path .empty
      (spec.inputs.entries.map fun input => (input.1, artifactRefJson input.2)) =
      .ok spec.inputs := fun path =>
    inputsFromJson_toJson path _ .empty spec.inputs rfl (validateTaskSpec_inputs codec valid)
  have strings : ∀ path, (spec.dependsOn.map Json.string).mapM (dependencyFromJson path) =
      .ok spec.dependsOn := fun path => mapM_written (fun _ _ => rfl)
  have models : ∀ path, (spec.modelRefs.map modelRefToJson).mapM (modelRefFromJson path) =
      .ok spec.modelRefs := fun path => mapM_written fun ref _ => modelRefFromJson_toJson path ref
  simp only [taskSpecFromJson, object, known, schema, require, decide_true, if_true, session, taskId,
    taskType, version, dependencies, strings, refs, models, inputsJson, Json.fields, inputs,
    parameters, digest, cacheKey, resources, resourcesFromJson_toJson, valid, bind, Except.bind,
    pure, Except.pure]

/-- What is read is valid, and its parameters are a member of the record. -/
theorem taskSpecFromJson_eq_ok {value : Json} {spec : TaskSpec}
    (read : taskSpecFromJson codec value = .ok spec) :
    validateTaskSpec codec spec = .ok () ∧
      requiredObject value "parameters" kTaskSpecRoot = .ok spec.parameters := by
  obtain ⟨-, read⟩ := check_bind_eq_ok.mp read
  obtain ⟨-, read⟩ := check_bind_eq_ok.mp read
  obtain ⟨_, -, read⟩ := bind_eq_ok.mp read
  obtain ⟨-, read⟩ := check_bind_eq_ok.mp read
  obtain ⟨_, -, read⟩ := bind_eq_ok.mp read
  obtain ⟨_, -, read⟩ := bind_eq_ok.mp read
  obtain ⟨_, -, read⟩ := bind_eq_ok.mp read
  obtain ⟨_, -, read⟩ := bind_eq_ok.mp read
  obtain ⟨_, -, read⟩ := bind_eq_ok.mp read
  obtain ⟨_, -, read⟩ := bind_eq_ok.mp read
  obtain ⟨_, -, read⟩ := bind_eq_ok.mp read
  obtain ⟨_, -, read⟩ := bind_eq_ok.mp read
  obtain ⟨_, -, read⟩ := bind_eq_ok.mp read
  obtain ⟨_, -, read⟩ := bind_eq_ok.mp read
  obtain ⟨parameters, found, read⟩ := bind_eq_ok.mp read
  obtain ⟨_, -, read⟩ := bind_eq_ok.mp read
  obtain ⟨_, -, read⟩ := bind_eq_ok.mp read
  obtain ⟨_, -, read⟩ := bind_eq_ok.mp read
  obtain ⟨_, -, read⟩ := bind_eq_ok.mp read
  obtain ⟨valid, same⟩ := check_bind_eq_ok.mp read
  cases same
  exact ⟨valid, found⟩

end Codec

end Svp.Exec
