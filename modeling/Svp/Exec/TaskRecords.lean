import Svp.Exec.WorkerFrames
import Svp.Lib.PartialCodec

/-!
# Task records survive the round trip

Every record kind the scheduler and its workers exchange is a `PartialCodec`:
task specs and results as JSON, and the ASSIGN, RESULT, REJECT, HEARTBEAT and
CANCEL frames. The canonical text of a record nests one level deeper than the
parameters or diagnostics in it, so the text of a valid record exists exactly
where it stays within the nesting limit (`TextCodec`).
-/

namespace Svp.Exec

open Lib (PartialCodec)

/-! ## Nesting -/

theorem requireEncodableFields_eq_ok {fields : List (String × Json)} {depth : Nat} :
    requireEncodableFields fields depth = .ok () ↔
      ∀ field ∈ fields, requireEncodable field.2 depth = .ok () := by
  induction fields with
  | nil => simp [requireEncodableFields]
  | cons field rest ih =>
    rw [requireEncodableFields, check_bind_eq_ok, ih, List.forall_mem_cons]

theorem requireEncodableItems_eq_ok {items : List Json} {depth : Nat} :
    requireEncodableItems items depth = .ok () ↔
      ∀ item ∈ items, requireEncodable item depth = .ok () := by
  induction items with
  | nil => simp [requireEncodableItems]
  | cons item rest ih =>
    rw [requireEncodableItems, check_bind_eq_ok, ih, List.forall_mem_cons]

@[simp] theorem requireEncodable_string (text : String) (depth : Nat) :
    requireEncodable (.string text) depth = .ok () := by rw [requireEncodable]

@[simp] theorem requireEncodable_integer (value : Int) (depth : Nat) :
    requireEncodable (.integer value) depth = .ok () := by rw [requireEncodable]

theorem requireEncodable_object {fields : List (String × Json)} {depth : Nat}
    (shallow : depth < kMaxCanonicalJsonDepth) :
    requireEncodable (.object fields) depth = .ok () ↔
      ∀ field ∈ fields, requireEncodable field.2 (depth + 1) = .ok () := by
  rw [requireEncodable, if_neg (not_le.mpr shallow), requireEncodableFields_eq_ok]

theorem requireEncodable_array {items : List Json} {depth : Nat}
    (shallow : depth < kMaxCanonicalJsonDepth) :
    requireEncodable (.array items) depth = .ok () ↔
      ∀ item ∈ items, requireEncodable item (depth + 1) = .ok () := by
  rw [requireEncodable, if_neg (not_le.mpr shallow), requireEncodableItems_eq_ok]

/-- The text of a record exists where the one open-ended member of it leaves room. -/
theorem encodeCanonicalJson_isOk {lib : JsonLibrary} {value : Json} :
    requireEncodable value 0 = .ok () ↔ encodeCanonicalJson lib value = .ok (dump lib value) := by
  rw [encodeCanonicalJson, check_bind_eq_ok]
  exact (and_iff_left rfl).symm

theorem requireEncodable_of_decode {lib : JsonLibrary} {bytes : Bytes} {value : Json}
    (decoded : decodeCanonicalJson lib bytes = .ok value) : requireEncodable value 0 = .ok () := by
  obtain ⟨-, decoded⟩ := check_bind_eq_ok.mp decoded
  cases parsed : lib.parse bytes with
  | error what => rw [parsed] at decoded; cases decoded
  | ok found =>
    rw [parsed] at decoded
    obtain ⟨text, written, decoded⟩ := bind_eq_ok.mp decoded
    obtain ⟨encodable, -⟩ := check_bind_eq_ok.mp written
    split at decoded
    · cases decoded
    · cases decoded
      exact encodable

theorem mem_of_lookup {fields : List (String × Json)} {name : String} {value : Json}
    (found : fields.lookup name = some value) : (name, value) ∈ fields := by
  induction fields with
  | nil => cases found
  | cons field rest ih =>
    rw [List.lookup_cons] at found
    split at found
    · next same =>
      cases found
      rw [beq_iff_eq.mp same]
      exact List.mem_cons_self
    · exact List.mem_cons_of_mem _ (ih found)

/-- A member that is an object nests within what its record was allowed. -/
theorem requireEncodable_member {record member : Json} {name path : String}
    (encodable : requireEncodable record 0 = .ok ())
    (read : requiredObject record name path = .ok member) : requireEncodable member 1 = .ok () := by
  obtain ⟨value, found, read⟩ := bind_eq_ok.mp read
  obtain ⟨-, same⟩ := check_bind_eq_ok.mp read
  obtain rfl : value = member := by simpa [pure, Except.pure] using same
  cases record with
  | object fields =>
    refine (requireEncodable_object (by decide)).mp encodable (name, value) (mem_of_lookup ?_)
    unfold requiredField at found
    split at found
    · next lookup => cases found; exact lookup
    · cases found
  | _ => simp [requiredField, Json.fields] at found

theorem requireEncodable_artifactRefJson (ref : ArtifactRef) {depth : Nat}
    (shallow : depth < kMaxCanonicalJsonDepth) :
    requireEncodable (artifactRefJson ref) depth = .ok () := by
  refine (requireEncodable_object shallow).mpr ?_
  simp [requireEncodable]

/-- Only the parameters decide whether the text of a spec exists. -/
theorem requireEncodable_taskSpecJson {spec : TaskSpec} :
    requireEncodable (taskSpecJson spec) 0 = .ok () ↔
      requireEncodable spec.parameters 1 = .ok () := by
  have dependencies : requireEncodable (.array (spec.dependsOn.map .string)) 1 = .ok () :=
    (requireEncodable_array (by decide)).mpr fun item mem => by
      obtain ⟨dependency, -, rfl⟩ := List.mem_map.mp mem
      rfl
  have inputs : requireEncodable (.object (spec.inputs.entries.map fun input =>
      (input.1, artifactRefJson input.2))) 1 = .ok () :=
    (requireEncodable_object (by decide)).mpr fun field mem => by
      obtain ⟨input, -, rfl⟩ := List.mem_map.mp mem
      exact requireEncodable_artifactRefJson input.2 (by decide)
  have models : requireEncodable (.array (spec.modelRefs.map modelRefToJson)) 1 = .ok () :=
    (requireEncodable_array (by decide)).mpr fun item mem => by
      obtain ⟨ref, -, rfl⟩ := List.mem_map.mp mem
      exact (requireEncodable_object (by decide)).mpr (by simp [requireEncodable])
  have resources : requireEncodable (taskResourcesJson spec.resources) 1 = .ok () :=
    (requireEncodable_object (by decide)).mpr (by simp [requireEncodable])
  rw [taskSpecJson, requireEncodable_object (by decide)]
  simp [dependencies, inputs, models, resources]

/-- Only the diagnostics decide whether the text of a result exists. -/
theorem requireEncodable_taskResultJson {result : TaskResult} :
    requireEncodable (taskResultJson result) 0 = .ok () ↔
      requireEncodable result.diagnostics 1 = .ok () := by
  have outputs : requireEncodable (.array (result.outputs.map artifactRefJson)) 1 = .ok () :=
    (requireEncodable_array (by decide)).mpr fun item mem => by
      obtain ⟨ref, -, rfl⟩ := List.mem_map.mp mem
      exact requireEncodable_artifactRefJson ref (by decide)
  have execution : requireEncodable (taskExecutionJson result.execution) 1 = .ok () := by
    refine (requireEncodable_object (by decide)).mpr ?_
    simp [requireEncodable, taskCpuJson, taskTimingJson, requireEncodableFields,
      kMaxCanonicalJsonDepth, bind, Except.bind]
  have error : ∀ e, requireEncodable (taskErrorJson e) 1 = .ok () := fun e =>
    (requireEncodable_object (by decide)).mpr (by simp [requireEncodable])
  rw [taskResultJson, requireEncodable_object (by decide)]
  cases result.error <;> simp [outputs, execution, error]

/-! ## Lease messages -/

/-- What the ASSIGN frame asks of its parts; durations are signed 64-bit counts. -/
structure LeasedAssignment.Valid (codec : Codec) (assignment : LeasedAssignment) : Prop where
  spec : validateTaskSpec codec assignment.spec = .ok ()
  attempt : assignment.lease.attempt ≠ 0
  leaseId : isRecordIdentifier assignment.lease.leaseId = true
  duration : 0 < assignment.lease.duration ∧ assignment.lease.duration ≤ kMaxMillis
  heartbeatInterval :
    0 < assignment.lease.heartbeatInterval ∧ assignment.lease.heartbeatInterval ≤ kMaxMillis

structure LeaseRejection.Valid (rejection : LeaseRejection) : Prop where
  leaseId : isRecordIdentifier rejection.leaseId = true
  code : rejection.code ≠ "" ∧ rejection.code.toList.all (fun c => isLowerAlnum c || c == '_') = true

theorem checkedLeaseId_isOk {leaseId : String} :
    checkedLeaseId leaseId = .ok leaseId ↔ isRecordIdentifier leaseId = true :=
  ⟨fun ok => (checkedLeaseId_eq_ok ok).1, fun valid => by
    simp [checkedLeaseId, require, valid, bind, Except.bind, pure, Except.pure]⟩

theorem checkedRejectionCode_eq_ok {code checked : String} :
    checkedRejectionCode code = .ok checked ↔
      (code ≠ "" ∧ code.toList.all (fun c => isLowerAlnum c || c == '_') = true) ∧ checked = code := by
  rw [checkedRejectionCode, check_bind_eq_ok, require_eq_ok, Bool.and_eq_true, decide_eq_true_eq]
  exact and_congr_right fun _ => ⟨fun same => by cases same; rfl, fun same => by rw [same]; rfl⟩

theorem positiveMs_eq_ok {value : Millis} {name : String} {ms : Nat} :
    positiveMs value name = .ok ms ↔ 0 < value ∧ ms = value.toNat := by
  rw [positiveMs, check_bind_eq_ok, require_eq_ok, decide_eq_true_eq]
  exact and_congr_right fun _ => ⟨fun same => by cases same; rfl, fun same => by rw [same]; rfl⟩

theorem positiveField_eq_ok {object : Json} {name path : String} {value : Nat} :
    positiveField object name path = .ok value ↔
      requiredUnsigned object name path = .ok value ∧ value ≠ 0 := by
  rw [positiveField, bind_eq_ok]
  constructor
  · rintro ⟨found, read, rest⟩
    obtain ⟨positive, same⟩ := check_bind_eq_ok.mp rest
    obtain rfl : found = value := by simpa [pure, Except.pure] using same
    exact ⟨read, of_decide_eq_true (require_eq_ok.mp positive)⟩
  · rintro ⟨read, positive⟩
    exact ⟨value, read, check_bind_eq_ok.mpr ⟨require_eq_ok.mpr (decide_eq_true positive), rfl⟩⟩

theorem positiveMsField_eq_ok {object : Json} {name path : String} {value : Millis} :
    positiveMsField object name path = .ok value ↔
      ∃ ms : Nat, positiveField object name path = .ok ms ∧ ms ≤ kMaxMillis ∧ value = ms := by
  rw [positiveMsField, bind_eq_ok]
  refine exists_congr fun ms => and_congr_right fun _ => ?_
  rw [check_bind_eq_ok, require_eq_ok, decide_eq_true_eq]
  exact and_congr_right fun _ => ⟨fun same => by cases same; rfl, fun same => by rw [same]; rfl⟩

/-- HEARTBEAT and CANCEL: a frame that names a lease. -/
theorem leaseIdCodec (type : MessageType) :
    PartialCodec (fun leaseId => isRecordIdentifier leaseId = true) (leaseIdFrame type)
      (fun frame => leaseIdFrom frame type) where
  roundTrip leaseId valid := by
    have made : leaseIdFrame type leaseId =
        .ok { type, body := .object [("lease_id", .string leaseId)], payloads := [] } := by
      rw [leaseIdFrame, checkedLeaseId_isOk.mpr valid]
      rfl
    exact ⟨_, made, leaseIdFrom_leaseIdFrame made⟩
  accepted frame leaseId read := by
    obtain ⟨-, read⟩ := check_bind_eq_ok.mp read
    obtain ⟨-, read⟩ := check_bind_eq_ok.mp read
    obtain ⟨-, read⟩ := check_bind_eq_ok.mp read
    obtain ⟨found, -, read⟩ := bind_eq_ok.mp read
    obtain ⟨valid, rfl⟩ := checkedLeaseId_eq_ok read
    exact valid

theorem rejectCodec : PartialCodec LeaseRejection.Valid makeRejectFrame leaseRejectionFromFrame where
  roundTrip rejection valid := by
    have made : makeRejectFrame rejection = .ok
        { type := .reject
          body := .object [("code", .string rejection.code), ("lease_id", .string rejection.leaseId),
            ("message", .string rejection.message)]
          payloads := [] } := by
      rw [makeRejectFrame, checkedRejectionCode_eq_ok.mpr ⟨valid.code, rfl⟩,
        checkedLeaseId_isOk.mpr valid.leaseId]
      rfl
    exact ⟨_, made, leaseRejectionFromFrame_make made⟩
  accepted frame rejection read := by
    obtain ⟨-, read⟩ := check_bind_eq_ok.mp read
    obtain ⟨-, read⟩ := check_bind_eq_ok.mp read
    obtain ⟨-, read⟩ := check_bind_eq_ok.mp read
    obtain ⟨_, -, read⟩ := bind_eq_ok.mp read
    obtain ⟨leaseId, leaseOk, read⟩ := bind_eq_ok.mp read
    obtain ⟨_, -, read⟩ := bind_eq_ok.mp read
    obtain ⟨code, codeOk, read⟩ := bind_eq_ok.mp read
    obtain ⟨message, -, same⟩ := bind_eq_ok.mp read
    cases same
    obtain ⟨valid, rfl⟩ := checkedLeaseId_eq_ok leaseOk
    obtain ⟨codeValid, rfl⟩ := checkedRejectionCode_eq_ok.mp codeOk
    exact ⟨valid, codeValid⟩

section Codec

variable (codec : Codec)

theorem taskSpecCodec : PartialCodec (fun spec => validateTaskSpec codec spec = .ok ())
    (taskSpecToJson codec) (taskSpecFromJson codec) where
  roundTrip _ valid :=
    have written := (taskSpecToJson_eq_ok codec).mpr ⟨valid, rfl⟩
    ⟨_, written, taskSpecFromJson_taskSpecToJson codec written⟩
  accepted _ _ read := (taskSpecFromJson_eq_ok codec read).1

theorem taskResultCodec : PartialCodec (fun result => validateTaskResult codec result = .ok ())
    (taskResultToJson codec) (taskResultFromJson codec) where
  roundTrip result valid :=
    have written : taskResultToJson codec result = .ok (taskResultJson result) :=
      check_bind_eq_ok.mpr ⟨valid, rfl⟩
    ⟨_, written, taskResultFromJson_taskResultToJson codec written⟩
  accepted _ _ read := (taskResultFromJson_eq_ok codec read).1

/-- The ASSIGN frame of an assignment, its checks done. -/
def leasedAssignFrame (assignment : LeasedAssignment) : Frame where
  type := .assign
  body := .object [
    ("lease", .object [("attempt", .integer assignment.lease.attempt),
      ("expires_in_ms", .integer assignment.lease.duration.toNat),
      ("heartbeat_interval_ms", .integer assignment.lease.heartbeatInterval.toNat),
      ("lease_id", .string assignment.lease.leaseId)]),
    ("task_spec", taskSpecJson assignment.spec)]
  payloads := []

theorem makeLeasedAssignFrame_isOk {assignment : LeasedAssignment} (valid : assignment.Valid codec) :
    makeLeasedAssignFrame codec assignment.spec assignment.lease =
      .ok (leasedAssignFrame assignment) := by
  have attempt : require (assignment.lease.attempt ≠ 0) .invalidValue
      "lease.attempt must be at least 1" = .ok () :=
    require_eq_ok.mpr (decide_eq_true valid.attempt)
  rw [makeLeasedAssignFrame, attempt, positiveMs_eq_ok.mpr ⟨valid.duration.1, rfl⟩,
    positiveMs_eq_ok.mpr ⟨valid.heartbeatInterval.1, rfl⟩, checkedLeaseId_isOk.mpr valid.leaseId,
    (taskSpecToJson_eq_ok codec).mpr ⟨valid.spec, rfl⟩]
  rfl

theorem positiveMsField_of {object : Json} {name : String} (path : String) {value : Millis}
    (bounds : 0 < value ∧ value ≤ kMaxMillis)
    (holds : object.fields.lookup name = some (.integer value.toNat)) :
    positiveMsField object name path = .ok value := by
  obtain ⟨positive, bounded⟩ := bounds
  have natural : ((value.toNat : Nat) : Int) = value := Int.toNat_of_nonneg positive.le
  have nonzero : value.toNat ≠ 0 := (Int.lt_toNat.mpr positive).ne'
  have read := positiveField_eq_ok.mpr ⟨requiredUnsigned_of path holds, nonzero⟩
  exact positiveMsField_eq_ok.mpr ⟨value.toNat, read, Int.toNat_le.mpr bounded, natural.symm⟩

theorem leasedAssignmentFromFrame_make {assignment : LeasedAssignment}
    (valid : assignment.Valid codec) :
    leasedAssignmentFromFrame codec (leasedAssignFrame assignment) = .ok assignment := by
  let leaseJson : Json := .object [("attempt", .integer assignment.lease.attempt),
    ("expires_in_ms", .integer assignment.lease.duration.toNat),
    ("heartbeat_interval_ms", .integer assignment.lease.heartbeatInterval.toNat),
    ("lease_id", .string assignment.lease.leaseId)]
  let frame := leasedAssignFrame assignment
  have control : requireControlFrame frame .assign = .ok () := by
    simp [requireControlFrame, frame, leasedAssignFrame, require, bind, Except.bind]
  have object : requireObject frame.body "ASSIGN.body" = .ok () := rfl
  have known : rejectUnknownFields frame.body ["lease", "task_spec"] "ASSIGN.body" = .ok () :=
    rejectUnknownFields_of _ (by simp [frame, leasedAssignFrame, Json.fields])
  have lease : requiredObject frame.body "lease" "ASSIGN.body" = .ok leaseJson :=
    requiredObject_of _ rfl
  have leaseKnown : rejectUnknownFields leaseJson
      ["attempt", "expires_in_ms", "heartbeat_interval_ms", "lease_id"] "ASSIGN.body.lease" =
      .ok () := rejectUnknownFields_of _ (by simp [leaseJson, Json.fields])
  have leaseId : requiredString leaseJson "lease_id" "ASSIGN.body.lease" =
      .ok assignment.lease.leaseId := requiredString_of _ rfl
  have attempt : positiveField leaseJson "attempt" "ASSIGN.body.lease" =
      .ok assignment.lease.attempt :=
    positiveField_eq_ok.mpr ⟨requiredUnsigned_of _ rfl, valid.attempt⟩
  have duration : positiveMsField leaseJson "expires_in_ms" "ASSIGN.body.lease" =
      .ok assignment.lease.duration := positiveMsField_of _ valid.duration rfl
  have heartbeat : positiveMsField leaseJson "heartbeat_interval_ms" "ASSIGN.body.lease" =
      .ok assignment.lease.heartbeatInterval :=
    positiveMsField_of _ valid.heartbeatInterval rfl
  have taskSpec : requiredObject frame.body "task_spec" "ASSIGN.body" =
      .ok (taskSpecJson assignment.spec) := requiredObject_of _ rfl
  have spec := taskSpecFromJson_taskSpecToJson codec
    ((taskSpecToJson_eq_ok codec).mpr ⟨valid.spec, rfl⟩)
  show leasedAssignmentFromFrame codec frame = .ok assignment
  simp only [leasedAssignmentFromFrame, control, object, known, lease, leaseKnown, leaseId,
    checkedLeaseId_isOk.mpr valid.leaseId, attempt, duration, heartbeat, taskSpec, spec, bind,
    Except.bind, pure, Except.pure]

theorem assignCodec : PartialCodec (LeasedAssignment.Valid codec)
    (fun assignment => makeLeasedAssignFrame codec assignment.spec assignment.lease)
    (leasedAssignmentFromFrame codec) where
  roundTrip assignment valid :=
    ⟨_, makeLeasedAssignFrame_isOk codec valid, leasedAssignmentFromFrame_make codec valid⟩
  accepted frame assignment read := by
    obtain ⟨-, read⟩ := check_bind_eq_ok.mp read
    obtain ⟨-, read⟩ := check_bind_eq_ok.mp read
    obtain ⟨-, read⟩ := check_bind_eq_ok.mp read
    obtain ⟨leaseJson, -, read⟩ := bind_eq_ok.mp read
    obtain ⟨-, read⟩ := check_bind_eq_ok.mp read
    obtain ⟨_, -, read⟩ := bind_eq_ok.mp read
    obtain ⟨leaseId, leaseOk, read⟩ := bind_eq_ok.mp read
    obtain ⟨attempt, attemptOk, read⟩ := bind_eq_ok.mp read
    obtain ⟨duration, durationOk, read⟩ := bind_eq_ok.mp read
    obtain ⟨heartbeat, heartbeatOk, read⟩ := bind_eq_ok.mp read
    obtain ⟨_, -, read⟩ := bind_eq_ok.mp read
    obtain ⟨spec, specOk, same⟩ := bind_eq_ok.mp read
    cases same
    have bounds : ∀ {name : String} {value : Millis},
        positiveMsField leaseJson name "ASSIGN.body.lease" = .ok value →
        0 < value ∧ value ≤ kMaxMillis := by
      intro name value ok
      obtain ⟨ms, read, bounded, rfl⟩ := positiveMsField_eq_ok.mp ok
      have positive := (positiveField_eq_ok.mp read).2
      exact ⟨Int.natCast_pos.mpr (Nat.pos_of_ne_zero positive), Int.ofNat_le.mpr bounded⟩
    exact
      { spec := (taskSpecFromJson_eq_ok codec specOk).1
        attempt := (positiveField_eq_ok.mp attemptOk).2
        leaseId := (checkedLeaseId_eq_ok leaseOk).1 ▸ (checkedLeaseId_eq_ok leaseOk).2 ▸ rfl
        duration := bounds durationOk
        heartbeatInterval := bounds heartbeatOk }

/-- A RESULT frame carries a result and the bytes of its outputs. -/
structure ResultMessage where
  result : TaskResult
  payloads : List FramePayload

structure ResultMessage.Valid (message : ResultMessage) : Prop where
  result : validateTaskResult codec message.result = .ok ()
  payloads : List.Forall₂
    (fun ref payload => payload.length = ref.bytes ∧ codec.blake3 payload = ref.blake3)
    message.result.outputs message.payloads

def resultMessageFromFrame (frame : Frame) : Except ExecError ResultMessage := do
  return { result := ← taskResultFromResultFrame codec frame, payloads := frame.payloads }

theorem resultCodec : PartialCodec (ResultMessage.Valid codec)
    (fun message => makeResultFrame codec message.result message.payloads)
    (resultMessageFromFrame codec) where
  roundTrip message valid := by
    have count := valid.payloads.length_eq.symm
    have matched : requirePayloadsMatch codec message.result.outputs message.payloads .invalidValue
        .invalidValue = .ok () := (requirePayloadsMatch_eq_ok codec).mpr
      ⟨count, (findPayloadDefect_eq_none codec count).mpr valid.payloads⟩
    have written : taskResultToJson codec message.result = .ok (taskResultJson message.result) :=
      check_bind_eq_ok.mpr ⟨valid.result, rfl⟩
    have made : makeResultFrame codec message.result message.payloads =
        .ok { type := .result, body := .object [("task_result", taskResultJson message.result)],
              payloads := message.payloads } := by
      rw [makeResultFrame, matched, written]
      rfl
    refine ⟨_, made, ?_⟩
    rw [resultMessageFromFrame, taskResultFromResultFrame_make codec made]
    rfl
  accepted frame message read := by
    obtain ⟨result, resultOk, same⟩ := bind_eq_ok.mp read
    cases same
    have payloads := taskResultFromResultFrame_payloads codec resultOk
    obtain ⟨_, -, rest⟩ := bind_eq_ok.mp resultOk
    obtain ⟨decoded, decodedOk, rest⟩ := bind_eq_ok.mp rest
    obtain ⟨-, same⟩ := check_bind_eq_ok.mp rest
    cases same
    exact ⟨(taskResultFromJson_eq_ok codec decodedOk).1, payloads⟩

/-! ## Canonical text -/

/-- The text form of a record kind whose JSON form is `json`. -/
structure TextCodec {α : Type} (lib : JsonLibrary) (valid : α → Prop) (json : α → Json)
    (encode : α → Except ExecError Bytes) (decode : Bytes → Except ExecError α) : Prop where
  /-- A valid record has a text exactly where its JSON form nests within the limit. -/
  encodes : ∀ a : α, valid a →
    ((∃ bytes, encode a = .ok bytes) ↔ requireEncodable (json a) 0 = .ok ())
  /-- Where the library parses back the text it writes, the record is read back. -/
  roundTrip : ∀ (a : α) (bytes : Bytes), encode a = .ok bytes →
    lib.parse (dump lib (json a)) = .ok (json a) → decode bytes = .ok a
  /-- What is read is valid and has a text again. -/
  accepted : ∀ (bytes : Bytes) (a : α), decode bytes = .ok a →
    valid a ∧ ∃ bytes', encode a = .ok bytes'

/-- A record kind whose reader takes its open-ended member from the record has a
text form. -/
theorem TextCodec.of_partialCodec {α : Type} {lib : JsonLibrary} {valid : α → Prop}
    {json : α → Json} {toJson : α → Except ExecError Json} {fromJson : Json → Except ExecError α}
    (codec : PartialCodec valid toJson fromJson)
    (written : ∀ a value, toJson a = .ok value ↔ valid a ∧ json a = value)
    (nests : ∀ value a, fromJson value = .ok a → requireEncodable value 0 = .ok () →
      requireEncodable (json a) 0 = .ok ()) :
    TextCodec lib valid json (fun a => do encodeCanonicalJson lib (← toJson a))
      (fun bytes => do fromJson (← decodeCanonicalJson lib bytes)) := by
  have text : ∀ a, valid a → requireEncodable (json a) 0 = .ok () →
      (toJson a >>= encodeCanonicalJson lib) = .ok (dump lib (json a)) := fun a ok encodable =>
    bind_eq_ok.mpr ⟨json a, (written a _).mpr ⟨ok, rfl⟩, encodeCanonicalJson_isOk.mp encodable⟩
  refine ⟨fun a ok => ⟨?_, fun encodable => ⟨_, text a ok encodable⟩⟩, ?_, ?_⟩
  · rintro ⟨bytes, encoded⟩
    obtain ⟨value, isJson, encoded⟩ := bind_eq_ok.mp encoded
    obtain ⟨-, rfl⟩ := (written a value).mp isJson
    exact (check_bind_eq_ok.mp encoded).1
  · intro a bytes encoded parses
    obtain ⟨value, isJson, encoded⟩ := bind_eq_ok.mp encoded
    obtain ⟨ok, rfl⟩ := (written a value).mp isJson
    obtain ⟨value, isJson', read⟩ := codec.roundTrip a ok
    obtain ⟨-, rfl⟩ := (written a value).mp isJson'
    exact bind_eq_ok.mpr ⟨_, decode_encode lib parses encoded, read⟩
  · intro bytes a decoded
    obtain ⟨value, isText, read⟩ := bind_eq_ok.mp decoded
    have ok := codec.accepted value a read
    exact ⟨ok, _, text a ok (nests value a read (requireEncodable_of_decode isText))⟩

theorem taskSpecText : TextCodec codec.json (fun spec => validateTaskSpec codec spec = .ok ())
    taskSpecJson (encodeTaskSpec codec) (decodeTaskSpec codec) :=
  .of_partialCodec (taskSpecCodec codec) (fun _ _ => taskSpecToJson_eq_ok codec)
    fun _ _ read encodable => requireEncodable_taskSpecJson.mpr
      (requireEncodable_member encodable (taskSpecFromJson_eq_ok codec read).2)

theorem taskResultText : TextCodec codec.json
    (fun result => validateTaskResult codec result = .ok ()) taskResultJson
    (encodeTaskResult codec) (decodeTaskResult codec) :=
  .of_partialCodec (taskResultCodec codec)
    (fun _ _ => check_bind_eq_ok.trans (and_congr_right fun _ =>
      ⟨fun same => by cases same; rfl, fun same => by rw [same]; rfl⟩))
    fun _ _ read encodable => requireEncodable_taskResultJson.mpr
      (requireEncodable_member encodable (taskResultFromJson_eq_ok codec read).2)

/-- What the record codecs promise. -/
structure TaskRecordContract : Prop where
  taskSpec : PartialCodec (fun spec => validateTaskSpec codec spec = .ok ()) (taskSpecToJson codec)
    (taskSpecFromJson codec)
  taskSpecText : TextCodec codec.json (fun spec => validateTaskSpec codec spec = .ok ())
    taskSpecJson (encodeTaskSpec codec) (decodeTaskSpec codec)
  taskResult : PartialCodec (fun result => validateTaskResult codec result = .ok ())
    (taskResultToJson codec) (taskResultFromJson codec)
  taskResultText : TextCodec codec.json (fun result => validateTaskResult codec result = .ok ())
    taskResultJson (encodeTaskResult codec) (decodeTaskResult codec)
  assign : PartialCodec (LeasedAssignment.Valid codec)
    (fun assignment => makeLeasedAssignFrame codec assignment.spec assignment.lease)
    (leasedAssignmentFromFrame codec)
  result : PartialCodec (ResultMessage.Valid codec)
    (fun message => makeResultFrame codec message.result message.payloads)
    (resultMessageFromFrame codec)
  reject : PartialCodec LeaseRejection.Valid makeRejectFrame leaseRejectionFromFrame
  heartbeat : PartialCodec (fun leaseId => isRecordIdentifier leaseId = true) makeHeartbeatFrame
    leaseIdFromHeartbeatFrame
  cancel : PartialCodec (fun leaseId => isRecordIdentifier leaseId = true) makeCancelFrame
    leaseIdFromCancelFrame

theorem taskRecords_roundTrip (codec : Codec) : TaskRecordContract codec where
  taskSpec := taskSpecCodec codec
  taskSpecText := taskSpecText codec
  taskResult := taskResultCodec codec
  taskResultText := taskResultText codec
  assign := assignCodec codec
  result := resultCodec codec
  reject := rejectCodec
  heartbeat := leaseIdCodec .heartbeat
  cancel := leaseIdCodec .cancel

end Codec

/-! ## The limit is needed

Validation applies the nesting limit to the parameters alone. Parameters that
nest exactly 64 objects pass it, and the record around them has no text. -/

def nestedObject : Nat → Json
  | 0 => .object []
  | n + 1 => .object [("a", nestedObject n)]

theorem requireEncodable_nestedObject (n depth : Nat) :
    requireEncodable (nestedObject n) depth =
      if depth + n < kMaxCanonicalJsonDepth then .ok () else .error kDepthError := by
  induction n generalizing depth with
  | zero =>
    rw [nestedObject, requireEncodable]
    split_ifs with deep shallow shallow
    · exact absurd shallow (not_lt.mpr deep)
    · rfl
    · rfl
    · exact absurd (not_le.mp deep) shallow
  | succ n ih =>
    have inner : requireEncodableFields [("a", nestedObject n)] (depth + 1) =
        requireEncodable (nestedObject n) (depth + 1) := by
      rw [requireEncodableFields, ih]
      split_ifs <;> rfl
    rw [nestedObject, requireEncodable, inner, ih, Nat.add_right_comm, Nat.add_assoc]
    split_ifs with deep shallow shallow
    · omega
    · rfl
    · rfl
    · rfl

/-- BLAKE3 of the text of 64 nested objects. -/
def nestedDigest : Blake3Digest :=
  ⟨[0xF6, 0xCD, 0xAA, 0x14, 0xA1, 0x8D, 0x77, 0x12, 0x2F, 0x1D, 0x5F, 0x68, 0xCE, 0x80, 0x98, 0xCE,
    0xBB, 0x5F, 0xD7, 0xC2, 0xCA, 0x84, 0xD6, 0x40, 0x63, 0x07, 0x15, 0x6C, 0x09, 0x60, 0x98, 0xB9],
    rfl⟩

/-- Agrees with BLAKE3 on the one text hashed below. -/
def nestedCodec : Codec := { sampleCodec with blake3 := fun _ => nestedDigest }

def nestedSpec : TaskSpec where
  buildSessionId := "session"
  taskId := "task"
  taskType := "noop"
  parameters := nestedObject 63
  parametersBlake3 := nestedDigest
  resources := { estCpuThreads := 1 }

theorem computeParametersBlake3_nestedSpec :
    computeParametersBlake3 nestedCodec nestedSpec.parameters = .ok nestedDigest := by
  have encodable : requireEncodable (.object [("a", nestedObject 62)]) 0 = .ok () :=
    requireEncodable_nestedObject 63 0
  show computeParametersBlake3 nestedCodec (.object [("a", nestedObject 62)]) = _
  rw [computeParametersBlake3, encodeCanonicalJson_isOk.mp encodable]
  rfl

theorem validateTaskSpec_nestedSpec : validateTaskSpec nestedCodec nestedSpec = .ok () := by
  have session : isRecordIdentifier "session" = true := by decide
  have task : isRecordIdentifier "task" = true := by decide
  have noop : isLowerIdentifier "noop" = true := by decide
  -- one step a check of `validateTaskSpec`, the lists being empty
  refine check_bind_eq_ok.mpr ⟨require_eq_ok.mpr session, ?_⟩
  refine check_bind_eq_ok.mpr ⟨require_eq_ok.mpr task, ?_⟩
  refine check_bind_eq_ok.mpr ⟨rfl, ?_⟩
  refine check_bind_eq_ok.mpr ⟨require_eq_ok.mpr noop, ?_⟩
  refine check_bind_eq_ok.mpr ⟨rfl, ?_⟩
  refine check_bind_eq_ok.mpr ⟨rfl, ?_⟩
  refine check_bind_eq_ok.mpr ⟨rfl, ?_⟩
  refine check_bind_eq_ok.mpr ⟨rfl, ?_⟩
  refine check_bind_eq_ok.mpr ⟨rfl, ?_⟩
  exact bind_eq_ok.mpr ⟨_, computeParametersBlake3_nestedSpec,
    require_eq_ok.mpr (decide_eq_true rfl)⟩

/-- Parameters at the limit make a valid spec without a text. -/
theorem nestedSpec_encodeTaskSpec :
    validateTaskSpec nestedCodec nestedSpec = .ok () ∧
      encodeTaskSpec nestedCodec nestedSpec = .error kDepthError := by
  have written := (taskSpecToJson_eq_ok nestedCodec).mpr ⟨validateTaskSpec_nestedSpec, rfl⟩
  have refused : requireEncodable (taskSpecJson nestedSpec) 0 = .error kDepthError := by
    have deep : requireEncodable (nestedObject 63) 1 = .error kDepthError := by
      rw [requireEncodable_nestedObject]
      rfl
    simp [taskSpecJson, nestedSpec, requireEncodable, requireEncodableFields, requireEncodableItems,
      kMaxCanonicalJsonDepth, deep, bind, Except.bind, Lib.OrderedMap.empty]
  refine ⟨validateTaskSpec_nestedSpec, ?_⟩
  rw [encodeTaskSpec, written]
  show encodeCanonicalJson nestedCodec.json (taskSpecJson nestedSpec) = _
  rw [encodeCanonicalJson, refused]
  rfl

end Svp.Exec
