import Svp.Exec.JsonLines
import Svp.Exec.JsonFields
import Svp.Lib.Outcome
import Svp.Vision.OcrBatch

/-!
# The records of OCR frame batches as lines of JSON

A batch's payload is one canonical JSON object a line, one for each sample. Which
fields a record has depends on its status. The JSON library is a parameter: what it
writes is `dump`, and what it parses back is an assumption on the records at hand.

* The encoder's texts are read back as the records they were written from
  (`decode_encode_records`): no line nests deeper than the decoder allows, and no text
  holds a newline of its own.
* What the decoder reads encodes to the bytes it was read from
  (`encode_of_decode_records`).
-/

namespace Svp.Vision

open Exec (Bytes utf8 Json JsonLibrary DepthScan dump isFinite utf8Text bind_eq_ok
  check_bind_eq_ok)
open Lib (Fits)

/-- A record with its confidences as the bits of doubles. -/
abbrev OcrRecord : Type := OcrSampleDetections UInt64

namespace OcrFrameDetections

/-! ## Records -/

/-- Deepest nesting of a valid record: record, detections, detection, box. -/
def kMaxRecordDepth : Nat := 4

/-- Throws the codec's error. -/
def fail {α : Type} (message : String) : Except String α :=
  .error ("ocr frame detections: " ++ message)

/-- Fails unless the condition holds. -/
def check (holds : Bool) (message : String) : Except String Unit :=
  if holds then .ok () else fail message

def ocrSampleStatusName : OcrSampleStatus → String
  | .ok => "ok"
  | .decodeMissed => "decode_missed"
  | .frameInvalid => "frame_invalid"
  | .ocrFailed => "ocr_failed"
  | .notStarted => "not_started"

def kStatuses : List OcrSampleStatus :=
  [.ok, .decodeMissed, .frameInvalid, .ocrFailed, .notStarted]

def parseStatus (name : String) : Option OcrSampleStatus :=
  kStatuses.find? fun status => ocrSampleStatusName status == name

def hasFrameSize (status : OcrSampleStatus) : Bool :=
  status != .decodeMissed && status != .notStarted

def validateRecord (record : OcrRecord) : Except String Unit := do
  check (0 ≤ record.timestampUs) "timestamp_us must not be negative"
  check (record.status != .ok || record.error.isEmpty) "an ok sample has no error"
  check (record.status == .ok || record.detections.isEmpty) "only an ok sample carries detections"
  check (hasFrameSize record.status || record.frameWidth == 0 && record.frameHeight == 0)
    "a decode_missed or not_started sample has no frame size"
  record.detections.forM fun detection =>
    check (isFinite detection.confidence) "confidence must be finite"

/-! ## Writing -/

section Write

-- `invalidUtf8` is what the library says of bytes that are not UTF-8
variable (invalidUtf8 : Bytes → String)

/-- Text as a JSON string. The library refuses to write bytes that are not UTF-8. -/
def textJson (text : Bytes) : Except String Json :=
  match utf8Text text with
  | some text => .ok (.string text)
  | none => fail ("text is not valid UTF-8: " ++ invalidUtf8 text)

def detectionToJson (detection : OcrTextDetection UInt64) : Except String Json := do
  let text ← textJson invalidUtf8 detection.text
  let bbox := Json.array [.integer detection.bboxLeft, .integer detection.bboxTop,
    .integer detection.bboxRight, .integer detection.bboxBottom]
  let reused := if detection.reused then [("reused", Json.bool true)] else []
  return .object ([("bbox", bbox), ("confidence", .float detection.confidence)] ++ reused ++
    [("text", text)])

/-- The field with the result: the detections, or why there are none. -/
def resultField (record : OcrRecord) : Except String (String × Json) :=
  if record.status = .ok then do
    let detections ← record.detections.mapM (detectionToJson invalidUtf8)
    return ("detections", .array detections)
  else do
    let error ← textJson invalidUtf8 record.error
    return ("error", error)

def sizeFields (record : OcrRecord) : List (String × Json) :=
  if hasFrameSize record.status then
    [("frame_height", .integer record.frameHeight), ("frame_width", .integer record.frameWidth)]
  else []

def ocrSampleDetectionsToJson (record : OcrRecord) : Except String Json := do
  validateRecord record
  let result ← resultField invalidUtf8 record
  return .object (result :: sizeFields record ++
    [("sample_ordinal", .integer record.sampleOrdinal),
      ("status", .string (ocrSampleStatusName record.status)),
      ("timestamp_us", .integer record.timestampUs)])

variable (lib : JsonLibrary)

/-- The canonical text of a record. -/
def encodeRecord (record : OcrRecord) : Except String Bytes :=
  dump lib <$> ocrSampleDetectionsToJson invalidUtf8 record

def encodeOcrSampleDetectionsJsonl : List OcrRecord → Except String Bytes
  | [] => .ok []
  | record :: records => do
    let line ← encodeRecord invalidUtf8 lib record
    let later ← encodeOcrSampleDetectionsJsonl records
    return line ++ 0x0A :: later

end Write

/-! ## Reading -/

def requireFields (value : Json) (expected : List String) (path : String) : Except String Unit :=
  match value with
  | .object fields =>
    match fields.find? fun field => !expected.contains field.1 with
    | some field => fail (path ++ " has unknown field `" ++ field.1 ++ "`")
    | none =>
      match expected.find? fun key => (fields.lookup key).isNone with
      | some key => fail (path ++ " is missing field `" ++ key ++ "`")
      | none => .ok ()
  | _ => fail (path ++ " must be an object")

/-- A field that was required before. -/
def fieldAt (value : Json) (key : String) : Json := (value.fields.lookup key).getD .null

/-- An integer of a type with that range; an unsigned one starts at zero. -/
def requireInteger (low high : Int) (value : Json) (path : String) : Except String Int :=
  match value with
  | .integer parsed =>
    if 0 ≤ parsed then
      if high < parsed then fail (path ++ " is out of range") else .ok parsed
    else if low = 0 then fail (path ++ " must not be negative")
    else if parsed < low then fail (path ++ " is out of range")
    else .ok parsed
  | _ => fail (path ++ " must be an integer")

def requireInt : Json → String → Except String Int := requireInteger (-2 ^ 31) (2 ^ 31 - 1)

def requireString (value : Json) (path : String) : Except String Bytes :=
  match value with
  | .string text => .ok (utf8 text)
  | _ => fail (path ++ " must be a string")

def isTrue : Json → Bool
  | .bool value => value
  | _ => false

def detectionFromJson (value : Json) (path : String) :
    Except String (OcrTextDetection UInt64) := do
  let reused := (value.fields.lookup "reused").isSome
  check (!reused || isTrue (fieldAt value "reused")) (path ++ ".reused must be true when present")
  requireFields value
    (if reused then ["bbox", "confidence", "reused", "text"] else ["bbox", "confidence", "text"])
    path
  match fieldAt value "bbox" with
  | .array [left, top, right, bottom] =>
    match fieldAt value "confidence" with
    | .float confidence => do
      let text ← requireString (fieldAt value "text") (path ++ ".text")
      let bboxLeft ← requireInt left (path ++ ".bbox[0]")
      let bboxTop ← requireInt top (path ++ ".bbox[1]")
      let bboxRight ← requireInt right (path ++ ".bbox[2]")
      let bboxBottom ← requireInt bottom (path ++ ".bbox[3]")
      return { text, confidence, bboxLeft, bboxTop, bboxRight, bboxBottom, reused }
    | _ => fail (path ++ ".confidence must be a floating-point number")
  | _ => fail (path ++ ".bbox must be an array of four integers")

/-- The detections from an index on. -/
def detectionsFromJson (index : Nat) : List Json → Except String (List (OcrTextDetection UInt64))
  | [] => .ok []
  | value :: values => do
    let detection ← detectionFromJson value ("record.detections[" ++ toString index ++ "]")
    let detections ← detectionsFromJson (index + 1) values
    return detection :: detections

/-- The fields of a record, sorted. -/
def recordFields (status : OcrSampleStatus) : List String :=
  (if status = .ok then "detections" else "error") ::
    (if hasFrameSize status then ["frame_height", "frame_width"] else []) ++
      ["sample_ordinal", "status", "timestamp_us"]

/-- A measure of the frame; zero where the status has none. -/
def readSize (status : OcrSampleStatus) (value : Json) (key : String) : Except String Int :=
  if hasFrameSize status then requireInt (fieldAt value key) ("record." ++ key) else .ok 0

def readDetections (status : OcrSampleStatus) (value : Json) :
    Except String (List (OcrTextDetection UInt64)) :=
  if status = .ok then
    match fieldAt value "detections" with
    | .array detections => detectionsFromJson 0 detections
    | _ => fail "record.detections must be an array"
  else .ok []

def readError (status : OcrSampleStatus) (value : Json) : Except String Bytes :=
  if status = .ok then .ok [] else requireString (fieldAt value "error") "record.error"

def ocrSampleDetectionsFromJson (value : Json) : Except String OcrRecord := do
  check (value.fields.lookup "status").isSome "record must be an object with a status"
  let name ← requireString (fieldAt value "status") "record.status"
  match (utf8Text name).bind parseStatus with
  | none => fail "record.status is unknown"
  | some status =>
    requireFields value (recordFields status) "record"
    let ordinal ← requireInteger 0 (2 ^ 64 - 1) (fieldAt value "sample_ordinal")
      "record.sample_ordinal"
    let timestampUs ← requireInteger (-2 ^ 63) (2 ^ 63 - 1) (fieldAt value "timestamp_us")
      "record.timestamp_us"
    let frameWidth ← readSize status value "frame_width"
    let frameHeight ← readSize status value "frame_height"
    let detections ← readDetections status value
    let error ← readError status value
    let record : OcrRecord :=
      { sampleOrdinal := ordinal.toNat, timestampUs, status, error, frameWidth, frameHeight
        detections }
    validateRecord record
    return record

section Read

variable (invalidUtf8 : Bytes → String) (lib : JsonLibrary)

/-- The record on a line, which has to be its canonical text. -/
def decodeLine (line : Bytes) (number : Nat) : Except String OcrRecord := do
  check (DepthScan.runWithin kMaxRecordDepth {} line).isSome "record nests too deeply"
  match lib.parse line with
  | .error what => fail ("line " ++ toString number ++ " is not JSON: " ++ what)
  | .ok value =>
    let record ← ocrSampleDetectionsFromJson value
    let canonical ← encodeRecord invalidUtf8 lib record
    check (canonical == line) ("line " ++ toString number ++ " is not in canonical form")
    return record

/-- The records of the bytes left, after those that were read. -/
def decodeFrom (records : List OcrRecord) (bytes : Bytes) : Except String (List OcrRecord) :=
  if bytes.isEmpty then .ok records
  else
    match _found : bytes.dropWhile (· != 0x0A) with
    | [] => fail "last record does not end in a newline"
    | _ :: rest => do
      let record ← decodeLine invalidUtf8 lib (bytes.takeWhile (· != 0x0A)) (records.length + 1)
      decodeFrom (records ++ [record]) rest
termination_by bytes.length
decreasing_by
  have shorter := (List.dropWhile_suffix (l := bytes) (· != 0x0A)).length_le
  rw [_found] at shorter
  exact shorter

def decodeOcrSampleDetectionsJsonl (bytes : Bytes) : Except String (List OcrRecord) :=
  decodeFrom invalidUtf8 lib [] bytes

end Read

/-! ## What passes the checks -/

theorem check_eq_ok {holds : Bool} {message : String} {u : Unit} :
    check holds message = .ok u ↔ holds = true := by
  cases holds
  · exact ⟨nofun, nofun⟩
  · exact ⟨fun _ => rfl, fun _ => rfl⟩

/-- What validation asks of a record. -/
structure Valid (record : OcrRecord) : Prop where
  started : 0 ≤ record.timestampUs
  noError : record.status = .ok → record.error = []
  noDetections : record.status ≠ .ok → record.detections = []
  noSize : hasFrameSize record.status = false → record.frameWidth = 0 ∧ record.frameHeight = 0
  finite : ∀ detection ∈ record.detections, isFinite detection.confidence = true

theorem validateRecord_eq_ok {record : OcrRecord} : validateRecord record = .ok () ↔ Valid record := by
  rw [validateRecord, check_bind_eq_ok, check_bind_eq_ok, check_bind_eq_ok, check_bind_eq_ok,
    check_eq_ok, check_eq_ok, check_eq_ok, check_eq_ok, Exec.forM_eq_ok]
  simp only [check_eq_ok, decide_eq_true_eq, Bool.or_eq_true, bne_iff_ne, beq_iff_eq,
    List.isEmpty_iff, Bool.and_eq_true]
  constructor
  · rintro ⟨started, noError, noDetections, noSize, finite⟩
    refine ⟨started, ?_, ?_, ?_, finite⟩
    · exact fun ok => noError.resolve_left (not_not_intro ok)
    · exact fun other => noDetections.resolve_left other
    · exact fun without => noSize.resolve_left (by rw [without]; decide)
  · intro valid
    refine ⟨valid.started, ?_, ?_, ?_, valid.finite⟩
    · exact (em' _).imp_right valid.noError
    · exact (em _).imp_right valid.noDetections
    · exact (Bool.eq_false_or_eq_true _).imp_right valid.noSize

/-- The values of a record that the types of the source hold. -/
structure Typed (record : OcrRecord) : Prop where
  ordinal : record.sampleOrdinal < 2 ^ 64
  timestamp : Fits 64 record.timestampUs
  width : Fits 32 record.frameWidth
  height : Fits 32 record.frameHeight
  boxes : ∀ detection ∈ record.detections, Fits 32 detection.bboxLeft ∧ Fits 32 detection.bboxTop ∧
    Fits 32 detection.bboxRight ∧ Fits 32 detection.bboxBottom

/-- The texts of a record are UTF-8. -/
def TextsUtf8 (record : OcrRecord) : Prop :=
  (utf8Text record.error).isSome ∧ ∀ detection ∈ record.detections, (utf8Text detection.text).isSome

/-! ## Reading what was written -/

theorem requireInteger_of_mem {low high value : Int} (path : String) (least : low ≤ value)
    (most : value ≤ high) : requireInteger low high (.integer value) path = .ok value := by
  rw [requireInteger]
  split_ifs with nonneg above unsigned below
  · exact absurd most (not_le.mpr above)
  · rfl
  · exact absurd (unsigned ▸ least) nonneg
  · exact absurd least (not_le.mpr below)
  · rfl

theorem requireInt_of_fits {value : Int} (path : String) (fits : Fits 32 value) :
    requireInt (.integer value) path = .ok value :=
  requireInteger_of_mem path fits.1 (Int.le_sub_one_of_lt fits.2)

theorem parseStatus_name (status : OcrSampleStatus) :
    parseStatus (ocrSampleStatusName status) = some status := by
  cases status <;> rfl

section Written

variable {invalidUtf8 : Bytes → String}

theorem textJson_eq_ok {text : Bytes} {value : Json} :
    textJson invalidUtf8 text = .ok value ↔
      ∃ string, utf8Text text = some string ∧ value = .string string := by
  unfold textJson
  cases utf8Text text with
  | none => exact ⟨nofun, nofun⟩
  | some string =>
    constructor
    · rintro ⟨⟩
      exact ⟨string, rfl, rfl⟩
    · rintro ⟨_, ⟨⟩, rfl⟩
      rfl

theorem requireString_written {text : Bytes} {value : Json} (path : String)
    (written : textJson invalidUtf8 text = .ok value) : requireString value path = .ok text := by
  obtain ⟨string, decoded, rfl⟩ := textJson_eq_ok.mp written
  rw [requireString, Exec.utf8_of_utf8Text decoded]

/-- A written detection is read back, whether or not it was reused. -/
theorem detectionFromJson_written {detection : OcrTextDetection UInt64} {value : Json}
    (path : String) (written : detectionToJson invalidUtf8 detection = .ok value)
    (left : Fits 32 detection.bboxLeft) (top : Fits 32 detection.bboxTop)
    (right : Fits 32 detection.bboxRight) (bottom : Fits 32 detection.bboxBottom) :
    detectionFromJson value path = .ok detection := by
  obtain ⟨text, textWritten, written⟩ := bind_eq_ok.mp written
  obtain ⟨bytes, confidence, bboxLeft, bboxTop, bboxRight, bboxBottom, reused⟩ := detection
  cases written
  have readText := requireString_written (path ++ ".text") textWritten
  cases reused
  · simp [detectionFromJson, fieldAt, Exec.Json.fields, List.lookup, requireFields, check,
      requireInt_of_fits, left, top, right, bottom, readText, bind, Except.bind, pure, Except.pure]
  · simp [detectionFromJson, fieldAt, Exec.Json.fields, List.lookup, requireFields, check,
      requireInt_of_fits, left, top, right, bottom, readText, bind, Except.bind, pure, Except.pure,
      isTrue]

/-- A written detection is an object that holds no deeper value than its box. -/
theorem detectionToJson_shape {detection : OcrTextDetection UInt64} {value : Json}
    (written : detectionToJson invalidUtf8 detection = .ok value)
    (finite : isFinite detection.confidence = true) :
    value.Representable ∧ value.nesting ≤ 2 := by
  obtain ⟨text, textWritten, written⟩ := bind_eq_ok.mp written
  obtain ⟨string, -, rfl⟩ := textJson_eq_ok.mp textWritten
  cases written
  cases detection.reused <;>
    simp [Exec.Json.Representable, Exec.RepresentableFields, Exec.RepresentableItems,
      Exec.Json.nesting, Exec.nestingFields, Exec.nestingItems, finite]

theorem detectionsFromJson_written {detections : List (OcrTextDetection UInt64)}
    {values : List Json} (index : Nat)
    (written : detections.mapM (detectionToJson invalidUtf8) = .ok values)
    (boxes : ∀ detection ∈ detections, Fits 32 detection.bboxLeft ∧ Fits 32 detection.bboxTop ∧
      Fits 32 detection.bboxRight ∧ Fits 32 detection.bboxBottom) :
    detectionsFromJson index values = .ok detections := by
  induction detections generalizing values index with
  | nil =>
    cases written
    rfl
  | cons detection detections ih =>
    obtain ⟨value, values, first, rest, rfl⟩ := Exec.mapM_cons_eq_ok.mp written
    obtain ⟨⟨left, top, right, bottom⟩, boxes⟩ := List.forall_mem_cons.mp boxes
    rw [detectionsFromJson, detectionFromJson_written _ first left top right bottom]
    change (do
      let detections ← detectionsFromJson (index + 1) values
      return detection :: detections) = _
    rw [ih (index + 1) rest boxes]
    rfl

theorem detections_shape {detections : List (OcrTextDetection UInt64)} {values : List Json}
    (written : detections.mapM (detectionToJson invalidUtf8) = .ok values)
    (finite : ∀ detection ∈ detections, isFinite detection.confidence = true) :
    Exec.RepresentableItems values ∧ Exec.nestingItems values ≤ 2 := by
  induction detections generalizing values with
  | nil =>
    cases written
    exact ⟨trivial, Nat.zero_le 2⟩
  | cons detection detections ih =>
    obtain ⟨value, values, first, rest, rfl⟩ := Exec.mapM_cons_eq_ok.mp written
    obtain ⟨finite, others⟩ := List.forall_mem_cons.mp finite
    obtain ⟨representable, shallow⟩ := detectionToJson_shape first finite
    obtain ⟨representables, shallows⟩ := ih rest others
    exact ⟨⟨representable, representables⟩, max_le shallow shallows⟩

/-- A record is read where each of its fields is. -/
theorem ocrSampleDetectionsFromJson_of {record : OcrRecord} {value : Json}
    (status : value.fields.lookup "status" = some (.string (ocrSampleStatusName record.status)))
    (fields : requireFields value (recordFields record.status) "record" = .ok ())
    (ordinal : fieldAt value "sample_ordinal" = .integer record.sampleOrdinal)
    (timestampUs : fieldAt value "timestamp_us" = .integer record.timestampUs)
    (width : readSize record.status value "frame_width" = .ok record.frameWidth)
    (height : readSize record.status value "frame_height" = .ok record.frameHeight)
    (detections : readDetections record.status value = .ok record.detections)
    (error : readError record.status value = .ok record.error)
    (accepted : validateRecord record = .ok ()) (typed : Typed record) :
    ocrSampleDetectionsFromJson value = .ok record := by
  have readOrdinal : requireInteger 0 (2 ^ 64 - 1) (.integer record.sampleOrdinal)
      "record.sample_ordinal" = .ok record.sampleOrdinal :=
    requireInteger_of_mem _ (Int.natCast_nonneg _)
      (Int.le_sub_one_of_lt (by exact_mod_cast typed.ordinal))
  have readTimestamp : requireInteger (-2 ^ 63) (2 ^ 63 - 1) (.integer record.timestampUs)
      "record.timestamp_us" = .ok record.timestampUs :=
    requireInteger_of_mem _ typed.timestamp.1 (Int.le_sub_one_of_lt typed.timestamp.2)
  have name : fieldAt value "status" = .string (ocrSampleStatusName record.status) := by
    rw [fieldAt, status, Option.getD_some]
  refine check_bind_eq_ok.mpr ⟨by rw [status]; rfl, bind_eq_ok.mpr ⟨_, by rw [name]; rfl, ?_⟩⟩
  rw [Exec.utf8Text_utf8, Option.bind_some, parseStatus_name]
  refine check_bind_eq_ok.mpr ⟨fields, bind_eq_ok.mpr ⟨_, ordinal ▸ readOrdinal, ?_⟩⟩
  refine bind_eq_ok.mpr ⟨_, timestampUs ▸ readTimestamp, ?_⟩
  refine bind_eq_ok.mpr ⟨_, width, bind_eq_ok.mpr ⟨_, height, ?_⟩⟩
  refine bind_eq_ok.mpr ⟨_, detections, bind_eq_ok.mpr ⟨_, error, ?_⟩⟩
  exact check_bind_eq_ok.mpr ⟨accepted, rfl⟩

theorem resultField_ok {record : OcrRecord} {result : String × Json} (ok : record.status = .ok)
    (written : resultField invalidUtf8 record = .ok result) :
    ∃ values, record.detections.mapM (detectionToJson invalidUtf8) = .ok values ∧
      result = ("detections", .array values) := by
  rw [resultField, if_pos ok] at written
  obtain ⟨values, detections, written⟩ := bind_eq_ok.mp written
  cases written
  exact ⟨values, detections, rfl⟩

theorem resultField_error {record : OcrRecord} {result : String × Json} (other : record.status ≠ .ok)
    (written : resultField invalidUtf8 record = .ok result) :
    ∃ value, textJson invalidUtf8 record.error = .ok value ∧ result = ("error", value) := by
  rw [resultField, if_neg other] at written
  obtain ⟨value, error, written⟩ := bind_eq_ok.mp written
  cases written
  exact ⟨value, error, rfl⟩

/-- A written record is read back: its status says which fields it has. -/
theorem ocrSampleDetectionsFromJson_written {record : OcrRecord} {value : Json}
    (written : ocrSampleDetectionsToJson invalidUtf8 record = .ok value) (typed : Typed record) :
    ocrSampleDetectionsFromJson value = .ok record := by
  obtain ⟨accepted, written⟩ := check_bind_eq_ok.mp written
  obtain ⟨result, content, written⟩ := bind_eq_ok.mp written
  have valid := validateRecord_eq_ok.mp accepted
  have width : ∀ path, requireInt (.integer record.frameWidth) path = .ok record.frameWidth :=
    fun path => requireInt_of_fits path typed.width
  have height : ∀ path, requireInt (.integer record.frameHeight) path = .ok record.frameHeight :=
    fun path => requireInt_of_fits path typed.height
  cases written
  by_cases ok : record.status = .ok
  · obtain ⟨values, detections, rfl⟩ := resultField_ok ok content
    have noError := valid.noError ok
    have readBack := detectionsFromJson_written 0 detections typed.boxes
    have sized : hasFrameSize record.status = true := by rw [ok]; rfl
    refine ocrSampleDetectionsFromJson_of ?_ ?_ ?_ ?_ ?_ ?_ ?_ ?_ accepted typed <;>
    simp [sizeFields, fieldAt, Exec.Json.fields, List.lookup, ok, readSize, readDetections,
      readError, requireFields, recordFields, hasFrameSize, width, height, readBack, noError]
  · obtain ⟨value, error, rfl⟩ := resultField_error ok content
    have noDetections := valid.noDetections ok
    have readBack := requireString_written "record.error" error
    by_cases sized : hasFrameSize record.status = true
    · refine ocrSampleDetectionsFromJson_of ?_ ?_ ?_ ?_ ?_ ?_ ?_ ?_ accepted typed <;>
      simp [sizeFields, fieldAt, Exec.Json.fields, List.lookup, ok, readSize, readDetections,
        readError, requireFields, recordFields, sized, width, height, readBack, noDetections]
    · obtain ⟨noWidth, noHeight⟩ := valid.noSize (Bool.eq_false_of_not_eq_true sized)
      refine ocrSampleDetectionsFromJson_of ?_ ?_ ?_ ?_ ?_ ?_ ?_ ?_ accepted typed <;>
      simp [sizeFields, fieldAt, Exec.Json.fields, List.lookup, ok, readSize, readDetections,
        readError, requireFields, recordFields, sized, readBack, noDetections, noWidth, noHeight]

/-- A written record nests no deeper than the decoder allows. -/
theorem ocrSampleDetectionsToJson_shape {record : OcrRecord} {value : Json}
    (written : ocrSampleDetectionsToJson invalidUtf8 record = .ok value) :
    value.Representable ∧ value.nesting ≤ kMaxRecordDepth := by
  obtain ⟨accepted, written⟩ := check_bind_eq_ok.mp written
  obtain ⟨result, content, written⟩ := bind_eq_ok.mp written
  have valid := validateRecord_eq_ok.mp accepted
  have flat : result.2.Representable ∧ result.2.nesting ≤ 3 := by
    by_cases ok : record.status = .ok
    · obtain ⟨values, detections, rfl⟩ := resultField_ok ok content
      obtain ⟨representable, shallow⟩ := detections_shape detections valid.finite
      exact ⟨representable, Nat.succ_le_succ shallow⟩
    · obtain ⟨value, error, rfl⟩ := resultField_error ok content
      obtain ⟨string, -, rfl⟩ := textJson_eq_ok.mp error
      exact ⟨trivial, Nat.zero_le 3⟩
  cases written
  obtain ⟨key, value⟩ := result
  unfold sizeFields
  split
  · exact ⟨⟨flat.1, trivial, trivial, trivial, trivial, trivial, trivial⟩,
      Nat.succ_le_succ (max_le flat.2 (Nat.zero_le 3))⟩
  · exact ⟨⟨flat.1, trivial, trivial, trivial, trivial⟩,
      Nat.succ_le_succ (max_le flat.2 (Nat.zero_le 3))⟩

theorem mapM_detectionToJson_of {detections : List (OcrTextDetection UInt64)}
    (utf8 : ∀ detection ∈ detections, (utf8Text detection.text).isSome) :
    ∃ values, detections.mapM (detectionToJson invalidUtf8) = .ok values := by
  induction detections with
  | nil => exact ⟨[], rfl⟩
  | cons detection detections ih =>
    obtain ⟨first, others⟩ := List.forall_mem_cons.mp utf8
    obtain ⟨string, decoded⟩ := Option.isSome_iff_exists.mp first
    obtain ⟨values, written⟩ := ih others
    rw [List.mapM_cons, detectionToJson, textJson_eq_ok.mpr ⟨string, decoded, rfl⟩, written]
    exact ⟨_, rfl⟩

/-- A record that validation accepts and whose texts are UTF-8 can be written. -/
theorem ocrSampleDetectionsToJson_of {record : OcrRecord}
    (accepted : validateRecord record = .ok ()) (utf8 : TextsUtf8 record) :
    ∃ value, ocrSampleDetectionsToJson invalidUtf8 record = .ok value := by
  have texts : ∃ result, resultField invalidUtf8 record = .ok result := by
    by_cases ok : record.status = .ok
    · obtain ⟨values, written⟩ := @mapM_detectionToJson_of invalidUtf8 _ utf8.2
      rw [resultField, if_pos ok, written]
      exact ⟨_, rfl⟩
    · obtain ⟨string, decoded⟩ := Option.isSome_iff_exists.mp utf8.1
      rw [resultField, if_neg ok, textJson_eq_ok.mpr ⟨string, decoded, rfl⟩]
      exact ⟨_, rfl⟩
  obtain ⟨result, written⟩ := texts
  exact ⟨_, check_bind_eq_ok.mpr ⟨accepted, bind_eq_ok.mpr ⟨result, written, rfl⟩⟩⟩

end Written

section Lines

variable {invalidUtf8 : Bytes → String} {lib : JsonLibrary}

/-- The library parses back the text it writes for the record. -/
def ParsesBack (invalidUtf8 : Bytes → String) (lib : JsonLibrary) (record : OcrRecord) : Prop :=
  ∀ value, ocrSampleDetectionsToJson invalidUtf8 record = .ok value →
    lib.parse (dump lib value) = .ok value

theorem encodeRecord_eq_ok {record : OcrRecord} {line : Bytes} :
    encodeRecord invalidUtf8 lib record = .ok line ↔
      ∃ value, ocrSampleDetectionsToJson invalidUtf8 record = .ok value ∧ dump lib value = line := by
  unfold encodeRecord
  cases ocrSampleDetectionsToJson invalidUtf8 record with
  | error message => exact ⟨nofun, nofun⟩
  | ok value => simp [Functor.map, Except.map]

/-- The line a record was encoded to is decoded to the record. -/
theorem decodeLine_encodeRecord {record : OcrRecord} {line : Bytes} (number : Nat)
    (encoded : encodeRecord invalidUtf8 lib record = .ok line) (typed : Typed record)
    (parses : ParsesBack invalidUtf8 lib record) :
    decodeLine invalidUtf8 lib line number = .ok record := by
  obtain ⟨value, written, rfl⟩ := encodeRecord_eq_ok.mp encoded
  obtain ⟨representable, shallow⟩ := ocrSampleDetectionsToJson_shape written
  have passes := Exec.runWithin_dump lib (by decide) representable shallow
  refine check_bind_eq_ok.mpr ⟨by rw [passes]; rfl, ?_⟩
  rw [parses value written]
  refine bind_eq_ok.mpr ⟨record, ocrSampleDetectionsFromJson_written written typed, ?_⟩
  refine bind_eq_ok.mpr ⟨_, encoded, check_bind_eq_ok.mpr ⟨check_eq_ok.mpr ?_, rfl⟩⟩
  exact beq_self_eq_true _

/-- A record is decoded from no line but the one it is encoded to. -/
theorem encodeRecord_of_decodeLine {line : Bytes} {number : Nat} {record : OcrRecord}
    (decoded : decodeLine invalidUtf8 lib line number = .ok record) :
    encodeRecord invalidUtf8 lib record = .ok line := by
  obtain ⟨-, decoded⟩ := check_bind_eq_ok.mp decoded
  split at decoded
  · cases decoded
  · obtain ⟨read, -, decoded⟩ := bind_eq_ok.mp decoded
    obtain ⟨canonical, encoded, decoded⟩ := bind_eq_ok.mp decoded
    obtain ⟨same, decoded⟩ := check_bind_eq_ok.mp decoded
    cases decoded
    rw [encoded, eq_of_beq (check_eq_ok.mp same)]

/-- Where a newline is left, the bytes before it are the next line. -/
theorem decodeFrom_of_newline {before : List OcrRecord} {bytes rest : Bytes} {newline : UInt8}
    (found : bytes.dropWhile (· != 0x0A) = newline :: rest) :
    decodeFrom invalidUtf8 lib before bytes = (do
      let record ← decodeLine invalidUtf8 lib (bytes.takeWhile (· != 0x0A)) (before.length + 1)
      decodeFrom invalidUtf8 lib (before ++ [record]) rest) := by
  have more : ¬ bytes.isEmpty = true := by
    rintro empty
    rw [List.isEmpty_iff.mp empty] at found
    cases found
  rw [decodeFrom, if_neg more]
  split
  · next none => exact absurd (none.symm.trans found) (List.cons_ne_nil _ _).symm
  · next found' =>
    obtain ⟨rfl, rfl⟩ := List.cons.inj (found.symm.trans found')
    rfl

/-- Line by line, what is decoded encodes to what it was decoded from. -/
theorem encode_of_decodeFrom {before records : List OcrRecord} {bytes : Bytes}
    (decoded : decodeFrom invalidUtf8 lib before bytes = .ok records) :
    ∃ later, records = before ++ later ∧
      encodeOcrSampleDetectionsJsonl invalidUtf8 lib later = .ok bytes := by
  induction before, bytes using decodeFrom.induct with
  | case1 before bytes empty =>
    rw [decodeFrom, if_pos empty] at decoded
    cases decoded
    rw [List.isEmpty_iff.mp empty]
    exact ⟨[], (List.append_nil _).symm, rfl⟩
  | case2 before bytes more noNewline =>
    rw [decodeFrom, if_neg more] at decoded
    split at decoded
    · cases decoded
    · next found => exact absurd (noNewline.symm.trans found) (List.cons_ne_nil _ _).symm
  | case3 before bytes more newline rest found ih =>
    rw [decodeFrom_of_newline found] at decoded
    obtain ⟨record, line, decoded⟩ := bind_eq_ok.mp decoded
    obtain ⟨later, rfl, encoded⟩ := ih record decoded
    refine ⟨record :: later, List.append_assoc before [record] later, ?_⟩
    refine bind_eq_ok.mpr ⟨_, encodeRecord_of_decodeLine line, bind_eq_ok.mpr ⟨_, encoded, ?_⟩⟩
    have ends : newline = 0x0A := by
      have stops := List.head?_dropWhile_not (· != (0x0A : UInt8)) bytes
      rw [found] at stops
      simpa using stops
    have whole := List.takeWhile_append_dropWhile (p := (· != 0x0A)) (l := bytes)
    rw [found, ends] at whole
    exact congrArg Except.ok whole

/-- Line by line, what was encoded decodes to what it was encoded from. -/
theorem decodeFrom_encode (floats : ∀ bits, Exec.LineFree (lib.floatText bits))
    {records : List OcrRecord} (before : List OcrRecord) {bytes : Bytes}
    (encoded : encodeOcrSampleDetectionsJsonl invalidUtf8 lib records = .ok bytes)
    (typed : ∀ record ∈ records, Typed record)
    (parses : ∀ record ∈ records, ParsesBack invalidUtf8 lib record) :
    decodeFrom invalidUtf8 lib before bytes = .ok (before ++ records) := by
  induction records generalizing before bytes with
  | nil =>
    cases encoded
    have empty : ([] : Bytes).isEmpty = true := rfl
    rw [decodeFrom, if_pos empty, List.append_nil]
  | cons record records ih =>
    obtain ⟨line, first, encoded⟩ := bind_eq_ok.mp encoded
    obtain ⟨later, rest, encoded⟩ := bind_eq_ok.mp encoded
    cases encoded
    obtain ⟨typed, othersTyped⟩ := List.forall_mem_cons.mp typed
    obtain ⟨parse, othersParse⟩ := List.forall_mem_cons.mp parses
    have free : ∀ c ∈ line, (c != 0x0A) = true := by
      obtain ⟨value, -, rfl⟩ := encodeRecord_eq_ok.mp first
      exact fun c mem => bne_iff_ne.mpr (Exec.dump_lineFree floats value c mem)
    have stop : ((0x0A : UInt8) != 0x0A) = false := by decide
    have split : (line ++ 0x0A :: later).dropWhile (· != 0x0A) = 0x0A :: later := by
      rw [List.dropWhile_append_of_pos free, List.dropWhile_cons_of_neg (by rw [stop]; decide)]
    have taken : (line ++ 0x0A :: later).takeWhile (· != 0x0A) = line := by
      rw [List.takeWhile_append_of_pos free, List.takeWhile_cons_of_neg (by rw [stop]; decide),
        List.append_nil]
    rw [decodeFrom_of_newline split, taken, decodeLine_encodeRecord _ first typed parse]
    change decodeFrom invalidUtf8 lib (before ++ [record]) later = _
    rw [ih (before ++ [record]) rest othersTyped othersParse, List.append_assoc]
    rfl

/-- A list of records that validation accepts and whose texts are UTF-8 can be written. -/
theorem encode_of_valid {records : List OcrRecord}
    (accepted : ∀ record ∈ records, validateRecord record = .ok () ∧ TextsUtf8 record) :
    ∃ bytes, encodeOcrSampleDetectionsJsonl invalidUtf8 lib records = .ok bytes := by
  induction records with
  | nil => exact ⟨[], rfl⟩
  | cons record records ih =>
    obtain ⟨⟨valid, utf8⟩, others⟩ := List.forall_mem_cons.mp accepted
    obtain ⟨value, written⟩ := @ocrSampleDetectionsToJson_of invalidUtf8 record valid utf8
    obtain ⟨bytes, rest⟩ := ih others
    have line := encodeRecord_eq_ok.mpr ⟨value, written, (rfl : dump lib value = _)⟩
    exact ⟨_, bind_eq_ok.mpr ⟨_, line, bind_eq_ok.mpr ⟨bytes, rest, rfl⟩⟩⟩

/-- Records are decoded from what they were encoded to, where the library parses back
what it wrote. -/
theorem decode_encode_records (floats : ∀ bits, Exec.LineFree (lib.floatText bits))
    {records : List OcrRecord}
    (accepted : ∀ record ∈ records, validateRecord record = .ok () ∧ TextsUtf8 record)
    (typed : ∀ record ∈ records, Typed record)
    (parses : ∀ record ∈ records, ParsesBack invalidUtf8 lib record) :
    ∃ bytes, encodeOcrSampleDetectionsJsonl invalidUtf8 lib records = .ok bytes ∧
      decodeOcrSampleDetectionsJsonl invalidUtf8 lib bytes = .ok records := by
  obtain ⟨bytes, encoded⟩ := encode_of_valid accepted
  exact ⟨bytes, encoded, decodeFrom_encode floats [] encoded typed parses⟩

/-- Bytes that are decoded are the encoding of the records read from them. -/
theorem encode_of_decode_records {bytes : Bytes} {records : List OcrRecord}
    (decoded : decodeOcrSampleDetectionsJsonl invalidUtf8 lib bytes = .ok records) :
    encodeOcrSampleDetectionsJsonl invalidUtf8 lib records = .ok bytes := by
  obtain ⟨later, rfl, encoded⟩ := encode_of_decodeFrom decoded
  exact encoded

end Lines

end OcrFrameDetections

end Svp.Vision
