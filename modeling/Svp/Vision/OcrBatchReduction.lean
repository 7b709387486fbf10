import Svp.Lib.Slots
import Svp.Vision.OcrDetectionsCodec

/-!
# Reduction of OCR frame batches

The first step of the OCR reducer puts every record of every batch into the slot of its
ordinal. It succeeds on the batches that cover the plan exactly (`assemble_isOk`), and
the records come out in the order of the plan, whatever order the batches came in
(`assemble_ordered`, `assemble_repartition`).

A sample whose frame was missed has no raster to compare, and the codec refuses to
write what validation lets pass where a text is not UTF-8: `ocr_batches_exceptions` has
one of each.
-/

namespace Svp.Vision

open Exec (Bytes JsonLibrary bind_eq_ok check_bind_eq_ok)
open Lib.Slots (Holds)

structure OcrSamplePlan where
  samples : List OcrSample
  frameWidth : Int := 0
  frameHeight : Int := 0
deriving DecidableEq

namespace OcrBatchReduction

variable {Score : Type}

/-! ## The reducer -/

def fail {α : Type} (message : String) : Except String α :=
  .error ("ocr frame batch reduction: " ++ message)

def ordinalText (ordinal : Nat) : String := "sample ordinal " ++ toString ordinal

/-- A frame size as the messages write it. -/
def sizeText (width height : Int) : String := toString width ++ "x" ++ toString height

/-- Puts a record into its slot. There is a slot for each planned sample. -/
def placeRecord (plan : OcrSamplePlan) (slots : List (Option (OcrSampleDetections Score)))
    (record : OcrSampleDetections Score) :
    Except String (List (Option (OcrSampleDetections Score))) :=
  let ordinal := record.sampleOrdinal
  match plan.samples[ordinal]? with
  | none =>
    fail (ordinalText ordinal ++ " is outside the plan of " ++ toString slots.length ++ " samples")
  | some planned =>
    if record.timestampUs ≠ planned.timestampUs then
      fail (ordinalText ordinal ++ " has timestamp " ++ toString record.timestampUs ++
        " us, plan has " ++ toString planned.timestampUs ++ " us")
    else if record.status = .notStarted then
      fail (ordinalText ordinal ++ " never started; the OCR stage must run without batches")
    else if record.status ≠ .decodeMissed ∧
        (record.frameWidth ≠ plan.frameWidth ∨ record.frameHeight ≠ plan.frameHeight) then
      fail (ordinalText ordinal ++ " was decoded at " ++
        sizeText record.frameWidth record.frameHeight ++ ", plan decodes at " ++
        sizeText plan.frameWidth plan.frameHeight)
    else if (slots[ordinal]?).join.isSome then fail (ordinalText ordinal ++ " appears twice")
    else .ok (slots.set ordinal (some record))

/-- The records of the slots from an ordinal on. -/
def collectSlots (ordinal : Nat) :
    List (Option (OcrSampleDetections Score)) → Except String (List (OcrSampleDetections Score))
  | [] => .ok []
  | none :: _ => fail (ordinalText ordinal ++ " has no result (gap)")
  | some record :: slots => do
    let ordered ← collectSlots (ordinal + 1) slots
    return record :: ordered

def assembleOcrFrameBatches (plan : OcrSamplePlan)
    (batchResults : List (List (OcrSampleDetections Score))) :
    Except String (List (OcrSampleDetections Score)) := do
  let slots ← batchResults.foldlM (fun slots batch => batch.foldlM (placeRecord plan) slots)
    (List.replicate plan.samples.length none)
  collectSlots 0 slots

/-! ## Batches that cover a plan -/

/-- A started record of a planned sample, at the planned time and, unless its frame was
missed, of the planned size. -/
structure Planned (plan : OcrSamplePlan) (record : OcrSampleDetections Score) : Prop where
  timestamp : plan.samples[record.sampleOrdinal]?.map OcrSample.timestampUs =
    some record.timestampUs
  started : record.status ≠ .notStarted
  raster : record.status ≠ .decodeMissed →
    record.frameWidth = plan.frameWidth ∧ record.frameHeight = plan.frameHeight

/-- Planned records, one for every sample of the plan. -/
structure Covers (plan : OcrSamplePlan) (records : List (OcrSampleDetections Score)) : Prop where
  planned : ∀ record ∈ records, Planned plan record
  once : (records.map OcrSampleDetections.sampleOrdinal).Perm (List.range plan.samples.length)

theorem Planned.within {plan : OcrSamplePlan} {record : OcrSampleDetections Score}
    (planned : Planned plan record) : record.sampleOrdinal < plan.samples.length := by
  obtain ⟨sample, found, -⟩ := Option.map_eq_some_iff.mp planned.timestamp
  exact (List.getElem?_eq_some_iff.mp found).1

theorem Covers.perm {plan : OcrSamplePlan} {records others : List (OcrSampleDetections Score)}
    (covers : Covers plan records) (same : records.Perm others) : Covers plan others where
  planned record mem := covers.planned record (same.mem_iff.mpr mem)
  once := (same.map _).symm.trans covers.once

theorem placeRecord_eq_ok {plan : OcrSamplePlan}
    {slots slots' : List (Option (OcrSampleDetections Score))}
    {record : OcrSampleDetections Score} (length : slots.length = plan.samples.length) :
    placeRecord plan slots record = .ok slots' ↔
      Planned plan record ∧ slots[record.sampleOrdinal]? = some none ∧
        slots.set record.sampleOrdinal (some record) = slots' := by
  unfold placeRecord
  dsimp only
  cases found : plan.samples[record.sampleOrdinal]? with
  | none =>
    refine iff_of_false nofun ?_
    exact fun ⟨planned, _⟩ =>
      absurd planned.within (not_lt.mpr (List.getElem?_eq_none_iff.mp found))
  | some sample =>
    have within : record.sampleOrdinal < slots.length :=
      length ▸ (List.getElem?_eq_some_iff.mp found).1
    have slot := List.getElem?_eq_getElem within
    have timestampOf : Planned plan record → sample.timestampUs = record.timestampUs := by
      intro planned
      have same := planned.timestamp
      rw [found] at same
      exact Option.some.inj same
    dsimp only
    split
    · next late => exact iff_of_false nofun fun ⟨planned, _⟩ => late (timestampOf planned).symm
    next timestamp =>
    split
    · next unstarted => exact iff_of_false nofun fun ⟨planned, _⟩ => planned.started unstarted
    next started =>
    split
    · next other =>
      exact iff_of_false nofun fun ⟨planned, _⟩ =>
        (not_or.mpr (((planned.raster other.1).imp not_not_intro not_not_intro))) other.2
    next raster =>
    have planned : Planned plan record := by
      refine ⟨by rw [found, Option.map_some, not_not.mp timestamp], started, fun decoded => ?_⟩
      exact (not_or.mp fun differs => raster ⟨decoded, differs⟩).imp not_not.mp not_not.mp
    rw [slot]
    cases slots[record.sampleOrdinal] with
    | none => simp [planned]
    | some taken => exact iff_of_false nofun nofun

/-- Records are put into their slots in any number of batches. -/
theorem foldlM_batches (plan : OcrSamplePlan) (batches : List (List (OcrSampleDetections Score)))
    (slots : List (Option (OcrSampleDetections Score))) :
    batches.foldlM (fun slots batch => batch.foldlM (placeRecord plan) slots) slots =
      batches.flatten.foldlM (placeRecord plan) slots := by
  induction batches generalizing slots with
  | nil => rfl
  | cons batch batches ih =>
    rw [List.foldlM_cons, List.flatten_cons, List.foldlM_append]
    exact congrArg _ (funext ih)

/-- The slots after records were put there. -/
theorem placeRecords_holds {plan : OcrSamplePlan} {records items : List (OcrSampleDetections Score)}
    {slots slots' : List (Option (OcrSampleDetections Score))}
    (placed : records.foldlM (placeRecord plan) slots = .ok slots')
    (length : slots.length = plan.samples.length)
    (holds : Holds OcrSampleDetections.sampleOrdinal slots items) :
    Holds OcrSampleDetections.sampleOrdinal slots' (items ++ records) ∧
      slots'.length = plan.samples.length ∧ ∀ record ∈ records, Planned plan record := by
  induction records generalizing slots items with
  | nil =>
    cases placed
    exact ⟨(List.append_nil items).symm ▸ holds, length, nofun⟩
  | cons record records ih =>
    rw [List.foldlM_cons] at placed
    obtain ⟨next, first, placed⟩ := bind_eq_ok.mp placed
    obtain ⟨planned, free, rfl⟩ := (placeRecord_eq_ok length).mp first
    obtain ⟨holds, length, others⟩ := ih placed (List.length_set.trans length) (holds.put free)
    rw [List.append_assoc] at holds
    exact ⟨holds, length, List.forall_mem_cons.mpr ⟨planned, others⟩⟩

/-- Planned records of different ordinals can all be put into their slots. -/
theorem placeRecords_exists {plan : OcrSamplePlan} {records items : List (OcrSampleDetections Score)}
    {slots : List (Option (OcrSampleDetections Score))}
    (planned : ∀ record ∈ records, Planned plan record)
    (distinct : ((items ++ records).map OcrSampleDetections.sampleOrdinal).Nodup)
    (length : slots.length = plan.samples.length)
    (holds : Holds OcrSampleDetections.sampleOrdinal slots items) :
    ∃ slots', records.foldlM (placeRecord plan) slots = .ok slots' := by
  induction records generalizing slots items with
  | nil => exact ⟨slots, rfl⟩
  | cons record records ih =>
    obtain ⟨first, others⟩ := List.forall_mem_cons.mp planned
    have fresh : record.sampleOrdinal ∉ items.map OcrSampleDetections.sampleOrdinal := by
      intro taken
      rw [List.map_append, List.map_cons] at distinct
      exact (List.nodup_append.mp distinct).2.2 _ taken _ List.mem_cons_self rfl
    have free := (holds.free_iff (length.symm ▸ first.within)).mpr fresh
    rw [List.append_cons] at distinct
    obtain ⟨slots', placed⟩ := ih others distinct (List.length_set.trans length) (holds.put free)
    refine ⟨slots', ?_⟩
    rw [List.foldlM_cons, (placeRecord_eq_ok length).mpr ⟨first, free, rfl⟩]
    exact placed

theorem collectSlots_eq_ok {slots : List (Option (OcrSampleDetections Score))}
    {ordered : List (OcrSampleDetections Score)} {ordinal : Nat} :
    collectSlots ordinal slots = .ok ordered ↔ ordered.map some = slots := by
  induction slots generalizing ordinal ordered with
  | nil =>
    rw [collectSlots, List.map_eq_nil_iff]
    exact ⟨fun same => (Except.ok.inj same).symm, fun same => same ▸ rfl⟩
  | cons slot slots ih =>
    cases slot with
    | none =>
      refine iff_of_false nofun fun same => ?_
      obtain ⟨_, _, -, never, -⟩ := List.map_eq_cons_iff.mp same
      cases never
    | some record =>
      rw [collectSlots, bind_eq_ok, List.map_eq_cons_iff]
      constructor
      · rintro ⟨later, collected, same⟩
        cases same
        exact ⟨record, later, rfl, rfl, ih.mp collected⟩
      · rintro ⟨_, later, rfl, same, collected⟩
        cases same
        exact ⟨later, ih.mpr collected, rfl⟩

/-! ## What the reducer returns -/

theorem assemble_holds {plan : OcrSamplePlan} {batches : List (List (OcrSampleDetections Score))}
    {ordered : List (OcrSampleDetections Score)}
    (assembled : assembleOcrFrameBatches plan batches = .ok ordered) :
    (∀ record ∈ batches.flatten, Planned plan record) ∧ ordered.Perm batches.flatten ∧
      ordered.map OcrSampleDetections.sampleOrdinal = List.range plan.samples.length := by
  obtain ⟨slots, placed, collected⟩ := bind_eq_ok.mp assembled
  rw [foldlM_batches] at placed
  obtain ⟨holds, length, planned⟩ := placeRecords_holds placed List.length_replicate (.free _)
  obtain ⟨perm, ordinals⟩ := holds.collected (collectSlots_eq_ok.mp collected)
  exact ⟨planned, perm, length ▸ ordinals⟩

/-- The records that come out are those that went in, in the order of the plan. -/
theorem assemble_ordered {plan : OcrSamplePlan} {batches : List (List (OcrSampleDetections Score))}
    {ordered : List (OcrSampleDetections Score)}
    (assembled : assembleOcrFrameBatches plan batches = .ok ordered) :
    ordered.Perm batches.flatten ∧
      ordered.map OcrSampleDetections.sampleOrdinal = List.range plan.samples.length :=
  (assemble_holds assembled).2

/-- The reducer succeeds on the batches that cover the plan, and on no others. -/
theorem assemble_isOk {plan : OcrSamplePlan} {batches : List (List (OcrSampleDetections Score))} :
    (∃ ordered, assembleOcrFrameBatches plan batches = .ok ordered) ↔
      Covers plan batches.flatten := by
  constructor
  · rintro ⟨ordered, assembled⟩
    obtain ⟨planned, perm, ordinals⟩ := assemble_holds assembled
    exact ⟨planned, (perm.map _).symm.trans (.of_eq ordinals)⟩
  · intro covers
    have distinct := covers.once.nodup_iff.mpr List.nodup_range
    have free : Holds OcrSampleDetections.sampleOrdinal
        (List.replicate plan.samples.length (none : Option (OcrSampleDetections Score))) [] := .free _
    obtain ⟨slots, placed⟩ :=
      placeRecords_exists covers.planned distinct List.length_replicate free
    obtain ⟨holds, length, -⟩ := placeRecords_holds placed List.length_replicate free
    obtain ⟨ordered, read⟩ := holds.full fun i within =>
      covers.once.mem_iff.mpr (List.mem_range.mpr (within.trans_eq length))
    refine ⟨ordered, bind_eq_ok.mpr ⟨slots, ?_, collectSlots_eq_ok.mpr read⟩⟩
    rw [foldlM_batches, placed]

/-- Batches with the same records, cut and ordered in another way, come out the same. -/
theorem assemble_repartition {plan : OcrSamplePlan}
    {batches others : List (List (OcrSampleDetections Score))}
    {ordered : List (OcrSampleDetections Score)}
    (assembled : assembleOcrFrameBatches plan batches = .ok ordered)
    (same : batches.flatten.Perm others.flatten) :
    assembleOcrFrameBatches plan others = .ok ordered := by
  have covers := (assemble_isOk.mp ⟨ordered, assembled⟩).perm same
  obtain ⟨ordered', assembled'⟩ := assemble_isOk.mpr covers
  obtain ⟨perm, ordinals⟩ := assemble_ordered assembled
  obtain ⟨perm', ordinals'⟩ := assemble_ordered assembled'
  rw [assembled', Lib.Slots.eq_of_places (perm'.trans (same.symm.trans perm.symm)) ordinals' ordinals]

end OcrBatchReduction

/-! ## The codec and the reducer -/

section Main

open OcrFrameDetections OcrBatchReduction

/-- Records that validation accepts and whose texts are UTF-8 are read back from their
encoding, and what is decoded encodes to the bytes it was read from. Batches are
assembled exactly where they cover the plan, and then into the order of the plan, however
their records were cut into batches. -/
theorem ocr_batches_read_back_and_assemble (invalidUtf8 : Bytes → String) (lib : JsonLibrary)
    (floats : ∀ bits, Exec.LineFree (lib.floatText bits)) :
    (∀ records : List OcrRecord,
        (∀ record ∈ records, validateRecord record = .ok () ∧ TextsUtf8 record) →
        (∀ record ∈ records, Typed record) →
        (∀ record ∈ records, ParsesBack invalidUtf8 lib record) →
        ∃ bytes, encodeOcrSampleDetectionsJsonl invalidUtf8 lib records = .ok bytes ∧
          decodeOcrSampleDetectionsJsonl invalidUtf8 lib bytes = .ok records) ∧
      (∀ bytes records, decodeOcrSampleDetectionsJsonl invalidUtf8 lib bytes = .ok records →
        encodeOcrSampleDetectionsJsonl invalidUtf8 lib records = .ok bytes) ∧
      (∀ (plan : OcrSamplePlan) (batches : List (List OcrRecord)),
        (∃ ordered, assembleOcrFrameBatches plan batches = .ok ordered) ↔
          Covers plan batches.flatten) ∧
      ∀ (plan : OcrSamplePlan) (batches : List (List OcrRecord)) (ordered : List OcrRecord),
        assembleOcrFrameBatches plan batches = .ok ordered →
          ordered.Perm batches.flatten ∧
          ordered.map OcrSampleDetections.sampleOrdinal = List.range plan.samples.length ∧
          ∀ others : List (List OcrRecord), batches.flatten.Perm others.flatten →
            assembleOcrFrameBatches plan others = .ok ordered := by
  refine ⟨fun records => decode_encode_records floats, fun bytes records => encode_of_decode_records,
    fun plan batches => assemble_isOk, fun plan batches ordered assembled => ?_⟩
  obtain ⟨perm, ordinals⟩ := assemble_ordered assembled
  exact ⟨perm, ordinals, fun others => assemble_repartition assembled⟩

/-- An ok sample with one reused detection. -/
def sampleRecord : OcrRecord where
  sampleOrdinal := 0
  timestampUs := 40
  status := .ok
  frameWidth := 64
  frameHeight := 48
  detections := [⟨Exec.utf8 "a", 0x3FE0000000000000, 1, 2, 3, 4, true⟩]

def sampleDetections : Exec.Json :=
  .array [.object [
    ("bbox", .array [.integer 1, .integer 2, .integer 3, .integer 4]),
    ("confidence", .float 0x3FE0000000000000),
    ("reused", .bool true),
    ("text", .string "a")]]

def sampleJson : Exec.Json :=
  .object [
    ("detections", sampleDetections),
    ("frame_height", .integer 48),
    ("frame_width", .integer 64),
    ("sample_ordinal", .integer 0),
    ("status", .string "ok"),
    ("timestamp_us", .integer 40)]

/-- A library that knows the text of this one record. -/
def sampleLibrary : JsonLibrary where
  floatText _ := [0x30, 0x2E, 0x35]
  floatText_plain _ := by decide +kernel
  parse _ := .ok sampleJson

theorem ocr_batches_read_back_and_assemble_sample :
    (∃ bytes, encodeOcrSampleDetectionsJsonl (fun _ => "") sampleLibrary [sampleRecord] = .ok bytes ∧
      decodeOcrSampleDetectionsJsonl (fun _ => "") sampleLibrary bytes = .ok [sampleRecord]) ∧
    assembleOcrFrameBatches ⟨[⟨0, 40⟩], 64, 48⟩ [[], [sampleRecord]] = .ok [sampleRecord] := by
  have free : Exec.LineFree [0x30, 0x2E, 0x35] := by decide +kernel
  have main := ocr_batches_read_back_and_assemble (fun _ => "") sampleLibrary fun _ => free
  have one : ∀ {p : OcrRecord → Prop}, p sampleRecord → ∀ record ∈ [sampleRecord], p record :=
    fun holds => List.forall_mem_singleton.mpr holds
  have text : Exec.utf8Text (Exec.utf8 "a") = some "a" := Exec.utf8Text_utf8 "a"
  have written : ocrSampleDetectionsToJson (fun _ => "") sampleRecord = .ok sampleJson := by
    have textWritten : textJson (fun _ => "") (Exec.utf8 "a") = .ok (.string "a") :=
      textJson_eq_ok.mpr ⟨"a", text, rfl⟩
    have result : resultField (fun _ => "") sampleRecord = .ok ("detections", sampleDetections) := by
      have ok : sampleRecord.status = .ok := rfl
      rw [resultField, if_pos ok, sampleRecord, List.mapM_cons, detectionToJson, textWritten]
      rfl
    exact check_bind_eq_ok.mpr ⟨rfl, bind_eq_ok.mpr ⟨_, result, rfl⟩⟩
  constructor
  · refine main.1 [sampleRecord] (one ⟨rfl, ?_, ?_⟩) (one ?_) (one ?_)
    · exact (Option.isSome_iff_exists.mpr ⟨"", Exec.utf8Text_utf8 ""⟩)
    · exact List.forall_mem_singleton.mpr (Option.isSome_iff_exists.mpr ⟨"a", text⟩)
    · exact ⟨by decide, by decide, by decide, by decide, by decide⟩
    · intro value written'
      exact written.symm.trans written'
  · have first : assembleOcrFrameBatches ⟨[⟨0, 40⟩], 64, 48⟩ [[sampleRecord]] = .ok [sampleRecord] :=
      rfl
    exact (main.2.2.2 _ _ _ first).2.2 [[], [sampleRecord]] (.refl _)

/-- Validation accepts an error that is not UTF-8, and nothing encodes it. A frame that
was missed has no raster, whatever the plan's. -/
theorem ocr_batches_exceptions :
    (validateRecord ⟨0, 0, .ocrFailed, [0xFF], 1, 1, []⟩ = .ok () ∧
      ∀ invalidUtf8 lib bytes, encodeOcrSampleDetectionsJsonl invalidUtf8 lib
        [⟨0, 0, .ocrFailed, [0xFF], 1, 1, []⟩] ≠ .ok bytes) ∧
    assembleOcrFrameBatches ⟨[⟨0, 0⟩], 64, 48⟩ [[(⟨0, 0, .decodeMissed, [], 0, 0, []⟩ : OcrRecord)]] =
      .ok [⟨0, 0, .decodeMissed, [], 0, 0, []⟩] := by
  refine ⟨⟨rfl, fun invalidUtf8 lib bytes encoded => ?_⟩, rfl⟩
  obtain ⟨line, encoded, -⟩ := bind_eq_ok.mp encoded
  obtain ⟨value, written, -⟩ := encodeRecord_eq_ok.mp encoded
  obtain ⟨-, written⟩ := check_bind_eq_ok.mp written
  obtain ⟨result, content, -⟩ := bind_eq_ok.mp written
  have other : OcrSampleStatus.ocrFailed ≠ .ok := by decide
  obtain ⟨text, error, -⟩ := resultField_error other content
  obtain ⟨string, decoded, -⟩ := textJson_eq_ok.mp error
  have broken : Exec.utf8Text [0xFF] = none := by decide
  rw [broken] at decoded
  cases decoded

end Main

end Svp.Vision
