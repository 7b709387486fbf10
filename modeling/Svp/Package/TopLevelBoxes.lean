import Svp.Exec.Digest
import Svp.Exec.Error
import Svp.Lib.ByteOrder
import Svp.Lib.Tiling

/-!
# Top-level boxes of an ISO BMFF file

`scanTopLevelBoxes` walks the box headers of a file. The main results say what a
valid scan without a size-zero box is: the file is a list of parts, each a
complete box by itself, laid end to end (`parts_of_scan`), and any such list
scans to its own layout (`scan_parts`). Offsets never enter an argument after
that.
-/

namespace Svp.Package

open Exec (Bytes utf8)
open Lib (slice placed)

/-- The largest offset a stream can be positioned at. -/
def kMaxStreamOffset : Nat := 2 ^ 63 - 1

def kMaxU64 : Nat := 2 ^ 64 - 1

/-- A file, which is never longer than a stream offset can say. -/
structure MediaFile where
  bytes : Bytes
  size : bytes.length ≤ kMaxStreamOffset
deriving DecidableEq

inductive EmbeddedSvpiIssueCode
  | inputUnreadable
  | unsupportedContainer
  | invalidBoxStructure
  | truncatedUuidBox
  | unsupportedProfileVersion
  | invalidEnvelopeSize
  | unsupportedFlags
  | invalidEnvelopeMagic
  | payloadOutsideFile
  | payloadLengthMismatch
  | payloadHashMismatch
  | duplicateEmbeddings
  | noEmbedding
  | unsafeTailLayout
  | zeroSizedTopLevelBox
  | outputExists
  | outputWriteFailed
deriving DecidableEq

structure EmbeddedSvpiIssue where
  code : EmbeddedSvpiIssueCode
  offset : Nat
  message : String
deriving DecidableEq

structure TopLevelBox where
  offset : Nat
  size : Nat
  headerSize : Nat
  type : Bytes
  extendsToEof : Bool
deriving DecidableEq

structure TopLevelScan where
  fileSize : Nat
  valid : Bool
  boxes : List TopLevelBox
  issues : List EmbeddedSvpiIssue

/-! ## Reading -/

def checkedAdd (left right : Nat) : Option Nat :=
  if kMaxU64 - left < right then none else some (left + right)

def readBe32 (bytes : Bytes) : Nat := Lib.ofBigEndian (bytes.take 4)

def readBe64 (bytes : Bytes) : Nat := Lib.ofBigEndian (bytes.take 8)

def readExactAt (file : Bytes) (offset size : Nat) : Option Bytes :=
  if kMaxStreamOffset < offset ∨ kMaxStreamOffset < size then none
  else if offset + size ≤ file.length then some (slice file offset size)
  else none

def uuidType : Bytes := utf8 "uuid"

def ftypType : Bytes := utf8 "ftyp"

def mfraType : Bytes := utf8 "mfra"

def mfroType : Bytes := utf8 "mfro"

def kMaximumTopLevelBoxes : Nat := 1000000

/-- The size field of a box: its size, its header size, and whether the box
extends to the end of the file. -/
def readBoxSize (file : Bytes) (offset compactSize : Nat) :
    Except EmbeddedSvpiIssue (Nat × Nat × Bool) :=
  let remaining := file.length - offset
  if compactSize = 0 then .ok (remaining, 8, true)
  else if compactSize = 1 then
    match if remaining < 16 then none else readExactAt file (offset + 8) 8 with
    | none =>
      .error ⟨.invalidBoxStructure, offset, "Truncated extended-size ISO BMFF box header."⟩
    | some extended =>
      if readBe64 extended < 16 then
        .error ⟨.invalidBoxStructure, offset, "Extended-size box is smaller than its header."⟩
      else .ok (readBe64 extended, 16, false)
  else if compactSize < 8 then
    .error ⟨.invalidBoxStructure, offset, "Box is smaller than its header."⟩
  else .ok (compactSize, 8, false)

/-- The box at `offset`, up to the bound on the number of boxes. -/
def readTopLevelBox (file : Bytes) (offset : Nat) : Except EmbeddedSvpiIssue TopLevelBox :=
  if file.length - offset < 8 then
    .error ⟨.invalidBoxStructure, offset, "Truncated top-level ISO BMFF box header."⟩
  else
    match readExactAt file offset 8 with
    | none => .error ⟨.inputUnreadable, offset, "Unable to read top-level ISO BMFF box header."⟩
    | some header => do
      let type := header.drop 4
      let (size, headerSize, extendsToEof) ← readBoxSize file offset (readBe32 header)
      match checkedAdd offset size with
      | none =>
        .error ⟨.invalidBoxStructure, offset, "Top-level box extends beyond the input file."⟩
      | some boxEnd =>
        if file.length < boxEnd then
          .error ⟨.invalidBoxStructure, offset, "Top-level box extends beyond the input file."⟩
        else if type = uuidType then
          if size < headerSize + 16 then
            .error ⟨.truncatedUuidBox, offset, "UUID box is too small to contain a user type."⟩
          else .ok { offset, size, headerSize := headerSize + 16, type, extendsToEof }
        else .ok { offset, size, headerSize, type, extendsToEof }

/-- The scanning loop; each round consumes at least eight bytes, so `fuel` above
the length of the file never runs out. -/
def scanBoxes (file : Bytes) : Nat → Nat → List TopLevelBox → TopLevelScan
  | 0, _, boxes => { fileSize := file.length, valid := false, boxes, issues := [] }
  | fuel + 1, offset, boxes =>
    if file.length ≤ offset then
      { fileSize := file.length, valid := offset == file.length, boxes, issues := [] }
    else
      match readTopLevelBox file offset with
      | .error issue => { fileSize := file.length, valid := false, boxes, issues := [issue] }
      | .ok box =>
        if kMaximumTopLevelBoxes ≤ boxes.length then
          { fileSize := file.length, valid := false, boxes
            issues := [⟨.invalidBoxStructure, offset,
              "ISO BMFF top-level box count exceeds the supported bound."⟩] }
        else if box.extendsToEof then
          { fileSize := file.length, valid := offset + box.size == file.length
            boxes := boxes ++ [box], issues := [] }
        else scanBoxes file fuel (offset + box.size) (boxes ++ [box])

def scanTopLevelBoxes (file : MediaFile) : TopLevelScan :=
  scanBoxes file.bytes (file.bytes.length + 1) 0 []

theorem fileSize_scan (file : MediaFile) : (scanTopLevelBoxes file).fileSize = file.bytes.length := by
  have loop : ∀ (fuel offset : Nat) (boxes : List TopLevelBox),
      (scanBoxes file.bytes fuel offset boxes).fileSize = file.bytes.length := by
    intro fuel
    induction fuel with
    | zero => exact fun _ _ => rfl
    | succ fuel ih =>
      intro offset boxes
      rw [scanBoxes]
      by_cases done : file.bytes.length ≤ offset
      · rw [if_pos done]
      rw [if_neg done]
      cases readTopLevelBox file.bytes offset with
      | error issue => rfl
      | ok box =>
        dsimp only
        split_ifs
        · rfl
        · rfl
        · exact ih _ _
  exact loop _ _ _

/-! ## Complete boxes -/

/-- The bytes of one complete box with a stated size. -/
def IsBox (part : Bytes) : Prop :=
  ∃ box, readTopLevelBox part 0 = .ok box ∧ box.size = part.length ∧ box.extendsToEof = false

/-- The box that stands at `offset` when `part` does. -/
def boxAt (placedPart : Nat × Bytes) : TopLevelBox :=
  match readTopLevelBox placedPart.2 0 with
  | .ok box => { box with offset := placedPart.1 }
  | .error _ => { offset := placedPart.1, size := 0, headerSize := 0, type := [], extendsToEof := false }

theorem readExactAt_eq_some {file : Bytes} {offset size : Nat} {bytes : Bytes} :
    readExactAt file offset size = some bytes ↔
      offset ≤ kMaxStreamOffset ∧ size ≤ kMaxStreamOffset ∧ offset + size ≤ file.length ∧
        slice file offset size = bytes := by
  unfold readExactAt
  split_ifs with far inside
  · simp only [false_iff]
    omega
  · rw [Option.some_inj]
    exact ⟨fun same => ⟨by omega, by omega, inside, same⟩, fun ok => ok.2.2.2⟩
  · simp only [false_iff]
    omega

theorem readExactAt_of {file : MediaFile} {offset size : Nat}
    (inside : offset + size ≤ file.bytes.length) :
    readExactAt file.bytes offset size = some (slice file.bytes offset size) :=
  readExactAt_eq_some.mpr ⟨by have := file.size; omega, by have := file.size; omega, inside, rfl⟩

/-- What the first bytes of a box with a stated size say about it. -/
def DescribesBox (header : Bytes) (extended : Option Bytes) (box : TopLevelBox) : Prop :=
  box.extendsToEof = false ∧ box.type = header.drop 4 ∧ ∃ base : Nat,
    ((8 ≤ readBe32 header ∧ box.size = readBe32 header ∧ base = 8) ∨
      (readBe32 header = 1 ∧ 16 ≤ box.size ∧ base = 16 ∧
        ∃ bytes, extended = some bytes ∧ box.size = readBe64 bytes)) ∧
    if box.type = uuidType then base + 16 ≤ box.size ∧ box.headerSize = base + 16
    else box.headerSize = base

theorem DescribesBox.size {header : Bytes} {extended : Option Bytes} {box : TopLevelBox}
    (describes : DescribesBox header extended box) : 8 ≤ box.size := by
  obtain ⟨-, -, base, ⟨compact, size, -⟩ | ⟨-, size, -⟩, -⟩ := describes
  · rw [size]
    exact compact
  · omega

theorem checkedAdd_eq_some {left right sum : Nat} (positive : 0 < right) :
    checkedAdd left right = some sum ↔ left + right ≤ kMaxU64 ∧ sum = left + right := by
  unfold checkedAdd
  split_ifs with overflow
  · simp only [false_iff]
    omega
  · rw [Option.some_inj, eq_comm, iff_and_self]
    omega

theorem readBoxSize_eq_ok {file : Bytes} {offset compactSize size base : Nat} :
    readBoxSize file offset compactSize = .ok (size, base, false) ↔
      (8 ≤ compactSize ∧ size = compactSize ∧ base = 8) ∨
        (compactSize = 1 ∧ 16 ≤ size ∧ base = 16 ∧ 16 ≤ file.length - offset ∧
          ∃ bytes, readExactAt file (offset + 8) 8 = some bytes ∧ size = readBe64 bytes) := by
  unfold readBoxSize
  by_cases zero : compactSize = 0
  · simp [zero]
  by_cases one : compactSize = 1
  · subst one
    by_cases short : file.length - offset < 16
    · simp [short]
    cases extended : readExactAt file (offset + 8) 8 with
    | none => simp [short]
    | some bytes =>
      by_cases less : readBe64 bytes < 16
      · simp [short, less]
        omega
      · simp [short, less]
        omega
  · by_cases small : compactSize < 8
    · simp [zero, one, small]
    · simp [zero, one, small]
      omega

/-- Reading a box with a stated size: its header describes it and it is inside the file. -/
theorem readTopLevelBox_eq_ok {file : Bytes} {offset : Nat} {box : TopLevelBox}
    (stated : box.extendsToEof = false) :
    readTopLevelBox file offset = .ok box ↔
      box.offset = offset ∧ offset + box.size ≤ kMaxU64 ∧ offset + box.size ≤ file.length ∧
        ∃ header, readExactAt file offset 8 = some header ∧
          DescribesBox header (readExactAt file (offset + 8) 8) box := by
  constructor
  · intro read
    rw [readTopLevelBox] at read
    split at read
    · cases read
    split at read
    · cases read
    next header headerRead =>
    obtain ⟨⟨size, base, extendsToEof⟩, sized, read⟩ := Exec.bind_eq_ok.mp read
    dsimp only at read
    split at read
    · cases read
    next boxEnd added =>
    split at read
    · cases read
    next inside =>
    split at read
    · next isUuid =>
      split at read
      · cases read
      next room =>
      cases read
      obtain rfl : extendsToEof = false := stated
      have choice := readBoxSize_eq_ok.mp sized
      obtain ⟨fits, rfl⟩ := (checkedAdd_eq_some (by omega)).mp added
      refine ⟨rfl, fits, not_lt.mp inside, header, headerRead, rfl, rfl, base, ?_, ?_⟩
      · exact choice.imp_right fun large => ⟨large.1, large.2.1, large.2.2.1, large.2.2.2.2⟩
      · rw [if_pos isUuid]
        exact ⟨not_lt.mp room, rfl⟩
    · next notUuid =>
      cases read
      obtain rfl : extendsToEof = false := stated
      have choice := readBoxSize_eq_ok.mp sized
      obtain ⟨fits, rfl⟩ := (checkedAdd_eq_some (by omega)).mp added
      refine ⟨rfl, fits, not_lt.mp inside, header, headerRead, rfl, rfl, base, ?_, ?_⟩
      · exact choice.imp_right fun large => ⟨large.1, large.2.1, large.2.2.1, large.2.2.2.2⟩
      · rw [if_neg notUuid]
  · rintro ⟨rfl, fits, inside, header, headerRead, describes⟩
    have large := describes.size
    obtain ⟨-, type, base, choice, typed⟩ := describes
    have room : ¬ file.length - box.offset < 8 := by omega
    have sized : readBoxSize file box.offset (readBe32 header) = .ok (box.size, base, false) :=
      readBoxSize_eq_ok.mpr (choice.imp_right fun long =>
        ⟨long.1, long.2.1, long.2.2.1, by omega, long.2.2.2⟩)
    have added : checkedAdd box.offset box.size = some (box.offset + box.size) :=
      (checkedAdd_eq_some (by omega)).mpr ⟨fits, rfl⟩
    rw [readTopLevelBox, if_neg room, headerRead]
    simp only [sized, added, bind, Except.bind, if_neg (not_lt.mpr inside), ← type]
    by_cases isUuid : box.type = uuidType
    · rw [if_pos isUuid] at typed
      rw [if_pos isUuid, if_neg (not_lt.mpr typed.1), ← typed.2, ← stated]
    · rw [if_neg isUuid] at typed
      rw [if_neg isUuid, ← typed, ← stated]

theorem readExactAt_part {before part after : Bytes} {offset size : Nat} {bytes : Bytes}
    (small : before.length + part.length ≤ kMaxStreamOffset) (inside : offset + size ≤ part.length) :
    readExactAt (before ++ (part ++ after)) (before.length + offset) size = some bytes ↔
      readExactAt part offset size = some bytes := by
  rw [readExactAt_eq_some, readExactAt_eq_some, Lib.slice_part before part after inside,
    List.length_append, List.length_append]
  constructor
  · rintro ⟨-, -, -, same⟩
    exact ⟨by omega, by omega, inside, same⟩
  · rintro ⟨-, -, -, same⟩
    exact ⟨by omega, by omega, by omega, same⟩

/-- The header of a box is inside it, so where the box stands does not matter. -/
theorem DescribesBox.part {before part after header : Bytes} {box : TopLevelBox}
    (small : before.length + part.length ≤ kMaxStreamOffset) (whole : box.size = part.length) :
    DescribesBox header (readExactAt (before ++ (part ++ after)) (before.length + 8) 8) box ↔
      DescribesBox header (readExactAt part 8 8) box := by
  refine and_congr_right fun _ => and_congr_right fun _ => exists_congr fun base =>
    and_congr_left fun _ => or_congr_right (and_congr_right fun _ => and_congr_right fun large =>
      and_congr_right fun _ => exists_congr fun bytes => and_congr_left fun _ => ?_)
  exact readExactAt_part small (by omega)

/-- A complete box reads the same wherever it stands. -/
theorem readTopLevelBox_part (before part after : Bytes) {box : TopLevelBox}
    (small : before.length + part.length ≤ kMaxStreamOffset) (whole : box.size = part.length)
    (stated : box.extendsToEof = false) :
    readTopLevelBox (before ++ (part ++ after)) before.length =
        .ok { box with offset := before.length } ↔
      readTopLevelBox part 0 = .ok { box with offset := 0 } := by
  have limit : kMaxStreamOffset ≤ kMaxU64 := by decide
  rw [@readTopLevelBox_eq_ok _ _ { box with offset := before.length } stated,
    @readTopLevelBox_eq_ok _ _ { box with offset := 0 } stated]
  constructor
  · rintro ⟨-, -, -, header, read, describes⟩
    have large : 8 ≤ part.length := whole ▸ describes.size
    refine ⟨rfl, ?_, ?_, header, ?_, ?_⟩
    · show 0 + box.size ≤ kMaxU64
      omega
    · show 0 + box.size ≤ part.length
      omega
    · exact (readExactAt_part small (by omega)).mp read
    · exact (DescribesBox.part small whole).mp describes
  · rintro ⟨-, -, -, header, read, describes⟩
    have large : 8 ≤ part.length := whole ▸ describes.size
    refine ⟨rfl, ?_, ?_, header, ?_, ?_⟩
    · show before.length + box.size ≤ kMaxU64
      omega
    · show before.length + box.size ≤ (before ++ (part ++ after)).length
      rw [List.length_append, List.length_append]
      omega
    · exact (readExactAt_part small (by omega)).mpr read
    · exact (DescribesBox.part small whole).mpr describes

theorem IsBox.size {part : Bytes} (isBox : IsBox part) : 8 ≤ part.length := by
  obtain ⟨box, read, whole, stated⟩ := isBox
  obtain ⟨-, -, -, header, -, describes⟩ := (readTopLevelBox_eq_ok stated).mp read
  exact whole ▸ describes.size

theorem IsBox.boxAt {part : Bytes} (isBox : IsBox part) (offset : Nat) :
    (boxAt (offset, part)).offset = offset ∧ (boxAt (offset, part)).size = part.length ∧
      (boxAt (offset, part)).extendsToEof = false := by
  obtain ⟨box, read, whole, stated⟩ := isBox
  simp only [Package.boxAt, read]
  exact ⟨trivial, whole, stated⟩

/-- A complete box is read back where it is placed. -/
theorem IsBox.read {part : Bytes} (isBox : IsBox part) (before after : Bytes)
    (small : before.length + part.length ≤ kMaxStreamOffset) :
    readTopLevelBox (before ++ (part ++ after)) before.length =
      .ok (Package.boxAt (before.length, part)) := by
  obtain ⟨box, read, whole, stated⟩ := isBox
  have placed : readTopLevelBox (before ++ (part ++ after)) before.length =
      .ok { box with offset := before.length } := by
    refine (readTopLevelBox_part before part after small whole stated).mpr ?_
    obtain ⟨zero, -⟩ := (readTopLevelBox_eq_ok stated).mp read
    rw [read, ← zero]
  rw [placed]
  simp only [Package.boxAt, read]

/-- The bytes of a box with a stated size are a complete box. -/
theorem isBox_of_read {file : MediaFile} {offset : Nat} {box : TopLevelBox}
    (read : readTopLevelBox file.bytes offset = .ok box) (stated : box.extendsToEof = false) :
    offset + box.size ≤ file.bytes.length ∧ IsBox (slice file.bytes offset box.size) ∧
      boxAt (offset, slice file.bytes offset box.size) = box := by
  have accepted := (readTopLevelBox_eq_ok stated).mp read
  obtain ⟨isOffset, -, inside, -⟩ := accepted
  have bounded := file.size
  have whole : box.size = (slice file.bytes offset box.size).length :=
    (Lib.length_slice inside).symm
  have split : file.bytes = file.bytes.take offset ++
      (slice file.bytes offset box.size ++ file.bytes.drop (offset + box.size)) := by
    rw [slice, ← List.drop_drop, List.take_append_drop, List.take_append_drop]
  have start : (file.bytes.take offset).length = offset := by
    rw [List.length_take]
    omega
  have atStart : readTopLevelBox (slice file.bytes offset box.size) 0 =
      .ok { box with offset := 0 } := by
    refine (readTopLevelBox_part (file.bytes.take offset) _ (file.bytes.drop (offset + box.size))
      ?_ whole stated).mp ?_
    · rw [start, ← whole]
      omega
    · rw [← split, start, read, ← isOffset]
  refine ⟨inside, ⟨_, atStart, whole, stated⟩, ?_⟩
  simp only [boxAt, atStart]
  rw [← isOffset]

/-! ## Layouts -/

/-- The boxes of the parts laid end to end. -/
def layout (start : Nat) (parts : List Bytes) : List TopLevelBox := (placed start parts).map boxAt

theorem layout_append (start : Nat) (front back : List Bytes) :
    layout start (front ++ back) = layout start front ++ layout (start + front.flatten.length) back := by
  rw [layout, Lib.placed_append, List.map_append]
  rfl

/-- Scanning complete boxes laid end to end: a valid scan finds their layout. -/
theorem scanBoxes_parts (parts : List Bytes) : ∀ (before : Bytes) (fuel : Nat)
    (boxes : List TopLevelBox), (∀ part ∈ parts, IsBox part) →
    before.length + parts.flatten.length ≤ kMaxStreamOffset → parts.length < fuel →
    (scanBoxes (before ++ parts.flatten) fuel before.length boxes).valid = true →
    (scanBoxes (before ++ parts.flatten) fuel before.length boxes).boxes =
      boxes ++ layout before.length parts := by
  induction parts with
  | nil =>
    intro before fuel boxes _ _ enough _
    obtain ⟨fuel, rfl⟩ := Nat.exists_eq_succ_of_ne_zero (Nat.ne_of_gt enough)
    simp [scanBoxes, layout, placed]
  | cons part rest ih =>
    intro before fuel boxes complete small enough valid
    obtain ⟨fuel, rfl⟩ := Nat.exists_eq_succ_of_ne_zero (Nat.ne_of_gt (Nat.zero_lt_of_lt enough))
    have isBox := complete part List.mem_cons_self
    rw [List.flatten_cons, List.length_append] at small
    have large := isBox.size
    have more : ¬ (before ++ (part ++ rest.flatten)).length ≤ before.length := by
      rw [List.length_append, List.length_append]
      omega
    have read := isBox.read before rest.flatten (by omega)
    obtain ⟨-, size, stated⟩ := isBox.boxAt before.length
    have next := ih (before ++ part) fuel (boxes ++ [boxAt (before.length, part)])
      (fun other mem => complete other (List.mem_cons_of_mem _ mem))
      (by rw [List.length_append]; omega) (by simpa using enough)
    rw [List.append_assoc, List.length_append] at next
    rw [List.flatten_cons, scanBoxes, if_neg more, read] at valid ⊢
    simp only [stated, size, Bool.false_eq_true, if_false] at valid ⊢
    by_cases full : kMaximumTopLevelBoxes ≤ boxes.length
    · rw [if_pos full] at valid
      cases valid
    rw [if_neg full] at valid ⊢
    rw [next valid, List.append_assoc]
    rfl

theorem scan_parts {file : MediaFile} {parts : List Bytes} (complete : ∀ part ∈ parts, IsBox part)
    (same : file.bytes = parts.flatten) (valid : (scanTopLevelBoxes file).valid = true) :
    (scanTopLevelBoxes file).boxes = layout 0 parts := by
  have bounded := file.size
  have count : parts.length ≤ parts.flatten.length := by
    have each : ∀ length ∈ parts.map List.length, 1 ≤ length := by
      intro length mem
      obtain ⟨part, partMem, rfl⟩ := List.mem_map.mp mem
      exact le_trans (by decide) (complete part partMem).size
    have sum := List.length_le_sum_of_one_le _ each
    rwa [List.length_map, ← List.length_flatten] at sum
  rw [scanTopLevelBoxes, same] at valid ⊢
  have scanned := scanBoxes_parts parts [] (parts.flatten.length + 1) [] complete
    (by rw [List.length_nil, Nat.zero_add, ← same]; exact bounded) (by omega)
  exact scanned valid

/-- A valid scan that meets no size-zero box finds complete boxes laid end to end. -/
theorem parts_of_scanBoxes (file : MediaFile) : ∀ (fuel offset : Nat) (boxes : List TopLevelBox),
    offset ≤ file.bytes.length → (scanBoxes file.bytes fuel offset boxes).valid = true →
    (∀ box ∈ (scanBoxes file.bytes fuel offset boxes).boxes, box.extendsToEof = false) →
    ∃ parts : List Bytes, (∀ part ∈ parts, IsBox part) ∧
      file.bytes.drop offset = parts.flatten ∧
      (scanBoxes file.bytes fuel offset boxes).boxes = boxes ++ layout offset parts := by
  intro fuel
  induction fuel with
  | zero =>
    intro offset boxes _ valid _
    cases valid
  | succ fuel ih =>
    intro offset boxes within valid stated
    rw [scanBoxes] at valid stated ⊢
    by_cases done : file.bytes.length ≤ offset
    · rw [if_pos done]
      exact ⟨[], by simp, List.drop_eq_nil_of_le done, (List.append_nil _).symm⟩
    rw [if_neg done] at valid stated ⊢
    cases read : readTopLevelBox file.bytes offset with
    | error issue =>
      rw [read] at valid
      cases valid
    | ok box =>
      simp only [read] at valid stated ⊢
      by_cases full : kMaximumTopLevelBoxes ≤ boxes.length
      · rw [if_pos full] at valid
        cases valid
      rw [if_neg full] at valid stated ⊢
      by_cases eof : box.extendsToEof = true
      · rw [if_pos eof] at stated
        rw [stated box (by simp)] at eof
        cases eof
      rw [if_neg eof] at valid stated ⊢
      obtain ⟨inside, isBox, same⟩ := isBox_of_read read (Bool.eq_false_iff.mpr eof)
      obtain ⟨parts, complete, rest, found⟩ := ih _ _ inside valid stated
      refine ⟨slice file.bytes offset box.size :: parts, ?_, ?_, ?_⟩
      · exact List.forall_mem_cons.mpr ⟨isBox, complete⟩
      · rw [List.flatten_cons, ← rest, ← List.drop_drop, slice, List.take_append_drop]
      · rw [found, List.append_assoc]
        have length := Lib.length_slice (l := file.bytes) inside
        rw [layout, layout, placed, List.map_cons, same, length]
        rfl

theorem parts_of_scan {file : MediaFile} (valid : (scanTopLevelBoxes file).valid = true)
    (stated : ∀ box ∈ (scanTopLevelBoxes file).boxes, box.extendsToEof = false) :
    ∃ parts : List Bytes, (∀ part ∈ parts, IsBox part) ∧ file.bytes = parts.flatten ∧
      (scanTopLevelBoxes file).boxes = layout 0 parts :=
  parts_of_scanBoxes file _ 0 [] (Nat.zero_le _) valid stated

end Svp.Package
