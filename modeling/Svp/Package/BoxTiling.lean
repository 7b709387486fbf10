import Svp.Package.TopLevelBoxes

/-!
# What the top-level scan accepts

`IsTiling` says what a file made of boxes is without reading it box by box: the
parts of the file laid end to end, each one declaring its own length, and only the
last one leaving its length to the end of the file. The results:
* `readTopLevelBox_iff`: what one round of the scan accepts, in those terms.
* `tiling_of_scan` and `scan_of_tiling`: the valid scans are the tilings.
* `scanBoxes_ended`: every scan ends, the boxes it found stand end to end from the
  start of the file, and a scan that is not valid reports one issue.
-/

namespace Svp.Package

open Exec (Bytes)
open Lib (slice placed)

/-! ## Tilings -/

/-- How the first bytes of a box say how long it is: the length of the size and
type fields, and whether the size is left to the end of the file. -/
inductive StatesSize (part : Bytes) : Nat → Bool → Prop
  | compact (size : readBe32 part = part.length) : StatesSize part 8 false
  | extended (marker : readBe32 part = 1) (size : readBe64 (part.drop 8) = part.length) :
      StatesSize part 16 false
  | toEnd (marker : readBe32 part = 0) : StatesSize part 8 true

/-- The header of a `uuid` box has sixteen more bytes, its user type. -/
def headerLength (base : Nat) (type : Bytes) : Nat := if type = uuidType then base + 16 else base

/-- The part at an offset is `box`, going by what its own bytes declare. -/
structure Declares (placedPart : Nat × Bytes) (box : TopLevelBox) : Prop where
  offset : box.offset = placedPart.1
  size : box.size = placedPart.2.length
  type : box.type = slice placedPart.2 4 4
  header : ∃ base, StatesSize placedPart.2 base box.extendsToEof ∧
    box.headerSize = headerLength base box.type
  room : box.headerSize ≤ box.size

/-- The bytes from an offset on are the boxes, end to end. -/
def TilesFrom (start : Nat) (bytes : Bytes) (boxes : List TopLevelBox) : Prop :=
  ∃ parts : List Bytes, bytes = parts.flatten ∧ List.Forall₂ Declares (placed start parts) boxes ∧
    ∀ box ∈ boxes.dropLast, box.extendsToEof = false

/-- A file is exactly the boxes. -/
def IsTiling (bytes : Bytes) (boxes : List TopLevelBox) : Prop := TilesFrom 0 bytes boxes

/-- Boxes that stand end to end, each with room for its header. -/
def Contiguous : Nat → List TopLevelBox → Nat → Prop
  | start, [], stop => start = stop
  | start, box :: rest, stop =>
    box.offset = start ∧ 8 ≤ box.headerSize ∧ box.headerSize ≤ box.size ∧
      Contiguous (start + box.size) rest stop

theorem Contiguous.append {middle stop : Nat} {back : List TopLevelBox} :
    ∀ {start : Nat} {front : List TopLevelBox}, Contiguous start front middle →
      Contiguous middle back stop → Contiguous start (front ++ back) stop
  | _, [], first, second => by
    cases first
    exact second
  | _, _ :: _, ⟨isOffset, header, room, rest⟩, second =>
    ⟨isOffset, header, room, rest.append second⟩

theorem Contiguous.split {stop : Nat} {back : List TopLevelBox} :
    ∀ {start : Nat} {front : List TopLevelBox}, Contiguous start (front ++ back) stop →
      ∃ middle, Contiguous start front middle ∧ Contiguous middle back stop
  | start, [], contiguous => ⟨start, rfl, contiguous⟩
  | _, _ :: _, ⟨isOffset, header, room, contiguous⟩ => by
    obtain ⟨middle, first, second⟩ := contiguous.split
    exact ⟨middle, ⟨isOffset, header, room, first⟩, second⟩

/-- Every box of a run lies inside it. -/
theorem Contiguous.inside {box : TopLevelBox} : ∀ {start stop : Nat} {boxes : List TopLevelBox},
    Contiguous start boxes stop → box ∈ boxes → start ≤ box.offset ∧ box.offset + box.size ≤ stop
  | start, stop, first :: rest, ⟨isOffset, header, room, contiguous⟩, mem => by
    have ends : start + first.size ≤ stop := by
      cases rest with
      | nil => exact Nat.le_of_eq contiguous
      | cons next more =>
        have tail := contiguous.inside List.mem_cons_self
        exact le_trans tail.1 (le_trans (Nat.le_add_right _ _) tail.2)
    rcases List.mem_cons.mp mem with rfl | later
    · exact ⟨isOffset.ge, isOffset ▸ ends⟩
    · have tail := contiguous.inside later
      exact ⟨le_trans (Nat.le_add_right _ _) tail.1, tail.2⟩

theorem StatesSize.base {part : Bytes} {base : Nat} {toEof : Bool}
    (states : StatesSize part base toEof) : 8 ≤ base := by
  cases states <;> decide

theorem headerLength_ge (base : Nat) (type : Bytes) : base ≤ headerLength base type := by
  unfold headerLength
  split_ifs
  · exact Nat.le_add_right _ _
  · exact le_rfl

theorem Declares.headerSize {placedPart : Nat × Bytes} {box : TopLevelBox}
    (declares : Declares placedPart box) : 8 ≤ box.headerSize := by
  obtain ⟨base, states, header⟩ := declares.header
  rw [header]
  exact le_trans states.base (headerLength_ge _ _)

theorem Declares.length {placedPart : Nat × Bytes} {box : TopLevelBox}
    (declares : Declares placedPart box) : 8 ≤ placedPart.2.length :=
  declares.size ▸ le_trans declares.headerSize declares.room

theorem tilesFrom_nil {start : Nat} {bytes : Bytes} : TilesFrom start bytes [] ↔ bytes = [] := by
  constructor
  · rintro ⟨parts, rfl, declared, -⟩
    have none := declared.length_eq
    rw [Lib.length_placed] at none
    rw [List.length_eq_zero_iff.mp none]
    rfl
  · rintro rfl
    exact ⟨[], rfl, .nil, fun _ mem => nomatch mem⟩

/-- A tiling box by box: only a last box may be open. -/
theorem tilesFrom_cons {start : Nat} {bytes : Bytes} {box : TopLevelBox} {rest : List TopLevelBox} :
    TilesFrom start bytes (box :: rest) ↔ ∃ part after, bytes = part ++ after ∧
      Declares (start, part) box ∧ TilesFrom (start + part.length) after rest ∧
      (rest ≠ [] → box.extendsToEof = false) := by
  constructor
  · rintro ⟨parts, rfl, declared, closed⟩
    cases parts with
    | nil => cases declared
    | cons part parts =>
      obtain ⟨first, others⟩ := List.forall₂_cons.mp declared
      refine ⟨part, parts.flatten, rfl, first, ⟨parts, rfl, others, fun other mem => ?_⟩, fun more => ?_⟩
      · cases rest with
        | nil => cases mem
        | cons next rest => exact closed other (List.mem_cons_of_mem _ mem)
      · cases rest with
        | nil => exact absurd rfl more
        | cons next rest => exact closed box List.mem_cons_self
  · rintro ⟨part, after, rfl, first, ⟨parts, rfl, others, closed⟩, isClosed⟩
    refine ⟨part :: parts, rfl, .cons first others, fun other mem => ?_⟩
    cases rest with
    | nil => cases mem
    | cons next rest =>
      rcases List.mem_cons.mp mem with rfl | mem
      · exact isClosed (List.cons_ne_nil _ _)
      · exact closed other mem

/-- The boxes of a tiling stand end to end, from its start to its end. -/
theorem TilesFrom.contiguous : ∀ {boxes : List TopLevelBox} {start : Nat} {bytes : Bytes},
    TilesFrom start bytes boxes → Contiguous start boxes (start + bytes.length)
  | [], _, _, tiles => by
    rw [tilesFrom_nil.mp tiles]
    rfl
  | box :: rest, start, _, tiles => by
    obtain ⟨part, after, rfl, declares, others, -⟩ := tilesFrom_cons.mp tiles
    refine ⟨declares.offset, declares.headerSize, declares.room, ?_⟩
    have tail := others.contiguous
    rwa [declares.size, List.length_append, ← Nat.add_assoc]

/-! ## One round of the scan -/

theorem readBe32_slice {file : Bytes} {offset size : Nat} (room : 4 ≤ size) :
    readBe32 (slice file offset size) = readBe32 (file.drop offset) := by
  rw [readBe32, readBe32, slice, List.take_take, Nat.min_eq_left room]

theorem readBe64_slice {file : Bytes} {offset size : Nat} (room : 16 ≤ size) :
    readBe64 ((slice file offset size).drop 8) = readBe64 (file.drop (offset + 8)) := by
  rw [readBe64, readBe64, slice, List.drop_take, List.take_take, List.drop_drop,
    Nat.min_eq_left (Nat.le_sub_of_add_le room)]

theorem type_slice {file : Bytes} {offset size : Nat} (room : 8 ≤ size) :
    slice (slice file offset size) 4 4 = (slice file offset 8).drop 4 := by
  rw [Lib.slice_slice room, slice, slice, List.drop_take, List.drop_drop]

/-- A size of zero is the rest of the file. -/
theorem readBoxSize_toEof {file : Bytes} {offset compactSize size base : Nat} :
    readBoxSize file offset compactSize = .ok (size, base, true) ↔
      compactSize = 0 ∧ size = file.length - offset ∧ base = 8 := by
  constructor
  · intro sized
    unfold readBoxSize at sized
    split_ifs at sized with zero one small
    · cases sized
      exact ⟨zero, rfl, rfl⟩
    · dsimp only at sized
      split at sized
      · cases sized
      · split_ifs at sized
        cases sized
    · cases sized
  · rintro ⟨rfl, rfl, rfl⟩
    rfl

/-- The size field of a box is accepted exactly where the box states its size. -/
theorem readBoxSize_iff {file : MediaFile} {offset size base : Nat} {toEof : Bool}
    (inside : offset + size ≤ file.bytes.length) (room : 8 ≤ size) (fits : base ≤ size) :
    readBoxSize file.bytes offset (readBe32 (file.bytes.drop offset)) = .ok (size, base, toEof) ↔
      StatesSize (slice file.bytes offset size) base toEof ∧
        (toEof = true → offset + size = file.bytes.length) := by
  have length : (slice file.bytes offset size).length = size := Lib.length_slice inside
  have lead : readBe32 (slice file.bytes offset size) = readBe32 (file.bytes.drop offset) :=
    readBe32_slice (le_trans (by decide) room)
  cases toEof with
  | false =>
    rw [readBoxSize_eq_ok]
    constructor
    · rintro (⟨-, same, rfl⟩ | ⟨one, large, rfl, -, bytes, read, same⟩)
      · exact ⟨.compact (by rw [lead, length, same]), fun isEnd => nomatch isEnd⟩
      · obtain ⟨-, -, -, rfl⟩ := readExactAt_eq_some.mp read
        refine ⟨.extended (by rw [lead, one]) ?_, fun isEnd => nomatch isEnd⟩
        rw [length, readBe64_slice large, same, readBe64, readBe64, slice, List.take_take,
          Nat.min_self]
    · rintro ⟨states, -⟩
      cases states with
      | compact same =>
        rw [length, lead] at same
        exact .inl ⟨by rw [same]; exact room, same.symm, rfl⟩
      | extended marker same =>
        rw [length, readBe64_slice fits] at same
        rw [lead] at marker
        refine .inr ⟨marker, fits, rfl, by omega, _, readExactAt_of (by omega), ?_⟩
        rw [← same, readBe64, readBe64, slice, List.take_take, Nat.min_self]
  | true =>
    rw [readBoxSize_toEof]
    constructor
    · rintro ⟨zero, rest, rfl⟩
      exact ⟨.toEnd (by rw [lead, zero]), fun _ => by omega⟩
    · rintro ⟨states, isEnd⟩
      cases states with
      | toEnd marker => exact ⟨by rw [← lead, marker], by have := isEnd rfl; omega, rfl⟩

theorem readBoxSize_room {file : Bytes} {offset compactSize size base : Nat} {toEof : Bool}
    (remaining : 8 ≤ file.length - offset)
    (sized : readBoxSize file offset compactSize = .ok (size, base, toEof)) :
    8 ≤ base ∧ base ≤ size := by
  cases toEof with
  | false =>
    rcases readBoxSize_eq_ok.mp sized with ⟨large, rfl, rfl⟩ | ⟨-, large, rfl, -⟩
    · exact ⟨le_rfl, large⟩
    · exact ⟨by decide, large⟩
  | true =>
    obtain ⟨-, rfl, rfl⟩ := readBoxSize_toEof.mp sized
    exact ⟨le_rfl, remaining⟩

/-- A box once its size is known: it ends in the file and has room for its header. -/
theorem readTopLevelBox_sized {file : MediaFile} {offset : Nat} {box : TopLevelBox} :
    readTopLevelBox file.bytes offset = .ok box ↔
      8 ≤ file.bytes.length - offset ∧ ∃ base,
        readBoxSize file.bytes offset (readBe32 (file.bytes.drop offset)) =
          .ok (box.size, base, box.extendsToEof) ∧
        offset + box.size ≤ file.bytes.length ∧ box.offset = offset ∧
        box.type = (slice file.bytes offset 8).drop 4 ∧
        box.headerSize = headerLength base box.type ∧ box.headerSize ≤ box.size := by
  have bounded := file.size
  have limit : kMaxStreamOffset ≤ kMaxU64 := by decide
  rw [readTopLevelBox]
  by_cases short : file.bytes.length - offset < 8
  · simp only [if_pos short, reduceCtorEq, false_iff]
    exact fun accepted => absurd accepted.1 (not_le.mpr short)
  have remaining := not_lt.mp short
  rw [if_neg short, readExactAt_of (by omega)]
  dsimp only
  rw [readBe32_slice (by decide), Exec.bind_eq_ok]
  constructor
  · rintro ⟨⟨size, base, toEof⟩, sized, read⟩
    obtain ⟨large, fits⟩ := readBoxSize_room remaining sized
    refine ⟨remaining, base, ?_⟩
    dsimp only at read
    split at read
    · cases read
    next boxEnd added =>
    obtain ⟨-, rfl⟩ := (checkedAdd_eq_some (by omega)).mp added
    split_ifs at read with outside isUuid small
    · cases read
      refine ⟨sized, not_lt.mp outside, rfl, rfl, ?_, not_lt.mp small⟩
      rw [headerLength, if_pos isUuid]
    · cases read
      refine ⟨sized, not_lt.mp outside, rfl, rfl, ?_, fits⟩
      rw [headerLength, if_neg isUuid]
  · rintro ⟨-, base, sized, inside, rfl, type, header, room⟩
    obtain ⟨large, fits⟩ := readBoxSize_room remaining sized
    have added : checkedAdd box.offset box.size = some (box.offset + box.size) :=
      (checkedAdd_eq_some (by omega)).mpr ⟨by omega, rfl⟩
    refine ⟨_, sized, ?_⟩
    dsimp only
    rw [added]
    simp only [if_neg (not_lt.mpr inside), ← type]
    unfold headerLength at header
    by_cases isUuid : box.type = uuidType
    · rw [if_pos isUuid] at header
      rw [if_pos isUuid, if_neg (by omega), ← header]
    · rw [if_neg isUuid] at header
      rw [if_neg isUuid, ← header]

/-- What a round of the scan accepts: the bytes at the offset declare the box, it
ends inside the file, and at its end where the size is left open. -/
theorem readTopLevelBox_iff {file : MediaFile} {offset : Nat} {box : TopLevelBox} :
    readTopLevelBox file.bytes offset = .ok box ↔
      offset + box.size ≤ file.bytes.length ∧
        Declares (offset, slice file.bytes offset box.size) box ∧
        (box.extendsToEof = true → offset + box.size = file.bytes.length) := by
  rw [readTopLevelBox_sized]
  constructor
  · rintro ⟨remaining, base, sized, inside, isOffset, type, header, room⟩
    obtain ⟨large, fits⟩ := readBoxSize_room remaining sized
    have wide : 8 ≤ box.size := le_trans large fits
    obtain ⟨states, isEnd⟩ := (readBoxSize_iff inside wide fits).mp sized
    refine ⟨inside, ⟨isOffset, (Lib.length_slice inside).symm, ?_, ⟨base, states, header⟩, room⟩, isEnd⟩
    rw [type, type_slice wide]
  · rintro ⟨inside, declares, isEnd⟩
    have wide : 8 ≤ box.size := le_trans declares.headerSize declares.room
    obtain ⟨base, states, header⟩ := declares.header
    have fits : base ≤ box.size :=
      le_trans (headerLength_ge base box.type) (header ▸ declares.room)
    refine ⟨by omega, base, (readBoxSize_iff inside wide fits).mpr ⟨states, isEnd⟩, inside,
      declares.offset, ?_, header, declares.room⟩
    rw [declares.type, type_slice wide]

theorem readBoxSize_issue {file : Bytes} {offset compactSize : Nat} {issue : EmbeddedSvpiIssue}
    (read : readBoxSize file offset compactSize = .error issue) : issue.offset = offset := by
  unfold readBoxSize at read
  split_ifs at read with zero one small
  · dsimp only at read
    split at read
    · cases read
      rfl
    · split_ifs at read
      cases read
      rfl
  · cases read
    rfl

/-- A box that is refused is reported where it stands. -/
theorem readTopLevelBox_issue {file : Bytes} {offset : Nat} {issue : EmbeddedSvpiIssue}
    (read : readTopLevelBox file offset = .error issue) : issue.offset = offset := by
  rw [readTopLevelBox] at read
  split_ifs at read
  · cases read
    rfl
  split at read
  · cases read
    rfl
  next header _ =>
  cases sized : readBoxSize file offset (readBe32 header) with
  | error other =>
    rw [sized] at read
    cases read
    exact readBoxSize_issue sized
  | ok size =>
    simp only [sized, bind, Except.bind] at read
    split at read
    · cases read
      rfl
    · split_ifs at read <;> cases read <;> rfl

/-! ## The scan -/

/-- A scan that stopped by itself: its boxes stand end to end from the start of the
file to where it stopped, which is the end of the file or the place of its issue. -/
def TopLevelScan.Ended (scan : TopLevelScan) : Prop :=
  ∃ stop ≤ scan.fileSize, Contiguous 0 scan.boxes stop ∧
    ((scan.valid = true ∧ stop = scan.fileSize ∧ scan.issues = []) ∨
      (scan.valid = false ∧ ∃ issue, scan.issues = [issue] ∧ issue.offset = stop))

/-- Each round takes at least eight bytes, so fuel above the bytes left is enough. -/
theorem scanBoxes_ended (file : MediaFile) : ∀ (fuel offset : Nat) (boxes : List TopLevelBox),
    offset ≤ file.bytes.length → file.bytes.length - offset < fuel → Contiguous 0 boxes offset →
    (scanBoxes file.bytes fuel offset boxes).Ended := by
  intro fuel
  induction fuel with
  | zero => exact fun offset _ _ enough => absurd enough (Nat.not_lt_zero _)
  | succ fuel ih =>
    intro offset boxes within enough contiguous
    rw [scanBoxes]
    by_cases done : file.bytes.length ≤ offset
    · obtain rfl := le_antisymm within done
      rw [if_pos done]
      exact ⟨_, le_rfl, contiguous, .inl ⟨beq_self_eq_true _, rfl, rfl⟩⟩
    rw [if_neg done]
    cases read : readTopLevelBox file.bytes offset with
    | error issue =>
      exact ⟨offset, within, contiguous, .inr ⟨rfl, issue, rfl, readTopLevelBox_issue read⟩⟩
    | ok box =>
      obtain ⟨inside, declares, isEnd⟩ := readTopLevelBox_iff.mp read
      have longer : Contiguous 0 (boxes ++ [box]) (offset + box.size) :=
        contiguous.append ⟨declares.offset, declares.headerSize, declares.room, rfl⟩
      have wide : 8 ≤ box.size := le_trans declares.headerSize declares.room
      dsimp only
      by_cases full : kMaximumTopLevelBoxes ≤ boxes.length
      · rw [if_pos full]
        exact ⟨offset, within, contiguous, .inr ⟨rfl, _, rfl, rfl⟩⟩
      rw [if_neg full]
      by_cases isOpen : box.extendsToEof = true
      · rw [if_pos isOpen]
        exact ⟨offset + box.size, inside, longer,
          .inl ⟨beq_iff_eq.mpr (isEnd isOpen), isEnd isOpen, rfl⟩⟩
      · rw [if_neg isOpen]
        exact ih _ _ inside (by omega) longer

/-- A valid scan has found a tiling of what it scanned. -/
theorem tiling_of_scanBoxes (file : MediaFile) : ∀ (fuel offset : Nat) (boxes : List TopLevelBox),
    offset ≤ file.bytes.length → boxes.length ≤ kMaximumTopLevelBoxes →
    (scanBoxes file.bytes fuel offset boxes).valid = true →
    ∃ found, (scanBoxes file.bytes fuel offset boxes).boxes = boxes ++ found ∧
      (boxes ++ found).length ≤ kMaximumTopLevelBoxes ∧
      TilesFrom offset (file.bytes.drop offset) found := by
  intro fuel
  induction fuel with
  | zero => exact fun _ _ _ _ valid => nomatch valid
  | succ fuel ih =>
    intro offset boxes within bounded valid
    rw [scanBoxes] at valid ⊢
    by_cases done : file.bytes.length ≤ offset
    · rw [if_pos done]
      refine ⟨[], (List.append_nil _).symm, by rwa [List.append_nil], tilesFrom_nil.mpr ?_⟩
      exact List.drop_eq_nil_of_le done
    rw [if_neg done] at valid ⊢
    cases read : readTopLevelBox file.bytes offset with
    | error issue =>
      rw [read] at valid
      cases valid
    | ok box =>
      obtain ⟨inside, declares, isEnd⟩ := readTopLevelBox_iff.mp read
      have split : file.bytes.drop offset =
          slice file.bytes offset box.size ++ file.bytes.drop (offset + box.size) := by
        rw [slice, ← List.drop_drop, List.take_append_drop]
      have length : (slice file.bytes offset box.size).length = box.size := Lib.length_slice inside
      simp only [read] at valid ⊢
      by_cases full : kMaximumTopLevelBoxes ≤ boxes.length
      · rw [if_pos full] at valid
        cases valid
      rw [if_neg full] at valid ⊢
      have room : (boxes ++ [box]).length ≤ kMaximumTopLevelBoxes := by
        rw [List.length_append]
        exact not_le.mp full
      by_cases isOpen : box.extendsToEof = true
      · rw [if_pos isOpen]
        refine ⟨[box], rfl, room, tilesFrom_cons.mpr ⟨_, _, split, declares, tilesFrom_nil.mpr ?_, ?_⟩⟩
        · exact List.drop_eq_nil_of_le (isEnd isOpen).ge
        · exact fun more => absurd rfl more
      · rw [if_neg isOpen] at valid ⊢
        obtain ⟨found, same, count, tiles⟩ := ih _ _ inside room valid
        refine ⟨box :: found, ?_, ?_, tilesFrom_cons.mpr ⟨_, _, split, declares, ?_, fun _ => ?_⟩⟩
        · rw [same, List.append_assoc]
          rfl
        · rwa [List.append_assoc] at count
        · rwa [length]
        · exact Bool.eq_false_iff.mpr isOpen

/-- The first box of a tiling is what a round of the scan reads. -/
theorem TilesFrom.read {file : MediaFile} {offset : Nat} {box : TopLevelBox} {rest : List TopLevelBox}
    (tiles : TilesFrom offset (file.bytes.drop offset) (box :: rest)) :
    readTopLevelBox file.bytes offset = .ok box ∧
      TilesFrom (offset + box.size) (file.bytes.drop (offset + box.size)) rest ∧
      (box.extendsToEof = true → rest = []) := by
  obtain ⟨part, after, split, declares, others, closed⟩ := tilesFrom_cons.mp tiles
  have total := congrArg List.length split
  rw [List.length_drop, List.length_append] at total
  have wide : 8 ≤ part.length := declares.length
  have size : box.size = part.length := declares.size
  have inside : offset + box.size ≤ file.bytes.length := by omega
  have isPart : slice file.bytes offset box.size = part := by
    rw [slice, split, size, List.take_left]
  have behind : file.bytes.drop (offset + box.size) = after := by
    rw [← List.drop_drop, split, size, List.drop_left]
  have alone : box.extendsToEof = true → rest = [] := fun isOpen => by
    by_contra more
    rw [closed more] at isOpen
    cases isOpen
  refine ⟨readTopLevelBox_iff.mpr ⟨inside, isPart.symm ▸ declares, fun isOpen => ?_⟩, ?_, alone⟩
  · rw [alone isOpen, tilesFrom_nil] at others
    rw [others, List.length_nil] at total
    omega
  · rw [behind, size]
    exact others

theorem TilesFrom.ne_nil {start : Nat} {bytes : Bytes} {box : TopLevelBox} {rest : List TopLevelBox}
    (tiles : TilesFrom start bytes (box :: rest)) : bytes ≠ [] := by
  rintro rfl
  obtain ⟨part, after, split, declares, -⟩ := tilesFrom_cons.mp tiles
  have wide : 8 ≤ part.length := declares.length
  rw [(List.append_eq_nil_iff.mp split.symm).1] at wide
  cases wide

/-- A file is made of its boxes in one way only. -/
theorem TilesFrom.unique {file : MediaFile} : ∀ {boxes others : List TopLevelBox} {offset : Nat},
    TilesFrom offset (file.bytes.drop offset) boxes →
    TilesFrom offset (file.bytes.drop offset) others → boxes = others
  | [], [], _, _, _ => rfl
  | [], _ :: _, _, nothing, tiles => absurd (tilesFrom_nil.mp nothing) tiles.ne_nil
  | _ :: _, [], _, tiles, nothing => absurd (tilesFrom_nil.mp nothing) tiles.ne_nil
  | _ :: _, _ :: _, _, tiles, tiles' => by
    obtain ⟨read, rest, -⟩ := tiles.read
    obtain ⟨read', rest', -⟩ := tiles'.read
    rw [read] at read'
    cases read'
    rw [rest.unique rest']

/-- Scanning a tiling finds its boxes. -/
theorem scanBoxes_of_tiling (file : MediaFile) : ∀ (found : List TopLevelBox)
    (fuel offset : Nat) (boxes : List TopLevelBox), offset ≤ file.bytes.length →
    file.bytes.length - offset < fuel → (boxes ++ found).length ≤ kMaximumTopLevelBoxes →
    TilesFrom offset (file.bytes.drop offset) found →
    scanBoxes file.bytes fuel offset boxes =
      { fileSize := file.bytes.length, valid := true, boxes := boxes ++ found, issues := [] } := by
  intro found
  induction found with
  | nil =>
    intro fuel offset boxes within enough _ tiles
    obtain ⟨fuel, rfl⟩ := Nat.exists_eq_succ_of_ne_zero (Nat.ne_zero_of_lt enough)
    have done := List.drop_eq_nil_iff.mp (tilesFrom_nil.mp tiles)
    obtain rfl := le_antisymm within done
    rw [scanBoxes, if_pos done, List.append_nil, beq_self_eq_true]
  | cons box found ih =>
    intro fuel offset boxes within enough count tiles
    obtain ⟨fuel, rfl⟩ := Nat.exists_eq_succ_of_ne_zero (Nat.ne_zero_of_lt enough)
    obtain ⟨read, others, alone⟩ := tiles.read
    obtain ⟨inside, declares, isEnd⟩ := readTopLevelBox_iff.mp read
    have wide : 8 ≤ box.size := le_trans declares.headerSize declares.room
    rw [List.length_append, List.length_cons] at count
    rw [scanBoxes, if_neg (by omega), read]
    dsimp only
    rw [if_neg (by omega)]
    by_cases isOpen : box.extendsToEof = true
    · rw [if_pos isOpen, isEnd isOpen, alone isOpen, beq_self_eq_true]
    · rw [if_neg isOpen, ih fuel _ (boxes ++ [box]) inside (by omega) _ others]
      · rw [List.append_assoc]
        rfl
      · rw [List.length_append, List.length_append, List.length_singleton]
        omega

theorem tiling_of_scan {file : MediaFile} (valid : (scanTopLevelBoxes file).valid = true) :
    (scanTopLevelBoxes file).boxes.length ≤ kMaximumTopLevelBoxes ∧
      IsTiling file.bytes (scanTopLevelBoxes file).boxes := by
  obtain ⟨found, same, count, tiles⟩ :=
    tiling_of_scanBoxes file _ 0 [] (Nat.zero_le _) (Nat.zero_le _) valid
  rw [List.nil_append] at same count
  rw [scanTopLevelBoxes, same]
  exact ⟨count, tiles⟩

theorem scan_of_tiling {file : MediaFile} {boxes : List TopLevelBox}
    (count : boxes.length ≤ kMaximumTopLevelBoxes) (tiles : IsTiling file.bytes boxes) {fuel : Nat}
    (enough : file.bytes.length < fuel) : scanBoxes file.bytes fuel 0 [] =
      { fileSize := file.bytes.length, valid := true, boxes, issues := [] } :=
  scanBoxes_of_tiling file boxes fuel 0 [] (Nat.zero_le _) enough count tiles

/-- How much fuel there is does not matter once it is above the bytes left. -/
theorem scanBoxes_fuel (file : MediaFile) : ∀ (fuel more offset : Nat) (boxes : List TopLevelBox),
    file.bytes.length - offset < fuel → fuel ≤ more →
    scanBoxes file.bytes more offset boxes = scanBoxes file.bytes fuel offset boxes := by
  intro fuel
  induction fuel with
  | zero => exact fun _ _ _ enough => absurd enough (Nat.not_lt_zero _)
  | succ fuel ih =>
    intro more offset boxes enough le
    obtain ⟨more, rfl⟩ := Nat.exists_eq_succ_of_ne_zero (Nat.ne_zero_of_lt le)
    rw [scanBoxes, scanBoxes]
    by_cases done : file.bytes.length ≤ offset
    · rw [if_pos done, if_pos done]
    rw [if_neg done, if_neg done]
    cases read : readTopLevelBox file.bytes offset with
    | error issue => rfl
    | ok box =>
      obtain ⟨inside, declares, -⟩ := readTopLevelBox_iff.mp read
      have wide : 8 ≤ box.size := le_trans declares.headerSize declares.room
      dsimp only
      rw [ih more (offset + box.size) (boxes ++ [box]) (by omega) (Nat.le_of_succ_le_succ le)]

theorem scanTopLevelBoxes_ended (file : MediaFile) : (scanTopLevelBoxes file).Ended :=
  scanBoxes_ended file _ 0 [] (Nat.zero_le _) (Nat.lt_succ_self _) rfl

/-- The scan accepts exactly the tilings, and it always ends: with the tiling, or
with one issue at the end of the boxes it has found. -/
theorem scanTopLevelBoxes_tilings (file : MediaFile) :
    (∀ boxes, (scanTopLevelBoxes file).valid = true ∧ (scanTopLevelBoxes file).boxes = boxes ↔
      boxes.length ≤ kMaximumTopLevelBoxes ∧ IsTiling file.bytes boxes) ∧
    (∀ boxes, IsTiling file.bytes boxes → Contiguous 0 boxes file.bytes.length) ∧
    (∀ box ∈ (scanTopLevelBoxes file).boxes,
      checkedAdd box.offset box.size = some (box.offset + box.size) ∧
        box.offset + box.size ≤ file.bytes.length) ∧
    (scanTopLevelBoxes file).Ended ∧
    ∀ fuel, file.bytes.length < fuel → scanBoxes file.bytes fuel 0 [] = scanTopLevelBoxes file := by
  refine ⟨fun boxes => ⟨?_, ?_⟩, fun boxes tiles => ?_, fun box mem => ?_, scanTopLevelBoxes_ended file,
    fun fuel enough => scanBoxes_fuel file _ fuel 0 [] (Nat.lt_succ_self _) enough⟩
  · rintro ⟨valid, rfl⟩
    exact tiling_of_scan valid
  · rintro ⟨count, tiles⟩
    have scanned := scan_of_tiling count tiles (Nat.lt_succ_self _)
    rw [scanTopLevelBoxes, scanned]
    exact ⟨rfl, rfl⟩
  · have contiguous := TilesFrom.contiguous tiles
    rwa [Nat.zero_add] at contiguous
  · obtain ⟨stop, within, contiguous, -⟩ := scanTopLevelBoxes_ended file
    rw [fileSize_scan] at within
    have inside := (contiguous.inside mem).2
    have small : kMaxStreamOffset ≤ kMaxU64 := by decide
    have bounded := file.size
    have exact_ : ¬ kMaxU64 - box.offset < box.size := by omega
    exact ⟨by rw [checkedAdd, if_neg exact_], le_trans inside within⟩

end Svp.Package
