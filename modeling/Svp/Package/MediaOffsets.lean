import Svp.Package.BoxTiling
import Svp.Package.EmbeddedRoundTrip

/-!
# What embedding edits do to media offsets

Stripping and replacing write the retained boxes one behind the other. A box is
where it was exactly if no embedding stood before it, so the edits keep the media
in place (`KeepsMedia`) on the containers whose embeddings are followed by nothing
but a terminal `mfra` (`EmbeddingsLast`), and on no others.

The argument is about lists of boxes end to end: `relocate` says where the copies
stand, and `kept_relocate_iff` compares the two places.
-/

namespace Svp.Package

open Exec (Bytes Blake3Digest utf8)
open Lib (slice placed bigEndian)

/-! ## Media boxes -/

/-- The box carries an embedded package. -/
def isSvpiBox (file : Bytes) (box : TopLevelBox) : Bool :=
  box.type == uuidType &&
    readExactAt file (box.offset + box.headerSize - 16) 16 == some kEmbeddedSvpiTransportUuid

/-- The bytes of a box. -/
def boxBytes (file : Bytes) (box : TopLevelBox) : Bytes := slice file box.offset box.size

/-- The boxes an edit retains. -/
def mediaBoxes (file : MediaFile) : List TopLevelBox :=
  (scanTopLevelBoxes file).boxes.filter fun box => !isSvpiBox file.bytes box

/-- The box is the last of the media and an `mfra`. -/
def IsTerminalMfra (file : MediaFile) (box : TopLevelBox) : Prop :=
  (mediaBoxes file).getLast? = some box ∧ box.type = mfraType

/-- The retained boxes are in the output with their bytes, in their order and, the
terminal `mfra` apart, where they were. -/
def KeepsMedia (container output : MediaFile) : Prop :=
  (scanTopLevelBoxes output).valid = true ∧
    List.Forall₂ (fun box copy =>
        boxBytes output.bytes copy = boxBytes container.bytes box ∧
          (copy.offset = box.offset ∨ IsTerminalMfra container box))
      (mediaBoxes container) (mediaBoxes output)

/-- No media but a terminal `mfra` stands behind an embedding. -/
def EmbeddingsLast (file : MediaFile) : Prop :=
  ∀ front box back, (scanTopLevelBoxes file).boxes = front ++ box :: back →
    isSvpiBox file.bytes box = false → (∃ other ∈ front, isSvpiBox file.bytes other = true) →
    IsTerminalMfra file box

/-! ## Boxes end to end -/

section Pairs

variable {α β : Type*} {R P Q : α → β → Prop}

theorem forall₂_append_iff {front back : List α} {front' back' : List β}
    (same : front.length = front'.length) :
    List.Forall₂ R (front ++ back) (front' ++ back') ↔
      List.Forall₂ R front front' ∧ List.Forall₂ R back back' := by
  induction front generalizing front' with
  | nil =>
    rw [List.length_eq_zero_iff.mp same.symm]
    exact ⟨fun pairs => ⟨.nil, pairs⟩, And.right⟩
  | cons first rest ih =>
    cases front' with
    | nil => cases same
    | cons first' rest' =>
      rw [List.cons_append, List.cons_append, List.forall₂_cons, List.forall₂_cons,
        ih (Nat.succ.inj same), and_assoc]

/-- A relation that holds of all pairs can be left out. -/
theorem forall₂_with {l : List α} {m : List β} (all : List.Forall₂ R l m)
    (imp : ∀ a b, R a b → P a b) :
    List.Forall₂ (fun a b => P a b ∧ Q a b) l m ↔ List.Forall₂ Q l m := by
  induction all with
  | nil => exact ⟨fun _ => .nil, fun _ => .nil⟩
  | cons first _ ih => rw [List.forall₂_cons, List.forall₂_cons, ih, and_iff_right (imp _ _ first)]

theorem forall₂_of_mem_left {p : α → Prop} {l : List α} {m : List β} (all : ∀ a ∈ l, p a)
    (same : l.length = m.length) : List.Forall₂ (fun a _ => p a) l m := by
  induction l generalizing m with
  | nil =>
    rw [List.length_eq_zero_iff.mp same.symm]
    exact .nil
  | cons first rest ih =>
    cases m with
    | nil => cases same
    | cons first' rest' =>
      obtain ⟨head, tail⟩ := List.forall_mem_cons.mp all
      exact .cons head (ih tail (Nat.succ.inj same))

end Pairs

/-- The boxes laid end to end from an offset on. -/
def relocate (start : Nat) : List TopLevelBox → List TopLevelBox
  | [] => []
  | box :: rest => { box with offset := start } :: relocate (start + box.size) rest

/-- How far boxes reach. -/
def extent (boxes : List TopLevelBox) : Nat := (boxes.map TopLevelBox.size).sum

theorem relocate_append (start : Nat) (front back : List TopLevelBox) :
    relocate start (front ++ back) =
      relocate start front ++ relocate (start + extent front) back := by
  induction front generalizing start with
  | nil => rfl
  | cons box rest ih =>
    rw [List.cons_append, relocate, relocate, ih, List.cons_append, extent, extent, List.map_cons,
      List.sum_cons, Nat.add_assoc]

theorem length_relocate (start : Nat) (boxes : List TopLevelBox) :
    (relocate start boxes).length = boxes.length := by
  induction boxes generalizing start with
  | nil => rfl
  | cons box rest ih => rw [relocate, List.length_cons, List.length_cons, ih]

/-- A relocated box is one of the boxes somewhere else. -/
theorem mem_relocate {box : TopLevelBox} : ∀ {start : Nat} {boxes : List TopLevelBox},
    box ∈ relocate start boxes → ∃ other ∈ boxes, box = { other with offset := box.offset }
  | _, first :: rest, mem => by
    rcases List.mem_cons.mp mem with rfl | mem
    · exact ⟨first, List.mem_cons_self, rfl⟩
    · obtain ⟨other, otherMem, same⟩ := mem_relocate mem
      exact ⟨other, List.mem_cons_of_mem _ otherMem, same⟩

/-- Boxes end to end with an offset in common are the same box. -/
theorem Contiguous.offset_inj {box other : TopLevelBox} :
    ∀ {start stop : Nat} {boxes : List TopLevelBox}, Contiguous start boxes stop → box ∈ boxes →
      other ∈ boxes → box.offset = other.offset → box = other
  | start, stop, first :: rest, ⟨isOffset, header, room, contiguous⟩, mem, otherMem, same => by
    have later : ∀ next ∈ rest, first.offset < next.offset := fun next nextMem => by
      have := (contiguous.inside nextMem).1
      omega
    rcases List.mem_cons.mp mem with isFirst | mem
    · rcases List.mem_cons.mp otherMem with isFirst' | otherMem
      · rw [isFirst, isFirst']
      · rw [isFirst] at same
        exact absurd same (Nat.ne_of_lt (later _ otherMem))
    · rcases List.mem_cons.mp otherMem with isFirst | otherMem
      · rw [isFirst] at same
        exact absurd same (Nat.ne_of_gt (later _ mem))
      · exact contiguous.offset_inj mem otherMem same

section Kept

variable {keep : TopLevelBox → Bool} {Exempt : TopLevelBox → Prop}

/-- A copy that is exempt or where the box was. -/
def Stays (Exempt : TopLevelBox → Prop) (box copy : TopLevelBox) : Prop :=
  copy.offset = box.offset ∨ Exempt box

/-- Boxes copied in front of where they were have all moved. -/
theorem stays_moved : ∀ {boxes : List TopLevelBox} {start stop target : Nat},
    Contiguous start boxes stop → target < start →
    (List.Forall₂ (Stays Exempt) (boxes.filter keep) (relocate target (boxes.filter keep)) ↔
      ∀ box ∈ boxes, keep box = true → Exempt box)
  | [], _, _, _, _, _ => by simp [relocate]
  | first :: rest, start, stop, target, ⟨isOffset, header, room, contiguous⟩, before => by
    rw [List.forall_mem_cons]
    by_cases kept : keep first = true
    · rw [List.filter_cons_of_pos kept, relocate, List.forall₂_cons,
        stays_moved contiguous (Nat.add_lt_add_right before _)]
      refine and_congr_left fun _ => ⟨fun stays _ => ?_, fun exempt => .inr (exempt kept)⟩
      exact stays.resolve_left (Nat.ne_of_lt (isOffset ▸ before))
    · rw [List.filter_cons_of_neg kept,
        stays_moved contiguous (Nat.lt_of_lt_of_le before (Nat.le_add_right _ _))]
      exact ⟨fun rest => ⟨fun yes => absurd yes kept, rest⟩, And.right⟩

/-- The retained boxes of a run, laid end to end from its start: those behind a box
that is left out have moved. -/
theorem stays_iff : ∀ {boxes : List TopLevelBox} {start stop : Nat}, Contiguous start boxes stop →
    (List.Forall₂ (Stays Exempt) (boxes.filter keep) (relocate start (boxes.filter keep)) ↔
      ∀ front box back, boxes = front ++ box :: back → keep box = true →
        (∃ other ∈ front, keep other = false) → Exempt box)
  | [], _, _, _ => by simp [relocate]
  | first :: rest, start, stop, ⟨isOffset, header, room, contiguous⟩ => by
    by_cases kept : keep first = true
    · rw [List.filter_cons_of_pos kept, relocate, List.forall₂_cons, stays_iff contiguous]
      constructor
      · rintro ⟨-, stays⟩ (- | ⟨_, front⟩) box back split keepBox ⟨other, mem, left⟩
        · cases mem
        · obtain ⟨rfl, tail⟩ := List.cons.inj split
          rcases List.mem_cons.mp mem with rfl | mem
          · rw [kept] at left
            cases left
          · exact stays front box back tail keepBox ⟨other, mem, left⟩
      · refine fun stays => ⟨.inl isOffset.symm, fun front box back split keepBox left => ?_⟩
        obtain ⟨other, mem, left⟩ := left
        exact stays (first :: front) box back (by rw [split]; rfl) keepBox
          ⟨other, List.mem_cons_of_mem _ mem, left⟩
    · rw [List.filter_cons_of_neg kept, stays_moved contiguous (by omega)]
      constructor
      · rintro stays (- | ⟨_, front⟩) box back split keepBox ⟨other, mem, left⟩
        · cases mem
        · obtain ⟨rfl, rfl⟩ := List.cons.inj split
          exact stays box (by simp) keepBox
      · intro stays box mem keepBox
        obtain ⟨front, back, split⟩ := List.append_of_mem mem
        exact stays (first :: front) box back (by rw [split]; rfl) keepBox
          ⟨first, List.mem_cons_self, Bool.eq_false_iff.mpr kept⟩

end Kept

/-! ## Boxes of a scanned file -/

/-- The boxes of a valid scan are boxes of the file, and only the last may be open. -/
structure Scanned (file : MediaFile) : Prop where
  contiguous : Contiguous 0 (scanTopLevelBoxes file).boxes file.bytes.length
  declares : ∀ box ∈ (scanTopLevelBoxes file).boxes,
    Declares (box.offset, boxBytes file.bytes box) box
  closed : ∀ box ∈ (scanTopLevelBoxes file).boxes.dropLast, box.extendsToEof = false
  count : (scanTopLevelBoxes file).boxes.length ≤ kMaximumTopLevelBoxes

theorem TilesFrom.declares {file : MediaFile} {box : TopLevelBox} : ∀ {boxes : List TopLevelBox}
    {offset : Nat}, TilesFrom offset (file.bytes.drop offset) boxes → box ∈ boxes →
    Declares (box.offset, boxBytes file.bytes box) box
  | first :: rest, offset, tiles, mem => by
    obtain ⟨read, others, -⟩ := tiles.read
    rcases List.mem_cons.mp mem with rfl | mem
    · obtain ⟨-, declares, -⟩ := readTopLevelBox_iff.mp read
      have isOffset : box.offset = offset := declares.offset
      rw [boxBytes, isOffset]
      exact declares
    · exact others.declares mem

theorem scanned_of_valid {file : MediaFile} (valid : (scanTopLevelBoxes file).valid = true) :
    Scanned file := by
  obtain ⟨count, tiles⟩ := tiling_of_scan valid
  have contiguous := TilesFrom.contiguous tiles
  rw [Nat.zero_add] at contiguous
  obtain ⟨-, -, -, closed⟩ := id tiles
  exact ⟨contiguous, fun box mem => TilesFrom.declares tiles mem, closed, count⟩

/-- The bytes of a box that carries a package, told from the box alone. -/
def carriesSvpi (part : Bytes) (box : TopLevelBox) : Bool :=
  box.type == uuidType && slice part (box.headerSize - 16) 16 == kEmbeddedSvpiTransportUuid

theorem Declares.uuidHeader {placedPart : Nat × Bytes} {box : TopLevelBox}
    (declares : Declares placedPart box) (uuid : box.type = uuidType) : 24 ≤ box.headerSize := by
  obtain ⟨base, states, header⟩ := declares.header
  rw [header, headerLength, if_pos uuid]
  exact Nat.add_le_add_right states.base 16

/-- Where a box stands, its own bytes say whether it carries a package. -/
theorem isSvpiBox_of_part {file : MediaFile} {box : TopLevelBox} {part : Bytes}
    (declares : Declares (box.offset, part) box)
    (inside : box.offset + box.size ≤ file.bytes.length) (bytes : boxBytes file.bytes box = part) :
    isSvpiBox file.bytes box = carriesSvpi part box := by
  unfold isSvpiBox carriesSvpi
  by_cases uuid : box.type = uuidType
  · have large := declares.uuidHeader uuid
    have room := declares.room
    have uuidOffset : box.offset + box.headerSize - 16 = box.offset + (box.headerSize - 16) :=
      Nat.add_sub_assoc (le_trans (by decide) large) _
    rw [uuidOffset, readExactAt_of (by omega), ← bytes, boxBytes, Lib.slice_slice (by omega)]
    rfl
  · rw [beq_eq_false_iff_ne.mpr uuid, Bool.false_and, Bool.false_and]

theorem mem_embeddingPlaces {file : Bytes} {boxes : List TopLevelBox} {place : Nat × Nat}
    (reads : ∀ box ∈ boxes, box.type = uuidType →
      ∃ uuid, readExactAt file (box.offset + box.headerSize - 16) 16 = some uuid) :
    place ∈ (((boxes.filter fun box => box.type == uuidType).map (parseEnvelope file)).filterMap
        Prod.snd).map EmbeddedSvpiInfo.place ↔
      ∃ box ∈ boxes, isSvpiBox file box = true ∧ (box.offset, box.size) = place := by
  constructor
  · intro mem
    obtain ⟨info, infoMem, rfl⟩ := List.mem_map.mp mem
    obtain ⟨parsed, parsedMem, found⟩ := List.mem_filterMap.mp infoMem
    obtain ⟨box, boxMem, rfl⟩ := List.mem_map.mp parsedMem
    obtain ⟨inBoxes, isUuid⟩ := List.mem_filter.mp boxMem
    obtain ⟨uuid, read⟩ := reads box inBoxes (beq_iff_eq.mp isUuid)
    have placed := parseEnvelope_uuid read
    rw [found, Option.map_some] at placed
    split_ifs at placed with transport
    refine ⟨box, inBoxes, ?_, (Option.some.inj placed).symm⟩
    rw [isSvpiBox, isUuid, read, transport]
    rfl
  · rintro ⟨box, inBoxes, svpi, rfl⟩
    rw [isSvpiBox, Bool.and_eq_true, beq_iff_eq, beq_iff_eq] at svpi
    have placed := parseEnvelope_uuid svpi.2
    rw [if_pos rfl] at placed
    obtain ⟨info, found, same⟩ := Option.map_eq_some_iff.mp placed
    refine List.mem_map.mpr ⟨info, List.mem_filterMap.mpr ⟨_, List.mem_map.mpr ⟨box, ?_, rfl⟩, found⟩,
      same⟩
    exact List.mem_filter.mpr ⟨inBoxes, beq_iff_eq.mpr svpi.1⟩

/-- What an inspection calls an embedding is a box that carries a package. -/
theorem isEmbeddingBox_eq {blake3 : Bytes → Blake3Digest} {file : MediaFile} {verify : Bool}
    (sound : (inspectEmbeddedSvpi blake3 file verify).containerStructureValid = true)
    (supported : (inspectEmbeddedSvpi blake3 file verify).container.supported = true)
    {box : TopLevelBox} (mem : box ∈ (scanTopLevelBoxes file).boxes) :
    isEmbeddingBox (inspectEmbeddedSvpi blake3 file verify).embeddings box =
      isSvpiBox file.bytes box := by
  obtain ⟨valid, -⟩ := inspect_embeddings blake3 sound supported
  have scanned := scanned_of_valid valid
  have reads : ∀ other ∈ (scanTopLevelBoxes file).boxes, other.type = uuidType →
      ∃ uuid, readExactAt file.bytes (other.offset + other.headerSize - 16) 16 = some uuid := by
    intro other otherMem uuid
    have declares := scanned.declares other otherMem
    have large := declares.uuidHeader uuid
    have room := declares.room
    have inside := (scanned.contiguous.inside otherMem).2
    exact ⟨_, readExactAt_of (by omega)⟩
  rw [Bool.eq_iff_iff, isEmbeddingBox_iff, inspect_places blake3 sound supported, foundEmbeddings,
    mem_embeddingPlaces reads]
  constructor
  · rintro ⟨other, otherMem, svpi, same⟩
    rwa [scanned.contiguous.offset_inj mem otherMem (Prod.mk.inj same).1.symm]
  · exact fun svpi => ⟨box, mem, svpi, rfl⟩

/-! ## What the copying loop writes -/

section Copy

variable {file : MediaFile} {embeddings : List EmbeddedSvpiInfo} {insertionOffset limit : Nat}
  {svpi : Option (Bytes × Blake3Digest)}

theorem readRange_inside {box : TopLevelBox} (inside : box.offset + box.size ≤ file.bytes.length) :
    readRange file.bytes box.offset box.size = some (boxBytes file.bytes box) := by
  have bounded := file.size
  rw [readRange, if_neg (by omega), if_pos (.inr inside), boxBytes]

/-- A run of boxes away from the insertion offset: the embeddings are left out. -/
theorem copyBoxes_retained {rest : List TopLevelBox} {inserted : Bool} (run : List TopLevelBox) :
    ∀ output : Bytes, (∀ box ∈ run, box.offset + box.size ≤ file.bytes.length ∧
      (svpi = none ∨ box.offset ≠ insertionOffset)) →
    copyBoxes file.bytes embeddings insertionOffset svpi limit (run ++ rest) inserted output =
      copyBoxes file.bytes embeddings insertionOffset svpi limit rest inserted
        (output ++ (run.filter fun box => !isEmbeddingBox embeddings box).flatMap
          (boxBytes file.bytes)) := by
  induction run with
  | nil => exact fun output _ => by rw [List.filter_nil, List.flatMap_nil, List.append_nil]; rfl
  | cons box run ih =>
    intro output ok
    obtain ⟨⟨inside, quiet⟩, others⟩ := List.forall_mem_cons.mp ok
    rw [List.cons_append]
    cases embedded : isEmbeddingBox embeddings box with
    | true =>
      rw [copyBoxes_removed embedded quiet, ih output others,
        List.filter_cons_of_neg (by rw [embedded]; simp)]
    | false =>
      rw [copyBoxes_kept embedded (quiet.imp_right .inr) (readRange_inside inside),
        ih _ others, List.filter_cons_of_pos (by rw [embedded]; rfl), List.flatMap_cons,
        List.append_assoc]

/-- All boxes, where none stands at the insertion offset. -/
theorem copyBoxes_whole {inserted : Bool} {run : List TopLevelBox} {output : Bytes}
    (ok : ∀ box ∈ run, box.offset + box.size ≤ file.bytes.length ∧
      (svpi = none ∨ box.offset ≠ insertionOffset)) :
    copyBoxes file.bytes embeddings insertionOffset svpi limit run inserted output =
      some (inserted, output ++ (run.filter fun box => !isEmbeddingBox embeddings box).flatMap
        (boxBytes file.bytes)) := by
  have copied := @copyBoxes_retained file embeddings insertionOffset limit svpi [] inserted run output ok
  rwa [List.append_nil] at copied

end Copy

/-! ## Copies in an output -/

/-- The boxes of a list that carry no package. -/
def retained (file : MediaFile) (boxes : List TopLevelBox) : List TopLevelBox :=
  boxes.filter fun box => !isSvpiBox file.bytes box

/-- A box of the output with the bytes of one of the container, carrying no package. -/
def CopyOf (container output : MediaFile) (box copy : TopLevelBox) : Prop :=
  boxBytes output.bytes copy = boxBytes container.bytes box ∧ isSvpiBox output.bytes copy = false

theorem Declares.relocate {offset target : Nat} {part : Bytes} {box : TopLevelBox}
    (declares : Declares (offset, part) box) :
    Declares (target, part) { box with offset := target } :=
  ⟨rfl, declares.size, declares.type, declares.header, declares.room⟩

/-- Parts laid end to end declare the relocated boxes. -/
theorem declares_relocate {parts : List Bytes} {boxes : List TopLevelBox}
    (declared : List.Forall₂ (fun part box => Declares (box.offset, part) box) parts boxes) :
    ∀ start, List.Forall₂ Declares (placed start parts) (relocate start boxes) := by
  induction declared with
  | nil => exact fun _ => .nil
  | cons first _ ih =>
    intro start
    refine .cons first.relocate ?_
    rw [show _ = _ from first.size]
    exact ih _

/-- The copies of boxes that carry no package, where their bytes stand in the output. -/
theorem copies_of_parts {container output : MediaFile} {after : Bytes} :
    ∀ {boxes : List TopLevelBox} {before : Bytes},
    (∀ box ∈ boxes, Declares (box.offset, boxBytes container.bytes box) box ∧
      box.offset + box.size ≤ container.bytes.length ∧ isSvpiBox container.bytes box = false) →
    output.bytes = before ++ (boxes.flatMap (boxBytes container.bytes) ++ after) →
    List.Forall₂ (CopyOf container output) boxes (relocate before.length boxes)
  | [], _, _, _ => .nil
  | box :: rest, before, ok, same => by
    obtain ⟨⟨declares, inside, plain⟩, others⟩ := List.forall_mem_cons.mp ok
    have size : box.size = (boxBytes container.bytes box).length := declares.size
    rw [List.flatMap_cons, List.append_assoc] at same
    have bytes : boxBytes output.bytes { box with offset := before.length } =
        boxBytes container.bytes box := by
      show slice output.bytes before.length box.size = _
      rw [same, size]
      exact Lib.slice_whole before (boxBytes container.bytes box) _
    have fits : before.length + box.size ≤ output.bytes.length := by
      rw [same, List.length_append, List.length_append, ← size]
      omega
    refine .cons ⟨bytes, ?_⟩ ?_
    · rw [isSvpiBox_of_part declares.relocate fits bytes]
      rwa [isSvpiBox_of_part declares inside rfl] at plain
    · have tail := @copies_of_parts container output after rest
        (before ++ boxBytes container.bytes box) others (by rw [same, List.append_assoc])
      rwa [List.length_append, ← size] at tail

theorem retained_append (file : MediaFile) (front back : List TopLevelBox) :
    retained file (front ++ back) = retained file front ++ retained file back :=
  List.filter_append ..

/-- Copies are not left out of the media of the output. -/
theorem retained_copies {container output : MediaFile} {boxes copies : List TopLevelBox}
    (copied : List.Forall₂ (CopyOf container output) boxes copies) :
    retained output copies = copies := by
  induction copied with
  | nil => rfl
  | cons first _ ih =>
    rw [retained, List.filter_cons_of_pos (by rw [first.2]; rfl)]
    exact congrArg _ ih

/-- An edit that lays the retained boxes of `front` end to end, then new embeddings,
then boxes of `back`, keeps the media in place exactly where it stood in front of
the embeddings. -/
theorem keepsMedia_of_copies {container output : MediaFile} {front back new : List TopLevelBox}
    {target stop : Nat} (contiguous : Contiguous 0 front stop)
    (scanned : (scanTopLevelBoxes container).boxes = front ++ back)
    (valid : (scanTopLevelBoxes output).valid = true)
    (copied : (scanTopLevelBoxes output).boxes =
      relocate 0 (retained container front) ++ (new ++ relocate target (retained container back)))
    (embedded : ∀ box ∈ new, isSvpiBox output.bytes box = true)
    (same : List.Forall₂ (CopyOf container output) (retained container front)
      (relocate 0 (retained container front)))
    (same' : List.Forall₂ (CopyOf container output) (retained container back)
      (relocate target (retained container back)))
    (exempt : ∀ box ∈ retained container back, IsTerminalMfra container box) :
    KeepsMedia container output ↔ EmbeddingsLast container := by
  have media : mediaBoxes container = retained container front ++ retained container back := by
    rw [mediaBoxes, scanned]
    exact retained_append container front back
  have none : retained output new = [] := by
    refine List.filter_eq_nil_iff.mpr fun box mem => ?_
    rw [embedded box mem]
    exact Bool.false_ne_true
  have media' : mediaBoxes output = relocate 0 (retained container front) ++
      relocate target (retained container back) := by
    rw [mediaBoxes, copied]
    show retained output _ = _
    rw [retained_append, retained_append, none, retained_copies same, retained_copies same',
      List.nil_append]
  have stays' : List.Forall₂ (Stays (IsTerminalMfra container)) (retained container back)
      (relocate target (retained container back)) :=
    (forall₂_of_mem_left exempt (length_relocate _ _).symm).imp fun _ _ => Or.inr
  have lengths : (retained container front).length =
      (relocate 0 (retained container front)).length := (length_relocate _ _).symm
  rw [KeepsMedia, media, media', forall₂_append_iff lengths, forall₂_with same fun _ _ => And.left,
    forall₂_with same' fun _ _ => And.left]
  show _ ∧ List.Forall₂ (Stays _) _ _ ∧ List.Forall₂ (Stays _) _ _ ↔ _
  rw [and_iff_right valid, and_iff_left stays', retained, stays_iff contiguous]
  constructor
  · intro stays before box after split plain ⟨other, mem, left⟩
    rw [scanned] at split
    rcases List.append_eq_append_iff.mp split with ⟨middle, rfl, isBack⟩ | ⟨middle, isFront, rest⟩
    · refine exempt box (List.mem_filter.mpr ⟨by rw [isBack]; simp, by rw [plain]; rfl⟩)
    · cases middle with
      | nil =>
        refine exempt box (List.mem_filter.mpr ⟨?_, by rw [plain]; rfl⟩)
        rw [← List.nil_append back, ← rest]
        exact List.mem_cons_self
      | cons first middle =>
        obtain ⟨rfl, -⟩ := List.cons.inj rest
        exact stays before box middle isFront (by rw [plain]; rfl) ⟨other, mem, by rw [left]; rfl⟩
  · intro last before box after split keepBox ⟨other, mem, left⟩
    refine last before box (after ++ back) (by rw [scanned, split, List.append_assoc]; rfl)
      (by simpa using keepBox) ⟨other, mem, by simpa using left⟩

/-! ## The operations -/

theorem dropLast_relocate : ∀ (start : Nat) (boxes : List TopLevelBox),
    (relocate start boxes).dropLast = relocate start boxes.dropLast
  | _, [] => rfl
  | _, [_] => rfl
  | start, box :: next :: rest => by
    have tail := dropLast_relocate (start + box.size) (next :: rest)
    rw [relocate] at tail
    rw [relocate, relocate, List.dropLast_cons_cons, tail, List.dropLast_cons_cons, relocate]

/-- Boxes laid end to end make a file. -/
theorem tiling_relocate {bytes : Bytes} {parts : List Bytes} {boxes : List TopLevelBox}
    (same : bytes = parts.flatten)
    (declared : List.Forall₂ (fun part box => Declares (box.offset, part) box) parts boxes)
    (closed : ∀ box ∈ boxes.dropLast, box.extendsToEof = false) :
    IsTiling bytes (relocate 0 boxes) := by
  refine ⟨parts, same, declares_relocate declared 0, fun box mem => ?_⟩
  rw [dropLast_relocate] at mem
  obtain ⟨other, otherMem, isOther⟩ := mem_relocate mem
  rw [isOther]
  exact closed other otherMem

theorem mem_dropLast_of_filter {keep : TopLevelBox → Bool} {boxes : List TopLevelBox}
    {box : TopLevelBox} (mem : box ∈ (boxes.filter keep).dropLast) : box ∈ boxes.dropLast := by
  have tails := (@List.filter_sublist _ keep boxes).reverse.tail
  rw [List.tail_reverse, List.tail_reverse] at tails
  exact List.mem_reverse.mp (tails.subset (List.mem_reverse.mpr mem))

section Operations

variable {blake3 : Bytes → Blake3Digest} {io : OutputIo} {container output : MediaFile}

theorem Scanned.size (scanned : Scanned container) {box : TopLevelBox}
    (mem : box ∈ (scanTopLevelBoxes container).boxes) : 8 ≤ box.size :=
  le_trans (scanned.declares box mem).headerSize (scanned.declares box mem).room

/-- What the retained boxes are in the container. -/
theorem Scanned.retained (scanned : Scanned container) {boxes : List TopLevelBox}
    (sub : boxes ⊆ (scanTopLevelBoxes container).boxes) {box : TopLevelBox}
    (mem : box ∈ Package.retained container boxes) :
    Declares (box.offset, boxBytes container.bytes box) box ∧
      box.offset + box.size ≤ container.bytes.length ∧ isSvpiBox container.bytes box = false := by
  obtain ⟨inBoxes, plain⟩ := List.mem_filter.mp mem
  exact ⟨scanned.declares box (sub inBoxes), (scanned.contiguous.inside (sub inBoxes)).2,
    by simpa using plain⟩

theorem Scanned.declared (scanned : Scanned container) {boxes : List TopLevelBox}
    (sub : boxes ⊆ (scanTopLevelBoxes container).boxes) :
    List.Forall₂ (fun part box => Declares (box.offset, part) box)
      ((Package.retained container boxes).map (boxBytes container.bytes))
      (Package.retained container boxes) := by
  rw [List.forall₂_map_left_iff, List.forall₂_same]
  exact fun box mem => (scanned.retained sub mem).1

theorem filter_isEmbeddingBox {verify : Bool}
    (sound : (inspectEmbeddedSvpi blake3 container verify).containerStructureValid = true)
    (supported : (inspectEmbeddedSvpi blake3 container verify).container.supported = true)
    {boxes : List TopLevelBox} (sub : boxes ⊆ (scanTopLevelBoxes container).boxes) :
    (boxes.filter fun box =>
        !isEmbeddingBox (inspectEmbeddedSvpi blake3 container verify).embeddings box) =
      Package.retained container boxes :=
  List.filter_congr fun box mem => by rw [isEmbeddingBox_eq sound supported (sub mem)]

/-- Stripping keeps the media in place where no media stands behind an embedding. -/
theorem strip_keepsMedia {overwrite : Bool}
    (done : (stripEmbeddedSvpi blake3 io container overwrite).output = some output) :
    KeepsMedia container output ↔ EmbeddingsLast container := by
  obtain ⟨verified, produced⟩ := rewriteVerified_output done
  obtain ⟨sound, supported⟩ := sound_of_verified true verified
  obtain ⟨valid, -⟩ := inspect_embeddings blake3 sound supported
  have scanned := scanned_of_valid valid
  have all : (scanTopLevelBoxes container).boxes ⊆ (scanTopLevelBoxes container).boxes :=
    List.Subset.refl _
  have bytes : output.bytes =
      (retained container (scanTopLevelBoxes container).boxes).flatMap (boxBytes container.bytes) := by
    rw [copyIsoBmffWithEmbeddingChange, copyBoxes_whole fun box mem =>
      ⟨(scanned.contiguous.inside mem).2, .inl rfl⟩, filter_isEmbeddingBox sound supported all,
      List.nil_append] at produced
    exact (Option.some.inj produced).symm
  have tiles : IsTiling output.bytes
      (relocate 0 (retained container (scanTopLevelBoxes container).boxes)) :=
    tiling_relocate (by rw [bytes, List.flatMap]) (scanned.declared all)
      fun box mem => scanned.closed box (mem_dropLast_of_filter mem)
  have count : (relocate 0 (retained container (scanTopLevelBoxes container).boxes)).length ≤
      kMaximumTopLevelBoxes := by
    rw [length_relocate]
    exact le_trans (List.length_filter_le _ _) scanned.count
  have found := scan_of_tiling count tiles (Nat.lt_succ_self _)
  refine @keepsMedia_of_copies container output _ [] [] 0 _ scanned.contiguous
    (List.append_nil _).symm (by rw [scanTopLevelBoxes, found]) ?_ (List.forall_mem_nil _) ?_ .nil
    (List.forall_mem_nil _)
  · rw [scanTopLevelBoxes, found]
    exact (List.append_nil _).symm
  · exact @copies_of_parts container output [] _ [] (fun box mem => scanned.retained all mem)
      (by rw [List.append_nil, List.nil_append, bytes])

/-- Where the new box goes: before a terminal `mfra`, else at the end. -/
theorem chooseInsertionOffset_eq_ok {scan : TopLevelScan} {embeddings : List EmbeddedSvpiInfo}
    {offset : Nat} (chosen : chooseInsertionOffset scan embeddings = .ok offset) :
    offset = scan.fileSize ∨ ∃ front mfra rest, scan.boxes = front ++ mfra :: rest ∧
      mfra.type = mfraType ∧ (∀ box ∈ rest, isEmbeddingBox embeddings box = true) ∧
      offset = mfra.offset := by
  unfold chooseInsertionOffset at chosen
  split at chosen
  · cases chosen
    exact .inl rfl
  next mfra rest found =>
  split_ifs at chosen with last
  cases chosen
  have isMfra : mfra.type = mfraType := by
    have head := List.head_dropWhile_not (fun box : TopLevelBox => box.type != mfraType)
      (l := scan.boxes) (by rw [found]; simp)
    simpa [found] using head
  refine .inr ⟨scan.boxes.takeWhile fun box => box.type != mfraType, mfra, rest, ?_, isMfra,
    List.all_eq_true.mp last, rfl⟩
  rw [← found, List.takeWhile_append_dropWhile]

/-- A successful embedding writes the retained boxes of `front`, the new box, and a
terminal `mfra` where there is one. -/
theorem embed_bytes {options : EmbeddedSvpiWriteOptions} {svpi : MediaFile}
    (done : (embedSvpiInIsoBmff blake3 io options container svpi).output = some output) :
    ∃ front back part, (scanTopLevelBoxes container).boxes = front ++ back ∧
      (retained container back = [] ∨
        ∃ mfra, retained container back = [mfra] ∧ mfra.type = mfraType) ∧
      writeUuidBox svpi.bytes (blake3 svpi.bytes) kIsoBmffMaxCompactBoxSize = some part ∧
      output.bytes = (retained container front).flatMap (boxBytes container.bytes) ++
        (part ++ (retained container back).flatMap (boxBytes container.bytes)) := by
  obtain ⟨sound, supported, -, ⟨insertionOffset, chosen, written⟩, -⟩ := embedded_of_output done
  obtain ⟨bytes, produced, write⟩ := Option.bind_eq_some_iff.mp written
  rw [OutputIo.write_eq_some write]
  obtain ⟨valid, -⟩ := inspect_embeddings blake3 sound supported
  have scanned := scanned_of_valid valid
  rcases chooseInsertionOffset_eq_ok chosen with rfl | ⟨front, mfra, rest, split, isMfra, last, rfl⟩
  · have all : (scanTopLevelBoxes container).boxes ⊆ (scanTopLevelBoxes container).boxes :=
      List.Subset.refl _
    rw [copyIsoBmffWithEmbeddingChange, copyBoxes_whole fun box mem => by
        have inside := (scanned.contiguous.inside mem).2
        have positive := scanned.size mem
        rw [fileSize_scan]
        exact ⟨inside, .inr (by omega)⟩,
      filter_isEmbeddingBox sound supported all, List.nil_append] at produced
    have produced : (writeUuidBox svpi.bytes (blake3 svpi.bytes) kIsoBmffMaxCompactBoxSize).map
        ((retained container (scanTopLevelBoxes container).boxes).flatMap (boxBytes container.bytes) ++ ·)
          = some bytes := by
      simpa using produced
    obtain ⟨part, new, rfl⟩ := Option.map_eq_some_iff.mp produced
    exact ⟨_, [], part, (List.append_nil _).symm, .inl rfl, new, by simp [retained]⟩
  · have contiguous := scanned.contiguous
    rw [split] at contiguous
    obtain ⟨middle, before, isOffset, header, room, behind⟩ := contiguous.split
    have inBoxes : ∀ box ∈ front, box ∈ (scanTopLevelBoxes container).boxes := fun box mem => by
      rw [split]
      exact List.mem_append_left _ mem
    have inBoxes' : ∀ box ∈ mfra :: rest, box ∈ (scanTopLevelBoxes container).boxes :=
      fun box mem => by
        rw [split]
        exact List.mem_append_right _ mem
    have plain : isSvpiBox container.bytes mfra = false := by
      rw [isSvpiBox, isMfra]
      rfl
    have gone : ∀ box ∈ rest, isSvpiBox container.bytes box = true := fun box mem => by
      rw [← isEmbeddingBox_eq sound supported (inBoxes' box (List.mem_cons_of_mem _ mem))]
      exact last box mem
    have back : retained container (mfra :: rest) = [mfra] := by
      rw [retained, List.filter_cons_of_pos (by rw [plain]; rfl), List.filter_eq_nil_iff.mpr]
      intro box mem
      rw [gone box mem]
      exact Bool.false_ne_true
    rw [copyIsoBmffWithEmbeddingChange, split, copyBoxes_retained front [] fun box mem => by
        have inside := (before.inside mem).2
        have within := (scanned.contiguous.inside (inBoxes box mem)).2
        have positive := scanned.size (inBoxes box mem)
        exact ⟨within, .inr (by omega)⟩,
      filter_isEmbeddingBox sound supported inBoxes, List.nil_append] at produced
    obtain ⟨part, new⟩ := writeUuidBox_isSome (blake3 svpi.bytes) svpi.size
    have none : (rest.filter fun box =>
        !isEmbeddingBox (inspectEmbeddedSvpi blake3 container false).embeddings box) = [] := by
      refine List.filter_eq_nil_iff.mpr fun box mem => ?_
      rw [last box mem]
      exact Bool.false_ne_true
    have mfraMem := inBoxes' mfra List.mem_cons_self
    have kept := isEmbeddingBox_eq sound supported mfraMem
    rw [copyBoxes_insert (kept.trans plain) rfl new
        (readRange_inside (scanned.contiguous.inside mfraMem).2),
      copyBoxes_whole fun box mem => by
        have after := (behind.inside mem).1
        have positive := scanned.size mfraMem
        exact ⟨(scanned.contiguous.inside (inBoxes' box (List.mem_cons_of_mem _ mem))).2,
          .inr (by omega)⟩,
      none] at produced
    refine ⟨front, mfra :: rest, part, split, .inr ⟨mfra, back, isMfra⟩, new, ?_⟩
    have same := Option.some.inj (show some _ = some bytes from produced)
    rw [← same, back, List.flatMap_nil, List.append_nil, List.flatMap_singleton, List.append_assoc]

theorem Scanned.length_flatMap (scanned : Scanned container) {boxes : List TopLevelBox}
    (sub : boxes ⊆ (scanTopLevelBoxes container).boxes) :
    ((Package.retained container boxes).flatMap (boxBytes container.bytes)).length =
      extent (Package.retained container boxes) := by
  rw [List.length_flatMap, extent]
  refine congrArg List.sum (List.map_congr_left fun box mem => ?_)
  exact (scanned.retained sub mem).1.size.symm

/-- The box that is written declares itself. -/
theorem SvpiBox.declares {payload part : Bytes} {payloadHash : Blake3Digest}
    (svpi : SvpiBox payload payloadHash part) (small : part.length ≤ kMaxStreamOffset) :
    ∃ box, Declares (box.offset, part) box ∧ box.extendsToEof = false ∧
      carriesSvpi part box = true := by
  obtain ⟨box, read, whole, stated⟩ := svpi.isBox
  obtain ⟨-, declares, -⟩ := (@readTopLevelBox_iff ⟨part, small⟩ 0 box).mp read
  have isPart : slice part 0 box.size = part := by
    rw [whole, slice, List.drop_zero, List.take_length]
  rw [show slice (MediaFile.mk part small).bytes 0 box.size = part from isPart] at declares
  refine ⟨box, ?_, stated, ?_⟩
  · rw [show box.offset = 0 from declares.offset]
    exact declares
  · have type := svpi.type
    have uuid := svpi.uuid
    simp only [boxType, boxHeaderSize, boxAt, read] at type uuid
    rw [carriesSvpi, type, uuid]
    rfl

/-- Embedding and replacing keep the media in place where no media stands behind an
embedding. -/
theorem embed_keepsMedia {options : EmbeddedSvpiWriteOptions} {svpi : MediaFile}
    (done : (embedSvpiInIsoBmff blake3 io options container svpi).output = some output) :
    KeepsMedia container output ↔ EmbeddingsLast container := by
  have embedded := embedded_of_output done
  obtain ⟨front, back, part, split, tail, new, bytes⟩ := embed_bytes done
  obtain ⟨valid, -⟩ := inspect_embeddings blake3 embedded.sound embedded.supported
  have scanned := scanned_of_valid valid
  obtain ⟨outputSound, outputSupported⟩ := sound_of_verified true embedded.verified
  obtain ⟨outputValid, -⟩ := inspect_embeddings blake3 outputSound outputSupported
  have subFront : front ⊆ (scanTopLevelBoxes container).boxes := by
    rw [split]
    exact List.subset_append_left _ _
  have subBack : back ⊆ (scanTopLevelBoxes container).boxes := by
    rw [split]
    exact List.subset_append_right _ _
  have small : part.length ≤ kMaxStreamOffset := by
    have bounded := output.size
    rw [bytes, List.length_append, List.length_append] at bounded
    omega
  obtain ⟨box, declares, stated, carries⟩ := (svpiBox_of_write new).declares small
  have size : part.length = box.size := declares.size.symm
  have closed : ∀ other ∈ (scanTopLevelBoxes container).boxes, other.extendsToEof = false :=
    fun other mem =>
      (layoutIssue_eq_none.mp (List.findSome?_eq_none_iff.mp embedded.layout other mem)).1
  -- The output is the copies of the front, the new box, and the copies of the back.
  have tiles : IsTiling output.bytes
      (relocate 0 (retained container front ++ (box :: retained container back))) := by
    refine @tiling_relocate _ ((retained container front).map (boxBytes container.bytes) ++
      (part :: (retained container back).map (boxBytes container.bytes))) _ ?_ ?_ fun other mem => ?_
    · rw [bytes, List.flatten_append, List.flatten_cons, List.flatMap, List.flatMap]
    · exact (forall₂_append_iff (List.length_map _)).mpr
        ⟨scanned.declared subFront, .cons declares (scanned.declared subBack)⟩
    · rcases List.mem_append.mp (List.dropLast_subset _ mem) with inFront | inBack
      · exact closed other (subFront (List.mem_filter.mp inFront).1)
      · rcases List.mem_cons.mp inBack with rfl | inBack
        · exact stated
        · exact closed other (subBack (List.mem_filter.mp inBack).1)
  have boxes : (scanTopLevelBoxes output).boxes =
      relocate 0 (retained container front ++ (box :: retained container back)) := by
    have found := (tiling_of_scan outputValid).2
    exact @TilesFrom.unique output _ _ 0 found tiles
  have lead := scanned.length_flatMap subFront
  rw [relocate_append, Nat.zero_add, ← lead, relocate, ← List.singleton_append] at boxes
  have contiguous := scanned.contiguous
  rw [split] at contiguous
  obtain ⟨middle, before, -⟩ := contiguous.split
  refine keepsMedia_of_copies before split outputValid
    boxes (fun other mem => ?_) ?_ ?_ ?_
  · obtain rfl := List.mem_singleton.mp mem
    have isPart : boxBytes output.bytes { box with
        offset := ((retained container front).flatMap (boxBytes container.bytes)).length } = part := by
      show slice output.bytes _ box.size = part
      rw [bytes, ← size]
      exact Lib.slice_whole _ part _
    rw [isSvpiBox_of_part declares.relocate ?_ isPart]
    · exact carries
    · show ((retained container front).flatMap (boxBytes container.bytes)).length + box.size ≤
        output.bytes.length
      rw [bytes, List.length_append, List.length_append, size]
      omega
  · exact @copies_of_parts container output _ _ [] (fun other mem => scanned.retained subFront mem)
      bytes
  · have copied := @copies_of_parts container output [] (retained container back)
      ((retained container front).flatMap (boxBytes container.bytes) ++ part)
      (fun other mem => scanned.retained subBack mem) (by rw [bytes, List.append_nil, List.append_assoc])
    rwa [List.length_append, size] at copied
  · rcases tail with none | ⟨mfra, single, isMfra⟩
    · rw [none]
      exact List.forall_mem_nil _
    · rw [single]
      intro other mem
      obtain rfl := List.mem_singleton.mp mem
      refine ⟨?_, isMfra⟩
      rw [mediaBoxes, split]
      show (retained container (front ++ back)).getLast? = _
      rw [retained_append, single, List.getLast?_append, List.getLast?_singleton]
      rfl

/-- Every edit that succeeds keeps the media in place exactly where no media but a
terminal `mfra` stands behind an embedding. -/
theorem embeddingEdit_keepsMedia_iff
    (done : (∃ overwrite, (stripEmbeddedSvpi blake3 io container overwrite).output = some output) ∨
      ∃ options svpi, (embedSvpiInIsoBmff blake3 io options container svpi).output = some output) :
    KeepsMedia container output ↔ EmbeddingsLast container := by
  rcases done with ⟨overwrite, done⟩ | ⟨options, svpi, done⟩
  · exact strip_keepsMedia done
  · exact embed_keepsMedia done

end Operations

theorem embeddingEdit_keepsMedia_iff_sample : ∃ output,
    (embedSvpiInIsoBmff samplePackageHash sampleIo {} sampleContainer samplePackage).output =
        some output ∧
      KeepsMedia sampleContainer output := by
  have done : ((embedSvpiInIsoBmff samplePackageHash sampleIo {} sampleContainer
      samplePackage).output).isSome = true := by decide
  obtain ⟨output, written⟩ := Option.isSome_iff_exists.mp done
  have plain : ∀ box ∈ (scanTopLevelBoxes sampleContainer).boxes,
      isSvpiBox sampleContainer.bytes box = false := by decide
  refine ⟨output, written, (embeddingEdit_keepsMedia_iff (.inr ⟨_, _, written⟩)).mpr ?_⟩
  intro front box back split _ embedded
  obtain ⟨other, mem, svpi⟩ := embedded
  rw [plain other (by rw [split]; exact List.mem_append_left _ mem)] at svpi
  cases svpi

/-! A file whose embedding stands between its `ftyp` and its media, as another
writer may leave it. -/

def middleContainer : MediaFile where
  bytes := bigEndian 4 16 ++ ftypType ++ utf8 "isom" ++ bigEndian 4 0 ++
    ((writeUuidBox samplePackage.bytes (samplePackageHash samplePackage.bytes)
        kIsoBmffMaxCompactBoxSize).getD [] ++
      (bigEndian 4 8 ++ utf8 "moov" ++ (bigEndian 4 12 ++ utf8 "mdat" ++ utf8 "data")))
  size := by decide +kernel

/-- Without an `mfra`, kept media have their offsets. -/
theorem KeepsMedia.offsets {container output : MediaFile} (keeps : KeepsMedia container output)
    (plain : ∀ box ∈ mediaBoxes container, box.type ≠ mfraType) :
    (mediaBoxes output).map TopLevelBox.offset = (mediaBoxes container).map TopLevelBox.offset := by
  have each : List.Forall₂ (fun box copy : TopLevelBox => copy.offset = box.offset)
      (mediaBoxes container) (mediaBoxes output) := by
    refine ((List.forall₂_and_left _ _).mpr ⟨plain, keeps.2⟩).imp ?_
    rintro box copy ⟨noMfra, -, same | mfra⟩
    · exact same
    · exact absurd mfra.2 noMfra
  rw [eq_comm, ← List.forall₂_eq_eq_eq, List.forall₂_map_left_iff, List.forall₂_map_right_iff]
  exact each.imp fun _ _ same => same.symm

theorem middleContainer_moves :
    (∃ output, (stripEmbeddedSvpi samplePackageHash sampleIo middleContainer false).output =
        some output ∧ ¬ KeepsMedia middleContainer output) ∧
      ∃ output, (embedSvpiInIsoBmff samplePackageHash sampleIo { replaceExisting := true }
          middleContainer samplePackage).output = some output ∧
        ¬ KeepsMedia middleContainer output := by
  have plain : ∀ box ∈ mediaBoxes middleContainer, box.type ≠ mfraType := by decide +kernel
  have before : (mediaBoxes middleContainer).map TopLevelBox.offset = [0, 107, 115] := by
    decide +kernel
  constructor
  · have done : (stripEmbeddedSvpi samplePackageHash sampleIo middleContainer false).output.map
        (fun output => (mediaBoxes output).map TopLevelBox.offset) = some [0, 16, 24] := by
      decide +kernel
    obtain ⟨output, written, after⟩ := Option.map_eq_some_iff.mp done
    refine ⟨output, written, fun keeps => ?_⟩
    have same := keeps.offsets plain
    rw [before, after] at same
    cases same
  · have done : (embedSvpiInIsoBmff samplePackageHash sampleIo { replaceExisting := true }
        middleContainer samplePackage).output.map
        (fun output => (mediaBoxes output).map TopLevelBox.offset) = some [0, 16, 24] := by
      decide +kernel
    obtain ⟨output, written, after⟩ := Option.map_eq_some_iff.mp done
    refine ⟨output, written, fun keeps => ?_⟩
    have same := keeps.offsets plain
    rw [before, after] at same
    cases same

end Svp.Package
