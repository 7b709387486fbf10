import Svp.Package.EmbeddedBoxes

/-!
# Embedding, stripping, extracting and replacing agree

Every operation of the transport is an operation on the list of boxes of a file:
embedding inserts the new box before a terminal `mfra` or at the end, stripping
leaves it out, replacing does both. `embeddedSvpi_roundTrip` collects the laws.
-/

namespace Svp.Package

open Exec (Bytes Blake3Digest utf8)
open Lib (slice placed bigEndian)

/-! ## Copying a file made of parts -/

section Parts

variable {file : MediaFile} {front mid tail : List Bytes} {embeddings : List EmbeddedSvpiInfo}
  {insertionOffset : Nat} {svpi : Option (Bytes × Blake3Digest)} {limit : Nat}

theorem MediaFile.MadeOf.isBox {parts : List Bytes} (made : file.MadeOf parts) {start : Nat}
    {placedPart : Nat × Bytes} {some : List Bytes} (mem : placedPart ∈ placed start some)
    (sub : some ⊆ parts) : IsBox placedPart.2 := by
  refine made.complete _ (sub ?_)
  have := List.mem_map_of_mem (f := Prod.snd) mem
  rwa [Lib.map_snd_placed] at this

/-- A run of boxes that are kept is copied as it is. -/
theorem copyBoxes_run {parts : List Bytes} (made : file.MadeOf parts) {inserted : Bool}
    {rest : List TopLevelBox} (run : List (Nat × Bytes)) : ∀ output : Bytes,
    (∀ x ∈ run, x ∈ placed 0 parts ∧ isEmbeddingBox embeddings (boxAt x) = false ∧
      (svpi = none ∨ inserted = true ∨ x.1 ≠ insertionOffset)) →
    copyBoxes file.bytes embeddings insertionOffset svpi limit (run.map boxAt ++ rest) inserted output =
      copyBoxes file.bytes embeddings insertionOffset svpi limit rest inserted
        (output ++ (run.map Prod.snd).flatten) := by
  induction run with
  | nil =>
    intro output _
    rw [List.map_nil, List.map_nil, List.flatten_nil, List.append_nil, List.nil_append]
  | cons first run ih =>
    intro output ok
    obtain ⟨offset, part⟩ := first
    obtain ⟨mem, kept, quiet⟩ := ok (offset, part) List.mem_cons_self
    obtain ⟨isOffset, isSize, -⟩ := (made.isBox mem (List.Subset.refl _)).boxAt offset
    have read : readRange file.bytes (boxAt (offset, part)).offset (boxAt (offset, part)).size =
        some part := by
      rw [isOffset, isSize]
      exact readRange_placed made mem
    rw [List.map_cons, List.cons_append, copyBoxes_kept kept (by rw [isOffset]; exact quiet) read,
      ih _ fun x rest => ok x (List.mem_cons_of_mem _ rest)]
    simp [List.append_assoc]

/-- A run of embeddings is left out. -/
theorem copyBoxes_skip {inserted : Bool} {rest : List TopLevelBox} {output : Bytes}
    (run : List TopLevelBox) : (∀ box ∈ run, isEmbeddingBox embeddings box = true ∧
      (svpi = none ∨ box.offset ≠ insertionOffset)) →
    copyBoxes file.bytes embeddings insertionOffset svpi limit (run ++ rest) inserted output =
      copyBoxes file.bytes embeddings insertionOffset svpi limit rest inserted output := by
  induction run with
  | nil => exact fun _ => rfl
  | cons first run ih =>
    intro ok
    obtain ⟨removed, quiet⟩ := ok first List.mem_cons_self
    rw [List.cons_append, copyBoxes_removed removed quiet,
      ih fun box rest => ok box (List.mem_cons_of_mem _ rest)]

/-- The embeddings are exactly the boxes in the middle. -/
def EmbeddedAt (embeddings : List EmbeddedSvpiInfo) (front mid : List Bytes) : Prop :=
  embeddings.map EmbeddedSvpiInfo.place =
    (placed front.flatten.length mid).map fun placedPart => (placedPart.1, placedPart.2.length)

theorem placed_three (front mid tail : List Bytes) : placed 0 (front ++ (mid ++ tail)) =
    placed 0 front ++ (placed front.flatten.length mid ++
      placed (front.flatten.length + mid.flatten.length) tail) := by
  rw [Lib.placed_append, Lib.placed_append, Nat.zero_add]

theorem isEmbeddingBox_placed (at_ : EmbeddedAt embeddings front mid) {placedPart : Nat × Bytes}
    (isBox : IsBox placedPart.2) : isEmbeddingBox embeddings (boxAt placedPart) = true ↔
      ∃ other ∈ placed front.flatten.length mid,
        (other.1, other.2.length) = (placedPart.1, placedPart.2.length) := by
  obtain ⟨isOffset, isSize, -⟩ := isBox.boxAt placedPart.1
  have eta : (placedPart.1, placedPart.2) = placedPart := rfl
  rw [eta] at isOffset isSize
  rw [isEmbeddingBox_iff, at_, List.mem_map, isOffset, isSize]

/-- Boxes before and after the middle are no embeddings. -/
theorem isEmbeddingBox_outside (made : file.MadeOf (front ++ (mid ++ tail)))
    (at_ : EmbeddedAt embeddings front mid) {placedPart : Nat × Bytes}
    (outside : placedPart ∈ placed 0 front ∨
      placedPart ∈ placed (front.flatten.length + mid.flatten.length) tail) :
    isEmbeddingBox embeddings (boxAt placedPart) = false := by
  have isBox : IsBox placedPart.2 := by
    rcases outside with mem | mem
    · exact made.isBox mem (List.subset_append_left _ _)
    · exact made.isBox mem (List.subset_append_of_subset_right _ (List.subset_append_right _ _))
  rw [Bool.eq_false_iff]
  intro embedded
  obtain ⟨other, otherMem, same⟩ := (isEmbeddingBox_placed at_ isBox).mp embedded
  have otherBox := made.isBox otherMem
    (List.subset_append_of_subset_right _ (List.subset_append_left _ _))
  obtain ⟨after, before⟩ := Lib.placed_end (show (other.1, other.2) ∈ _ from otherMem)
  have positive := isBox.size
  have otherPositive := otherBox.size
  obtain ⟨sameOffset, -⟩ := Prod.mk.inj same
  rcases outside with mem | mem
  · obtain ⟨-, inside⟩ := Lib.placed_end (show (placedPart.1, placedPart.2) ∈ _ from mem)
    omega
  · obtain ⟨inside, -⟩ := Lib.placed_end (show (placedPart.1, placedPart.2) ∈ _ from mem)
    omega

theorem isEmbeddingBox_middle (made : file.MadeOf (front ++ (mid ++ tail)))
    (at_ : EmbeddedAt embeddings front mid) {placedPart : Nat × Bytes}
    (mem : placedPart ∈ placed front.flatten.length mid) :
    isEmbeddingBox embeddings (boxAt placedPart) = true :=
  (isEmbeddingBox_placed at_ (made.isBox mem
    (List.subset_append_of_subset_right _ (List.subset_append_left _ _)))).mpr ⟨placedPart, mem, rfl⟩

/-- Up to the tail, the copy is the front. -/
theorem copyBoxes_front (made : file.MadeOf (front ++ (mid ++ tail)))
    (at_ : EmbeddedAt embeddings front mid)
    (quiet : svpi = none ∨ insertionOffset = front.flatten.length + mid.flatten.length) :
    copyBoxes file.bytes embeddings insertionOffset svpi limit
        (layout 0 (front ++ (mid ++ tail))) false [] =
      copyBoxes file.bytes embeddings insertionOffset svpi limit
        (layout (front.flatten.length + mid.flatten.length) tail) false front.flatten := by
  have elsewhere : ∀ {parts : List Bytes} {start : Nat} {placedPart : Nat × Bytes},
      placedPart ∈ placed start parts → IsBox placedPart.2 →
      start + parts.flatten.length ≤ front.flatten.length + mid.flatten.length →
      svpi = none ∨ placedPart.1 ≠ insertionOffset := by
    intro parts start placedPart mem isBox ends
    obtain ⟨-, inside⟩ := Lib.placed_end (show (placedPart.1, placedPart.2) ∈ _ from mem)
    have positive := isBox.size
    exact quiet.imp_right fun here => by omega
  rw [layout_append, layout_append, Nat.zero_add]
  show copyBoxes file.bytes embeddings insertionOffset svpi limit
    ((placed 0 front).map boxAt ++ _) false [] = _
  rw [copyBoxes_run made (placed 0 front) [], Lib.map_snd_placed, List.nil_append, copyBoxes_skip]
  · intro box mem
    obtain ⟨placedPart, partMem, rfl⟩ := List.mem_map.mp mem
    have isBox := made.isBox partMem
      (List.subset_append_of_subset_right _ (List.subset_append_left _ _))
    obtain ⟨isOffset, -⟩ := isBox.boxAt placedPart.1
    refine ⟨isEmbeddingBox_middle made at_ partMem, ?_⟩
    rw [show (placedPart.1, placedPart.2) = placedPart from rfl] at isOffset
    rw [isOffset]
    exact elsewhere partMem isBox le_rfl
  · intro x mem
    refine ⟨?_, isEmbeddingBox_outside made at_ (.inl mem), ?_⟩
    · rw [placed_three]
      exact List.mem_append_left _ mem
    · have isBox := made.isBox mem (List.subset_append_left _ _)
      exact (elsewhere mem isBox (by omega)).imp_right .inr

theorem tail_mem_placed {placedPart : Nat × Bytes}
    (mem : placedPart ∈ placed (front.flatten.length + mid.flatten.length) tail) :
    placedPart ∈ placed 0 (front ++ (mid ++ tail)) := by
  rw [placed_three]
  exact List.mem_append_right _ (List.mem_append_right _ mem)

/-- Stripping keeps what is before and after the embeddings. -/
theorem copy_strip {scan : TopLevelScan} (made : file.MadeOf (front ++ (mid ++ tail)))
    (scanned : scan.boxes = layout 0 (front ++ (mid ++ tail)))
    (at_ : EmbeddedAt embeddings front mid) :
    copyIsoBmffWithEmbeddingChange file.bytes embeddings insertionOffset none limit scan =
      some (front ++ tail).flatten := by
  have rest : copyBoxes file.bytes embeddings insertionOffset none limit
      (layout (front.flatten.length + mid.flatten.length) tail ++ []) false front.flatten =
      some (false, front.flatten ++ tail.flatten) := by
    rw [layout, copyBoxes_run made _ front.flatten, Lib.map_snd_placed]
    · rfl
    · exact fun x mem => ⟨tail_mem_placed mem, isEmbeddingBox_outside made at_ (.inr mem), .inl rfl⟩
  rw [List.append_nil] at rest
  rw [copyIsoBmffWithEmbeddingChange, scanned, copyBoxes_front made at_ (.inl rfl), rest,
    List.flatten_append]
  rfl

/-- Embedding puts the new box where the embeddings were, before a last box. -/
theorem copy_embed {scan : TopLevelScan} {payload part : Bytes} {payloadHash : Blake3Digest}
    (made : file.MadeOf (front ++ (mid ++ tail)))
    (scanned : scan.boxes = layout 0 (front ++ (mid ++ tail)))
    (fileSize : scan.fileSize = file.bytes.length)
    (at_ : EmbeddedAt embeddings front mid) (short : tail.length ≤ 1)
    (here : insertionOffset = front.flatten.length + mid.flatten.length)
    (written : writeUuidBox payload payloadHash limit = some part) :
    copyIsoBmffWithEmbeddingChange file.bytes embeddings insertionOffset
      (some (payload, payloadHash)) limit scan = some (front ++ (part :: tail)).flatten := by
  rw [copyIsoBmffWithEmbeddingChange, scanned, copyBoxes_front made at_ (.inr here)]
  match tail, short with
  | [], _ =>
    have atEnd : insertionOffset = scan.fileSize := by
      rw [here, fileSize, made.bytes, List.append_nil, List.flatten_append, List.length_append]
    simp [layout, placed, copyBoxes, atEnd, written, List.flatten_append]
  | [last], _ =>
    have mem : (front.flatten.length + mid.flatten.length, last) ∈
        placed (front.flatten.length + mid.flatten.length) [last] := List.mem_cons_self
    have inFile := tail_mem_placed mem
    obtain ⟨isOffset, isSize, -⟩ := (made.isBox inFile (List.Subset.refl _)).boxAt
      (front.flatten.length + mid.flatten.length)
    have read : readRange file.bytes
        (boxAt (front.flatten.length + mid.flatten.length, last)).offset
        (boxAt (front.flatten.length + mid.flatten.length, last)).size = some last := by
      rw [isOffset, isSize]
      exact readRange_placed made inFile
    have kept := isEmbeddingBox_outside made at_ (.inr mem)
    show (copyBoxes file.bytes embeddings insertionOffset (some (payload, payloadHash)) limit
      (boxAt (front.flatten.length + mid.flatten.length, last) :: []) false front.flatten >>= _) = _
    rw [copyBoxes_insert kept (isOffset.trans here.symm) written read]
    simp [copyBoxes, List.flatten_append]

end Parts

/-! ## The operations on parts -/

theorem writeUuidBox_isSome {payload : Bytes} (payloadHash : Blake3Digest)
    (small : payload.length ≤ kMaxStreamOffset) :
    ∃ part, writeUuidBox payload payloadHash kIsoBmffMaxCompactBoxSize = some part := by
  simp only [kMaxStreamOffset] at small
  have header : ∃ header,
      makeSvpiUuidBoxHeader payload.length kIsoBmffMaxCompactBoxSize = some header := by
    unfold makeSvpiUuidBoxHeader
    dsimp only
    rw [if_neg]
    · split_ifs <;> exact ⟨_, rfl⟩
    · have short : ∀ extended : Prop, ∀ [Decidable extended],
          ¬ kMaxU64 - (if extended then 32 else 24) - kEmbeddedSvpiEnvelopeSize < payload.length := by
        intro extended _
        simp only [kMaxU64, kEmbeddedSvpiEnvelopeSize]
        split_ifs <;> omega
      exact short _
  obtain ⟨header, made⟩ := header
  rw [writeUuidBox, made]
  exact ⟨_, rfl⟩

/-- No `mfra` stands before the insertion point, and at most one box after it. -/
structure InsertionPoint (front back : List Bytes) : Prop where
  plain : ∀ part ∈ front, boxType part ≠ mfraType
  last : back = [] ∨ ∃ mfra, back = [mfra] ∧ boxType mfra = mfraType

theorem InsertionPoint.short {front back : List Bytes} (point : InsertionPoint front back) :
    back.length ≤ 1 := by
  obtain rfl | ⟨mfra, rfl, -⟩ := point.last
  · exact Nat.zero_le 1
  · exact le_rfl

theorem dropWhile_layout {front : List Bytes} (plain : ∀ part ∈ front, boxType part ≠ mfraType)
    (start : Nat) (back : List Bytes) :
    (layout start (front ++ back)).dropWhile (fun box => box.type != mfraType) =
      (layout (start + front.flatten.length) back).dropWhile fun box => box.type != mfraType := by
  rw [layout_append]
  refine List.dropWhile_append_of_pos fun box mem => ?_
  obtain ⟨placedPart, partMem, rfl⟩ := List.mem_map.mp mem
  rw [show placedPart = (placedPart.1, placedPart.2) from rfl, boxAt_type, bne_iff_ne]
  refine plain _ ?_
  have := List.mem_map_of_mem (f := Prod.snd) partMem
  rwa [Lib.map_snd_placed] at this

/-- A choice that succeeds on a file without embeddings names its insertion point. -/
theorem insertionPoint_of_choose {file : MediaFile} {parts : List Bytes} {offset : Nat}
    (scanned : (scanTopLevelBoxes file).boxes = layout 0 parts)
    (chosen : chooseInsertionOffset (scanTopLevelBoxes file) [] = .ok offset) :
    ∃ front back, parts = front ++ back ∧ InsertionPoint front back := by
  let isPlain := fun part => boxType part != mfraType
  have plain : ∀ part ∈ parts.takeWhile isPlain, boxType part ≠ mfraType := fun part mem => by
    have holds : isPlain part = true := List.mem_takeWhile_imp mem
    exact bne_iff_ne.mp holds
  refine ⟨parts.takeWhile isPlain, parts.dropWhile isPlain,
    (List.takeWhile_append_dropWhile).symm, plain, ?_⟩
  rw [chooseInsertionOffset, scanned, ← List.takeWhile_append_dropWhile (p := isPlain) (l := parts),
    dropWhile_layout plain] at chosen
  cases found : parts.dropWhile isPlain with
  | nil => exact .inl rfl
  | cons mfra rest =>
    have isMfra : boxType mfra = mfraType := by
      have head := List.head_dropWhile_not isPlain (l := parts) (by rw [found]; simp)
      simpa [found, isPlain] using head
    refine .inr ⟨mfra, ?_, isMfra⟩
    rw [found, layout, placed, List.map_cons,
      List.dropWhile_cons_of_neg (by rw [boxAt_type, isMfra]; simp)] at chosen
    cases rest with
    | nil => rfl
    | cons next more => simp [placed, isEmbeddingBox] at chosen

theorem chooseInsertionOffset_parts {file : MediaFile} {front back : List Bytes}
    (point : InsertionPoint front back) (same : file.bytes = (front ++ back).flatten)
    (scanned : (scanTopLevelBoxes file).boxes = layout 0 (front ++ back))
    (embeddings : List EmbeddedSvpiInfo) :
    chooseInsertionOffset (scanTopLevelBoxes file) embeddings = .ok front.flatten.length := by
  rw [chooseInsertionOffset, scanned, dropWhile_layout point.plain, fileSize_scan, same]
  obtain rfl | ⟨mfra, rfl, isMfra⟩ := point.last
  · simp [layout, placed]
  · rw [layout, placed, List.map_cons,
      List.dropWhile_cons_of_neg (by rw [boxAt_type, isMfra]; simp)]
    simp only [placed, List.map_nil, List.all_nil, if_true]
    simp only [boxAt]
    cases readTopLevelBox mfra 0 <;> simp

section Operations

variable {blake3 : Bytes → Blake3Digest} {io : OutputIo} {options : EmbeddedSvpiWriteOptions}
  {container svpi output : MediaFile}

/-- What a successful embedding has checked, and what it wrote. -/
structure Embedded (blake3 : Bytes → Blake3Digest) (io : OutputIo) (container svpi output : MediaFile) :
    Prop where
  sound : (inspectEmbeddedSvpi blake3 container false).containerStructureValid = true
  supported : (inspectEmbeddedSvpi blake3 container false).container.supported = true
  layout : validateEmbeddingLayout (scanTopLevelBoxes container) = none
  copied : ∃ insertionOffset,
    chooseInsertionOffset (scanTopLevelBoxes container)
        (inspectEmbeddedSvpi blake3 container false).embeddings = .ok insertionOffset ∧
      (copyIsoBmffWithEmbeddingChange container.bytes
        (inspectEmbeddedSvpi blake3 container false).embeddings insertionOffset
        (some (svpi.bytes, blake3 svpi.bytes)) kIsoBmffMaxCompactBoxSize
        (scanTopLevelBoxes container)).bind io.write = some output
  verified : (inspectEmbeddedSvpi blake3 output true).verified = true

theorem embedded_of_output
    (done : (embedSvpiInIsoBmff blake3 io options container svpi).output = some output) :
    Embedded blake3 io container svpi output := by
  unfold embedSvpiInIsoBmff at done
  simp only at done
  split at done
  · cases done
  next checked =>
  rw [Bool.or_eq_true, not_or, Bool.not_eq_true', Bool.not_eq_true', Bool.not_eq_false,
    Bool.not_eq_false] at checked
  split at done
  · cases done
  split at done
  · cases done
  next layout =>
  split at done
  · cases done
  split at done
  · cases done
  next offset chosen =>
  split at done
  · cases done
  split at done
  · cases done
  next temporary written =>
  split at done
  · cases done
  next verified =>
  split at done
  · cases done
  cases done
  exact ⟨checked.1, checked.2, layout, ⟨offset, chosen, written⟩, by simpa using verified⟩

/-- The boxes of the container around the insertion point, none of them an
embedding, and the box that carries the package. -/
structure EmbeddedParts (blake3 : Bytes → Blake3Digest) (container svpi output : MediaFile)
    (front back : List Bytes) (part : Bytes) : Prop where
  point : InsertionPoint front back
  containerMade : container.MadeOf (front ++ back)
  scanned : (scanTopLevelBoxes container).boxes = Package.layout 0 (front ++ back)
  foreign : ∀ other ∈ front ++ back, isSvpiPart other = false
  box : SvpiBox svpi.bytes (blake3 svpi.bytes) part
  outputMade : output.MadeOf (front ++ (part :: back))

theorem foreign_of_found {file : MediaFile} {parts : List Bytes} (made : file.MadeOf parts)
    (scanned : (scanTopLevelBoxes file).boxes = layout 0 parts)
    (none : (foundEmbeddings file).map EmbeddedSvpiInfo.place = []) :
    ∀ other ∈ parts, isSvpiPart other = false := by
  rw [foundEmbeddings_place made scanned, List.map_eq_nil_iff, List.filter_eq_nil_iff] at none
  intro other mem
  obtain ⟨front, back, split⟩ := List.append_of_mem mem
  have placedMem : (0 + front.flatten.length, other) ∈ placed 0 parts :=
    Lib.mem_placed.mpr ⟨front, back, split, rfl⟩
  simpa using none _ placedMem

theorem OutputIo.write_eq_some {bytes : Bytes} {file : MediaFile}
    (written : io.write bytes = some file) : file.bytes = bytes := by
  unfold OutputIo.write at written
  split_ifs at written
  cases written
  rfl

theorem embeddedParts (embedded : Embedded blake3 io container svpi output)
    (none : (inspectEmbeddedSvpi blake3 container false).embeddings = []) :
    ∃ front back part, EmbeddedParts blake3 container svpi output front back part := by
  obtain ⟨valid, -⟩ := inspect_embeddings blake3 embedded.sound embedded.supported
  have places := inspect_places blake3 embedded.sound embedded.supported
  rw [none, List.map_nil] at places
  have stated : ∀ box ∈ (scanTopLevelBoxes container).boxes, box.extendsToEof = false := by
    intro box mem
    have issue := List.findSome?_eq_none_iff.mp embedded.layout box mem
    unfold layoutIssue at issue
    split_ifs at issue with eof
    exact Bool.eq_false_iff.mpr eof
  obtain ⟨parts, complete, same, scanned⟩ := parts_of_scan valid stated
  have made : container.MadeOf parts := ⟨complete, same⟩
  obtain ⟨insertionOffset, chosen, copied⟩ := embedded.copied
  rw [none] at chosen copied
  obtain ⟨front, back, rfl, point⟩ := insertionPoint_of_choose scanned chosen
  rw [chooseInsertionOffset_parts point same scanned] at chosen
  cases chosen
  obtain ⟨part, written⟩ := writeUuidBox_isSome (blake3 svpi.bytes) svpi.size
  have box := svpiBox_of_write written
  have nowhere : EmbeddedAt [] front [] := rfl
  have copy : copyIsoBmffWithEmbeddingChange container.bytes [] front.flatten.length
      (some (svpi.bytes, blake3 svpi.bytes)) kIsoBmffMaxCompactBoxSize (scanTopLevelBoxes container) =
      some (front ++ (part :: back)).flatten :=
    copy_embed (show container.MadeOf (front ++ ([] ++ back)) from made) scanned
      (fileSize_scan container) nowhere point.short (Nat.add_zero _).symm written
  rw [copy, Option.bind_some] at copied
  have outputBytes := OutputIo.write_eq_some copied
  refine ⟨front, back, part, point, made, scanned, foreign_of_found made scanned places.symm, box, ?_,
    outputBytes⟩
  intro other mem
  rcases List.mem_append.mp mem with inFront | inBack
  · exact complete other (List.mem_append_left _ inFront)
  · rcases List.mem_cons.mp inBack with rfl | inBack
    · exact box.isBox
    · exact complete other (List.mem_append_right _ inBack)

theorem isSvpiPart_of_box {payload part : Bytes} {payloadHash : Blake3Digest}
    (box : SvpiBox payload payloadHash part) : isSvpiPart part = true := by
  rw [isSvpiPart, box.type, box.uuid, beq_self_eq_true, beq_self_eq_true, Bool.and_self]

section Parts

variable {front back : List Bytes} {part : Bytes}

/-- The one transport box of the output. -/
theorem EmbeddedParts.svpiParts (parts : EmbeddedParts blake3 container svpi output front back part) :
    (placed 0 (front ++ (part :: back))).filter (fun placedPart => isSvpiPart placedPart.2) =
      [(front.flatten.length, part)] := by
  have foreign : ∀ {start : Nat} {some : List Bytes}, some ⊆ front ++ back →
      (placed start some).filter (fun placedPart => isSvpiPart placedPart.2) = [] := by
    intro start some sub
    refine List.filter_eq_nil_iff.mpr fun placedPart mem => ?_
    have inSome := List.mem_map_of_mem (f := Prod.snd) mem
    rw [Lib.map_snd_placed] at inSome
    rw [parts.foreign _ (sub inSome)]
    exact Bool.false_ne_true
  rw [Lib.placed_append, List.filter_append, foreign (List.subset_append_left _ _), placed,
    List.filter_cons, if_pos (isSvpiPart_of_box parts.box), foreign (List.subset_append_right _ _),
    Nat.zero_add, List.nil_append]

/-- An output whose inspection is sound scans to its parts and has the one embedding. -/
theorem EmbeddedParts.inspected (parts : EmbeddedParts blake3 container svpi output front back part)
    {verify : Bool}
    (sound : (inspectEmbeddedSvpi blake3 output verify).containerStructureValid = true)
    (supported : (inspectEmbeddedSvpi blake3 output verify).container.supported = true) :
    (scanTopLevelBoxes output).boxes = Package.layout 0 (front ++ (part :: back)) ∧
      EmbeddedAt (inspectEmbeddedSvpi blake3 output verify).embeddings front [part] := by
  obtain ⟨valid, -⟩ := inspect_embeddings blake3 sound supported
  have scanned := scan_parts parts.outputMade.complete parts.outputMade.bytes valid
  refine ⟨scanned, ?_⟩
  rw [EmbeddedAt, inspect_places blake3 sound supported, foundEmbeddings_place parts.outputMade scanned,
    parts.svpiParts]
  rfl

theorem parseEnvelope_svpiBox {file : MediaFile} {parts : List Bytes} (made : file.MadeOf parts)
    {offset : Nat} {payload : Bytes} {payloadHash : Blake3Digest}
    (mem : (offset, part) ∈ placed 0 parts) (written : SvpiBox payload payloadHash part)
    (small : payload.length ≤ kMaxStreamOffset) :
    (parseEnvelope file.bytes (boxAt (offset, part))).2 =
      some (svpiInfo offset (boxHeaderSize part) payload payloadHash) := by
  obtain ⟨large, within⟩ := written.isBox.headerSize written.type
  obtain ⟨isOffset, -⟩ := written.isBox.boxAt offset
  have inside : offset + boxHeaderSize part - 16 = offset + (boxHeaderSize part - 16) :=
    Nat.add_sub_assoc (by omega) offset
  have read : readExactAt file.bytes
      ((boxAt (offset, part)).offset + (boxAt (offset, part)).headerSize - 16) 16 =
      some kEmbeddedSvpiTransportUuid := by
    rw [isOffset, boxAt_headerSize, inside, readExactAt_placed made mem (by omega), written.uuid]
  unfold parseEnvelope
  rw [read]
  simp only [ne_eq, not_true_eq_false, if_false]
  rw [readEnvelope_svpiBox made mem written small]

/-- The description of the embedding in the output. -/
theorem EmbeddedParts.found (parts : EmbeddedParts blake3 container svpi output front back part)
    (scanned : (scanTopLevelBoxes output).boxes = Package.layout 0 (front ++ (part :: back))) :
    foundEmbeddings output =
      [svpiInfo front.flatten.length (boxHeaderSize part) svpi.bytes (blake3 svpi.bytes)] := by
  have mem : (front.flatten.length, part) ∈ placed 0 (front ++ (part :: back)) := by
    rw [Lib.placed_append, Nat.zero_add]
    exact List.mem_append_right _ List.mem_cons_self
  have single : (foundEmbeddings output).length = 1 := by
    rw [← List.length_map (f := EmbeddedSvpiInfo.place), foundEmbeddings_place parts.outputMade scanned,
      parts.svpiParts]
    rfl
  obtain ⟨info, only⟩ := List.length_eq_one_iff.mp single
  have here : svpiInfo front.flatten.length (boxHeaderSize part) svpi.bytes (blake3 svpi.bytes) ∈
      foundEmbeddings output := by
    refine List.mem_filterMap.mpr ⟨parseEnvelope output.bytes (boxAt (front.flatten.length, part)), ?_,
      parseEnvelope_svpiBox parts.outputMade mem parts.box svpi.size⟩
    refine List.mem_map_of_mem (List.mem_filter.mpr ⟨?_, ?_⟩)
    · rw [scanned]
      exact List.mem_map_of_mem mem
    · rw [boxAt_type, parts.box.type, beq_self_eq_true]
  rw [only] at here ⊢
  rw [List.mem_singleton.mp here]

end Parts

end Operations

/-! ## What each operation writes -/

theorem MediaFile.ext_bytes {file other : MediaFile} (same : file.bytes = other.bytes) :
    file = other := by
  cases file
  cases other
  cases same
  rfl

section Results

variable {blake3 : Bytes → Blake3Digest} {io : OutputIo} {options : EmbeddedSvpiWriteOptions}
  {container svpi output file : MediaFile} {front back : List Bytes} {part bytes : Bytes}

theorem OutputIo.Works.write (works : io.Works) (file : MediaFile) : io.write file.bytes = some file := by
  rw [OutputIo.write, dif_pos file.size, if_pos (works.writes _)]

theorem OutputIo.Works.write_eq {other : OutputIo} (works : io.Works) (otherWorks : other.Works)
    (bytes : Bytes) : io.write bytes = other.write bytes := by
  unfold OutputIo.write
  by_cases size : bytes.length ≤ kMaxStreamOffset
  · rw [dif_pos size, dif_pos size, if_pos (works.writes _), if_pos (otherWorks.writes _)]
  · rw [dif_neg size, dif_neg size]

/-- Without output failures, embedding writes the copy if it verifies. -/
theorem embed_output (works : io.Works)
    (sound : (inspectEmbeddedSvpi blake3 container false).containerStructureValid = true)
    (supported : (inspectEmbeddedSvpi blake3 container false).container.supported = true)
    (layout : validateEmbeddingLayout (scanTopLevelBoxes container) = none)
    (free : (inspectEmbeddedSvpi blake3 container false).embeddings = [] ∨
      options.replaceExisting = true) {insertionOffset : Nat}
    (chosen : chooseInsertionOffset (scanTopLevelBoxes container)
      (inspectEmbeddedSvpi blake3 container false).embeddings = .ok insertionOffset)
    (copied : copyIsoBmffWithEmbeddingChange container.bytes
      (inspectEmbeddedSvpi blake3 container false).embeddings insertionOffset
      (some (svpi.bytes, blake3 svpi.bytes)) kIsoBmffMaxCompactBoxSize (scanTopLevelBoxes container) =
      some bytes) :
    (embedSvpiInIsoBmff blake3 io options container svpi).output =
      (io.write bytes).filter fun out => (inspectEmbeddedSvpi blake3 out true).verified := by
  have open_ : (!(inspectEmbeddedSvpi blake3 container false).embeddings.isEmpty &&
      !options.replaceExisting) = false := by
    rcases free with none | replace
    · rw [none]
      rfl
    · rw [replace, Bool.not_true, Bool.and_false]
  unfold embedSvpiInIsoBmff
  simp only [sound, supported, works.allowed, layout, open_, chosen, works.temporary, copied,
    works.publish, Option.bind_some, Bool.not_true, Bool.or_self, Bool.false_eq_true, if_false]
  cases io.write bytes with
  | none => rfl
  | some out =>
    simp only [Option.filter_some]
    by_cases verified : (inspectEmbeddedSvpi blake3 out true).verified = true
    · simp [verified]
    · simp [verified, failureResult]

theorem rewriteVerified_output {overwrite : Bool} {failure : String}
    {produce : EmbeddedSvpiInspection → Option Bytes}
    (done : (rewriteVerified blake3 io overwrite container failure produce).output = some file) :
    (inspectEmbeddedSvpi blake3 container true).verified = true ∧
      produce (inspectEmbeddedSvpi blake3 container true) = some file.bytes := by
  unfold rewriteVerified at done
  dsimp only at done
  split at done
  · cases done
  next verified =>
  split at done
  · cases done
  split at done
  · cases done
  split at done
  · cases done
  next temporary written =>
  split at done
  · cases done
  cases done
  obtain ⟨bytes, produced, write⟩ := Option.bind_eq_some_iff.mp written
  refine ⟨by simpa using verified, ?_⟩
  rw [produced, OutputIo.write_eq_some write]

theorem rewriteVerified_works (works : io.Works) {overwrite : Bool} {failure : String}
    {produce : EmbeddedSvpiInspection → Option Bytes}
    (verified : (inspectEmbeddedSvpi blake3 container true).verified = true)
    (produced : produce (inspectEmbeddedSvpi blake3 container true) = some file.bytes) :
    (rewriteVerified blake3 io overwrite container failure produce).output = some file := by
  unfold rewriteVerified
  simp only [verified, works.allowed, works.temporary, produced, Option.bind_some, works.write,
    works.publish, Bool.not_true, Bool.false_eq_true, if_false]

theorem sound_of_verified (verify : Bool)
    (verified : (inspectEmbeddedSvpi blake3 output true).verified = true) :
    (inspectEmbeddedSvpi blake3 output verify).containerStructureValid = true ∧
      (inspectEmbeddedSvpi blake3 output verify).container.supported = true := by
  rw [EmbeddedSvpiInspection.verified, EmbeddedSvpiInspection.hasSingleValidEmbedding,
    Bool.and_eq_true, Bool.and_eq_true, Bool.and_eq_true] at verified
  obtain ⟨⟨⟨sound, supported⟩, -⟩, -⟩ := verified
  obtain ⟨container, structure'⟩ := inspect_container blake3 output true
  obtain ⟨container', structure''⟩ := inspect_container blake3 output verify
  rw [structure', ← structure''] at sound
  rw [container, ← container'] at supported
  exact ⟨sound, supported⟩

/-- What stripping writes. -/
theorem EmbeddedParts.strip (parts : EmbeddedParts blake3 container svpi output front back part)
    (verified : (inspectEmbeddedSvpi blake3 output true).verified = true) :
    copyIsoBmffWithEmbeddingChange output.bytes (inspectEmbeddedSvpi blake3 output true).embeddings
      (scanTopLevelBoxes output).fileSize none kIsoBmffMaxCompactBoxSize (scanTopLevelBoxes output) =
      some container.bytes := by
  obtain ⟨sound, supported⟩ := sound_of_verified true verified
  obtain ⟨scanned, at_⟩ := parts.inspected sound supported
  rw [parts.containerMade.bytes]
  exact copy_strip (show output.MadeOf (front ++ ([part] ++ back)) from parts.outputMade) scanned at_

theorem verifyPayloadHash_payload (blake3 : Bytes → Blake3Digest) (bytes : Bytes) (verify : Bool) (info : EmbeddedSvpiInfo) :
    (verifyPayloadHash blake3 bytes verify info).1.payloadOffset = info.payloadOffset ∧
      (verifyPayloadHash blake3 bytes verify info).1.payloadSize = info.payloadSize := by
  unfold verifyPayloadHash
  split_ifs
  · exact ⟨rfl, rfl⟩
  · split <;> exact ⟨rfl, rfl⟩

/-- What extracting writes. -/
theorem EmbeddedParts.extract (parts : EmbeddedParts blake3 container svpi output front back part)
    (verified : (inspectEmbeddedSvpi blake3 output true).verified = true) :
    ((inspectEmbeddedSvpi blake3 output true).embeddings.head?.bind fun embedding =>
      readRange output.bytes embedding.payloadOffset embedding.payloadSize) = some svpi.bytes := by
  obtain ⟨sound, supported⟩ := sound_of_verified true verified
  obtain ⟨scanned, -⟩ := parts.inspected sound supported
  have embeddings := (inspect_embeddings blake3 sound supported).2
  rw [parts.found scanned] at embeddings
  have mem : (front.flatten.length, part) ∈ placed 0 (front ++ (part :: back)) := by
    rw [Lib.placed_append, Nat.zero_add]
    exact List.mem_append_right _ List.mem_cons_self
  have length := parts.box.length
  have within := (Lib.placed_end mem).2
  rw [Nat.zero_add, ← parts.outputMade.bytes] at within
  have bounded := output.size
  have content : slice output.bytes
      (front.flatten.length + (boxHeaderSize part + kEmbeddedSvpiEnvelopeSize)) svpi.bytes.length =
      svpi.bytes := by
    rw [parts.outputMade.bytes, Lib.slice_inside mem (by omega), parts.box.content]
  obtain ⟨offset, size⟩ := verifyPayloadHash_payload blake3 output.bytes true
    (svpiInfo front.flatten.length (boxHeaderSize part) svpi.bytes (blake3 svpi.bytes))
  rw [embeddings]
  simp only [List.head?_cons, Option.bind_some, offset, size]
  show readRange output.bytes (front.flatten.length + boxHeaderSize part + kEmbeddedSvpiEnvelopeSize)
    svpi.bytes.length = _
  rw [Nat.add_assoc, readRange, if_neg (by omega), if_pos (.inr (by omega)), content]

/-- The types in a layout are the types of its parts. -/
theorem type_of_mem_layout {start : Nat} {parts : List Bytes} {box : TopLevelBox}
    (mem : box ∈ layout start parts) : ∃ part ∈ parts, box.type = boxType part := by
  obtain ⟨placedPart, placedMem, rfl⟩ := List.mem_map.mp mem
  have inParts := List.mem_map_of_mem (f := Prod.snd) placedMem
  rw [Lib.map_snd_placed] at inParts
  exact ⟨placedPart.2, inParts, boxAt_type placedPart.1 placedPart.2⟩

theorem layoutIssue_eq_none {box : TopLevelBox} :
    layoutIssue box = none ↔ box.extendsToEof = false ∧ box.type ≠ mfroType := by
  unfold layoutIssue
  split_ifs with eof mfro
  · simp [eof]
  · simp [mfro]
  · simp [eof, mfro]

/-- Which lists of parts may be embedded into. -/
theorem validateEmbeddingLayout_parts {file : MediaFile} {parts : List Bytes}
    (made : file.MadeOf parts) (scanned : (scanTopLevelBoxes file).boxes = layout 0 parts) :
    validateEmbeddingLayout (scanTopLevelBoxes file) = none ↔
      ∀ part ∈ parts, boxType part ≠ mfroType := by
  rw [validateEmbeddingLayout, List.findSome?_eq_none_iff, scanned]
  constructor
  · intro fine part mem
    obtain ⟨front, back, split⟩ := List.append_of_mem mem
    have placedMem : (0 + front.flatten.length, part) ∈ placed 0 parts :=
      Lib.mem_placed.mpr ⟨front, back, split, rfl⟩
    have issue := layoutIssue_eq_none.mp (fine _ (List.mem_map_of_mem placedMem))
    rw [boxAt_type] at issue
    exact issue.2
  · intro fine box mem
    obtain ⟨placedPart, placedMem, rfl⟩ := List.mem_map.mp mem
    have inParts := List.mem_map_of_mem (f := Prod.snd) placedMem
    rw [Lib.map_snd_placed] at inParts
    obtain ⟨-, -, stated⟩ := (made.complete _ inParts).boxAt placedPart.1
    refine layoutIssue_eq_none.mpr ⟨stated, ?_⟩
    rw [show placedPart = (placedPart.1, placedPart.2) from rfl, boxAt_type]
    exact fine _ inParts

theorem EmbeddedParts.output_layout
    (parts : EmbeddedParts blake3 container svpi output front back part)
    (fine : validateEmbeddingLayout (scanTopLevelBoxes container) = none)
    (scanned : (scanTopLevelBoxes output).boxes = layout 0 (front ++ (part :: back))) :
    validateEmbeddingLayout (scanTopLevelBoxes output) = none := by
  rw [validateEmbeddingLayout_parts parts.containerMade parts.scanned] at fine
  rw [validateEmbeddingLayout_parts parts.outputMade scanned]
  intro other mem
  rcases List.mem_append.mp mem with inFront | inBack
  · exact fine other (List.mem_append_left _ inFront)
  rcases List.mem_cons.mp inBack with rfl | inBack
  · rw [parts.box.type]
    decide
  · exact fine other (List.mem_append_right _ inBack)

/-- The new box is no `mfra`, so the insertion point of the output is behind it. -/
theorem EmbeddedParts.output_point
    (parts : EmbeddedParts blake3 container svpi output front back part) :
    InsertionPoint (front ++ [part]) back := by
  refine ⟨fun other mem => ?_, parts.point.last⟩
  rcases List.mem_append.mp mem with inFront | isPart
  · exact parts.point.plain other inFront
  · rw [List.mem_singleton.mp isPart, parts.box.type]
    decide

/-- Embedding again writes the same parts, whichever of the two files it starts from. -/
theorem EmbeddedParts.replace {io' : OutputIo} {options' : EmbeddedSvpiWriteOptions}
    {replacement : MediaFile} (embedded : Embedded blake3 io container svpi output)
    (parts : EmbeddedParts blake3 container svpi output front back part)
    (none : (inspectEmbeddedSvpi blake3 container false).embeddings = [])
    {again : OutputIo} (works : again.Works) (works' : io'.Works)
    (replacing : options.replaceExisting = true) :
    (embedSvpiInIsoBmff blake3 again options output replacement).output =
      (embedSvpiInIsoBmff blake3 io' options' container replacement).output := by
  obtain ⟨sound, supported⟩ := sound_of_verified false embedded.verified
  obtain ⟨scanned, at_⟩ := parts.inspected sound supported
  obtain ⟨new, written⟩ := writeUuidBox_isSome (blake3 replacement.bytes) replacement.size
  have nowhere : EmbeddedAt [] front [] := rfl
  have there : front.flatten.length + [part].flatten.length = (front ++ [part]).flatten.length := by
    rw [List.flatten_append, List.length_append]
  -- The old box is left out of one copy and was never in the other.
  have fromOutput := copy_embed (show output.MadeOf (front ++ ([part] ++ back)) from parts.outputMade)
    scanned (fileSize_scan output) at_ parts.point.short rfl written
  have fromContainer := copy_embed
    (show container.MadeOf (front ++ ([] ++ back)) from parts.containerMade) parts.scanned
    (fileSize_scan container) nowhere parts.point.short rfl written
  have chosenOutput := chooseInsertionOffset_parts parts.output_point
    (by rw [parts.outputMade.bytes, List.append_assoc]; rfl)
    (by rw [scanned, List.append_assoc]; rfl)
    (inspectEmbeddedSvpi blake3 output false).embeddings
  have chosenContainer := chooseInsertionOffset_parts parts.point parts.containerMade.bytes
    parts.scanned []
  rw [there] at fromOutput
  rw [List.flatten_nil, List.length_nil, Nat.add_zero] at fromContainer
  rw [embed_output works sound supported (parts.output_layout embedded.layout scanned)
      (.inr replacing) chosenOutput fromOutput,
    embed_output works' embedded.sound embedded.supported embedded.layout (.inl none)
      (by rw [none]; exact chosenContainer) (by rw [none]; exact fromContainer),
    works.write_eq works']

/-- What stands behind the new box moves by its length and is otherwise unchanged. -/
theorem EmbeddedParts.mfra (parts : EmbeddedParts blake3 container svpi output front back part)
    (scannedOutput : (scanTopLevelBoxes output).boxes = layout 0 (front ++ (part :: back)))
    {before : List TopLevelBox} {mfra : TopLevelBox}
    (terminal : (scanTopLevelBoxes container).boxes = before ++ [mfra])
    (isMfra : mfra.type = mfraType) :
    (scanTopLevelBoxes output).boxes = layout 0 (front ++ [part]) ++
        [{ mfra with offset := mfra.offset + part.length }] ∧
      slice output.bytes (mfra.offset + part.length) mfra.size =
        slice container.bytes mfra.offset mfra.size := by
  have scanned := parts.scanned
  rw [terminal] at scanned
  obtain rfl | ⟨last, rfl, -⟩ := parts.point.last
  · -- No `mfra` stands in front, so the container would not end in one.
    have mem : mfra ∈ layout 0 (front ++ []) := by
      rw [← scanned]
      exact List.mem_append_right _ (List.mem_singleton_self _)
    obtain ⟨other, otherMem, type⟩ := type_of_mem_layout mem
    rw [List.append_nil] at otherMem
    exact absurd (type.symm.trans isMfra) (parts.point.plain other otherMem)
  rw [layout_append, Nat.zero_add] at scanned
  obtain ⟨-, same⟩ := List.append_inj' scanned rfl
  have isBox := parts.containerMade.complete last (by simp)
  obtain ⟨isOffset, isSize, -⟩ := isBox.boxAt front.flatten.length
  obtain rfl : mfra = boxAt (front.flatten.length, last) := by simpa [layout, placed] using same
  rw [isOffset, isSize]
  have moved : front.flatten.length + part.length = (front ++ [part]).flatten.length := by
    rw [List.flatten_append, List.length_append, List.flatten_singleton]
  constructor
  · rw [scannedOutput, show front ++ part :: [last] = (front ++ [part]) ++ [last] by simp,
      layout_append, Nat.zero_add, moved]
    refine congrArg (layout 0 (front ++ [part]) ++ ·) ?_
    show [boxAt ((front ++ [part]).flatten.length, last)] = _
    obtain ⟨box, read, whole, -⟩ := isBox
    simp only [boxAt, read, whole]
  · have inContainer : (front.flatten.length, last) ∈ placed 0 (front ++ [last]) :=
      Lib.mem_placed.mpr ⟨front, [], rfl, (Nat.zero_add _).symm⟩
    have inOutput : (front.flatten.length + part.length, last) ∈ placed 0 (front ++ (part :: [last])) :=
      Lib.mem_placed.mpr ⟨front ++ [part], [], by simp, by rw [moved, Nat.zero_add]⟩
    rw [parts.outputMade.bytes, parts.containerMade.bytes, Lib.slice_placed inOutput,
      Lib.slice_placed inContainer]

end Results

/-! ## The laws -/

/-- What relates embedding, stripping, extracting and replacing. -/
structure EmbeddedRoundTrip (blake3 : Bytes → Blake3Digest) (container svpi output : MediaFile) :
    Prop where
  /-- Stripping writes the container and nothing else. -/
  stripped : ∀ (io : OutputIo) (overwrite : Bool) (file : MediaFile),
    (stripEmbeddedSvpi blake3 io output overwrite).output = some file → file = container
  strips : ∀ (io : OutputIo) (overwrite : Bool), io.Works →
    (stripEmbeddedSvpi blake3 io output overwrite).output = some container
  /-- Extracting writes the package and nothing else. -/
  extracted : ∀ (io : OutputIo) (overwrite : Bool) (file : MediaFile),
    (extractEmbeddedSvpi blake3 io output overwrite).output = some file → file = svpi
  extracts : ∀ (io : OutputIo) (overwrite : Bool), io.Works →
    (extractEmbeddedSvpi blake3 io output overwrite).output = some svpi
  /-- The reader finds one embedding, and it is valid. -/
  single : (inspectEmbeddedSvpi blake3 output true).verified = true
  /-- A last `mfra` box stays last, moved by the size of the new box. -/
  terminalMfra : ∀ (before : List TopLevelBox) (mfra : TopLevelBox),
    (scanTopLevelBoxes container).boxes = before ++ [mfra] → mfra.type = mfraType →
    ∃ (before' : List TopLevelBox) (moved : Nat),
      output.bytes.length = container.bytes.length + moved ∧
      (scanTopLevelBoxes output).boxes = before' ++ [{ mfra with offset := mfra.offset + moved }] ∧
      slice output.bytes (mfra.offset + moved) mfra.size = slice container.bytes mfra.offset mfra.size
  /-- Replacing writes what embedding in the stripped container writes. -/
  replaced : ∀ (io io' : OutputIo) (options options' : EmbeddedSvpiWriteOptions)
    (replacement : MediaFile), io.Works → io'.Works → options.replaceExisting = true →
    (embedSvpiInIsoBmff blake3 io options output replacement).output =
      (embedSvpiInIsoBmff blake3 io' options' container replacement).output

theorem embeddedSvpi_roundTrip {blake3 : Bytes → Blake3Digest} {io : OutputIo}
    {options : EmbeddedSvpiWriteOptions} {container svpi output : MediaFile}
    (none : (inspectEmbeddedSvpi blake3 container false).embeddings = [])
    (done : (embedSvpiInIsoBmff blake3 io options container svpi).output = some output) :
    EmbeddedRoundTrip blake3 container svpi output := by
  have embedded := embedded_of_output done
  obtain ⟨front, back, part, parts⟩ := embeddedParts embedded none
  obtain ⟨sound, supported⟩ := sound_of_verified true embedded.verified
  obtain ⟨scanned, -⟩ := parts.inspected sound supported
  have strip := parts.strip embedded.verified
  have extract := parts.extract embedded.verified
  constructor
  case stripped =>
    intro io overwrite file written
    obtain ⟨-, produced⟩ := rewriteVerified_output written
    rw [strip] at produced
    exact MediaFile.ext_bytes (Option.some.inj produced).symm
  case strips =>
    intro io overwrite works
    exact rewriteVerified_works works embedded.verified strip
  case extracted =>
    intro io overwrite file written
    obtain ⟨-, produced⟩ := rewriteVerified_output written
    rw [extract] at produced
    exact MediaFile.ext_bytes (Option.some.inj produced).symm
  case extracts =>
    intro io overwrite works
    exact rewriteVerified_works works embedded.verified extract
  case single => exact embedded.verified
  case terminalMfra =>
    intro before mfra terminal isMfra
    obtain ⟨boxes, same⟩ := parts.mfra scanned terminal isMfra
    refine ⟨_, part.length, ?_, boxes, same⟩
    rw [parts.outputMade.bytes, parts.containerMade.bytes]
    simp only [List.flatten_append, List.flatten_cons, List.length_append]
    omega
  case replaced =>
    intro again io' options' options'' replacement works works' replacing
    exact parts.replace embedded none works works' replacing

/-- A file of two boxes, `ftyp` and a last `mfra`. -/
def sampleContainer : MediaFile where
  bytes := bigEndian 4 16 ++ ftypType ++ utf8 "isom" ++ bigEndian 4 0 ++ (bigEndian 4 8 ++ mfraType)
  size := by decide

def samplePackage : MediaFile where
  bytes := utf8 "SQL"
  size := by decide

/-- The hash of the sample package, which is all that is hashed there. -/
def samplePackageHash (_ : Bytes) : Blake3Digest where
  bytes := [29, 21, 34, 43, 153, 124, 206, 75, 55, 71, 175, 203, 44, 156, 166, 51,
    235, 64, 241, 200, 72, 54, 32, 97, 170, 237, 134, 74, 74, 140, 22, 62]
  size := rfl

def sampleIo : OutputIo where
  allowed _ := .ok ()
  temporary := .ok ()
  writes _ := true
  publish := .ok ()

theorem embeddedSvpi_roundTrip_sample : ∃ output,
    (embedSvpiInIsoBmff samplePackageHash sampleIo {} sampleContainer samplePackage).output =
        some output ∧
      EmbeddedRoundTrip samplePackageHash sampleContainer samplePackage output := by
  have done : ((embedSvpiInIsoBmff samplePackageHash sampleIo {} sampleContainer
      samplePackage).output).isSome = true := by decide
  obtain ⟨output, written⟩ := Option.isSome_iff_exists.mp done
  exact ⟨output, written, embeddedSvpi_roundTrip (by decide) written⟩

end Svp.Package
