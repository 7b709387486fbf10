import Svp.Package.EmbeddedSvpi

/-!
# Files as lists of boxes

A file whose scan is valid is its complete boxes laid end to end. Here are the
boxes of such a file that are embeddings, what an inspection finds among them,
the rules of the copying loop, and what reading a written box yields.
-/

namespace Svp.Package

open Exec (Bytes Blake3Digest utf8)
open Lib (slice placed bigEndian)

/-! ## Parts of a file -/

/-- `parts` are the complete boxes `file` is made of. -/
structure MediaFile.MadeOf (file : MediaFile) (parts : List Bytes) : Prop where
  complete : ∀ part ∈ parts, IsBox part
  bytes : file.bytes = parts.flatten

def boxType (part : Bytes) : Bytes := (boxAt (0, part)).type

def boxHeaderSize (part : Bytes) : Nat := (boxAt (0, part)).headerSize

theorem boxAt_type (offset : Nat) (part : Bytes) : (boxAt (offset, part)).type = boxType part := by
  simp only [boxType, boxAt]
  cases readTopLevelBox part 0 <;> rfl

theorem boxAt_headerSize (offset : Nat) (part : Bytes) :
    (boxAt (offset, part)).headerSize = boxHeaderSize part := by
  simp only [boxHeaderSize, boxAt]
  cases readTopLevelBox part 0 <;> rfl

/-- A `uuid` box has room for its user type before the end of its header. -/
theorem IsBox.headerSize {part : Bytes} (isBox : IsBox part) (uuid : boxType part = uuidType) :
    24 ≤ boxHeaderSize part ∧ boxHeaderSize part ≤ part.length := by
  obtain ⟨box, read, whole, stated⟩ := isBox
  have type : box.type = uuidType := by
    rw [← uuid]
    simp only [boxType, Package.boxAt, read]
  have header : boxHeaderSize part = box.headerSize := by simp only [boxHeaderSize, Package.boxAt, read]
  obtain ⟨-, -, -, _, -, -, -, base, choice, typed⟩ := (readTopLevelBox_eq_ok stated).mp read
  rw [if_pos type] at typed
  rw [header, typed.2, ← whole]
  refine ⟨?_, typed.1⟩
  obtain ⟨-, -, rfl⟩ | ⟨-, -, rfl, -⟩ := choice <;> omega

theorem readRange_placed {file : MediaFile} {parts : List Bytes} (made : file.MadeOf parts)
    {offset : Nat} {part : Bytes} (mem : (offset, part) ∈ placed 0 parts) :
    readRange file.bytes offset part.length = some part := by
  obtain ⟨-, within⟩ := Lib.placed_end mem
  rw [Nat.zero_add, ← made.bytes] at within
  have bounded := file.size
  rw [readRange, if_neg (by omega), if_pos (.inr within), made.bytes, Lib.slice_placed mem]

theorem readExactAt_placed {file : MediaFile} {parts : List Bytes} (made : file.MadeOf parts)
    {offset : Nat} {part : Bytes} (mem : (offset, part) ∈ placed 0 parts) {inner size : Nat}
    (inside : inner + size ≤ part.length) :
    readExactAt file.bytes (offset + inner) size = some (slice part inner size) := by
  obtain ⟨-, within⟩ := Lib.placed_end mem
  rw [Nat.zero_add, ← made.bytes] at within
  rw [readExactAt_of (by omega), made.bytes, Lib.slice_inside mem inside]

/-! ## Which boxes are embeddings -/

/-- The part is a `uuid` box of the transport's type. -/
def isSvpiPart (part : Bytes) : Bool :=
  boxType part == uuidType && slice part (boxHeaderSize part - 16) 16 == kEmbeddedSvpiTransportUuid

/-- Where an embedding is. -/
def EmbeddedSvpiInfo.place (info : EmbeddedSvpiInfo) : Nat × Nat := (info.boxOffset, info.boxSize)

/-- The embeddings an inspection looks at. -/
def foundEmbeddings (file : MediaFile) : List EmbeddedSvpiInfo :=
  (((scanTopLevelBoxes file).boxes.filter fun box => box.type == uuidType).map
    (parseEnvelope file.bytes)).filterMap Prod.snd

theorem checkEnvelope_place (fileSize envelopeOffset available : Nat) (envelope : Bytes)
    (info : EmbeddedSvpiInfo) :
    (checkEnvelope fileSize envelopeOffset available envelope info).2.place = info.place := by
  unfold checkEnvelope
  split_ifs <;> try rfl
  dsimp only
  split_ifs <;> rfl

theorem readEnvelope_place (file : Bytes) (box : TopLevelBox) :
    (readEnvelope file box).2.place = (box.offset, box.size) := by
  rw [readEnvelope]
  by_cases small : box.size - box.headerSize < kEmbeddedSvpiEnvelopeSize
  · rw [if_pos small]
    rfl
  rw [if_neg small]
  cases readExactAt file (box.offset + box.headerSize) kEmbeddedSvpiEnvelopeSize with
  | none => rfl
  | some envelope => exact checkEnvelope_place _ _ _ _ _

/-- The user type alone decides whether a `uuid` box is an embedding. -/
theorem parseEnvelope_uuid {file : Bytes} {box : TopLevelBox} {uuid : Bytes}
    (read : readExactAt file (box.offset + box.headerSize - 16) 16 = some uuid) :
    (parseEnvelope file box).2.map EmbeddedSvpiInfo.place =
      if uuid = kEmbeddedSvpiTransportUuid then some (box.offset, box.size) else none := by
  unfold parseEnvelope
  rw [read]
  by_cases transport : uuid = kEmbeddedSvpiTransportUuid
  · simp only [if_neg (not_not.mpr transport), if_pos transport, Option.map_some, readEnvelope_place]
  · simp only [if_pos transport, if_neg transport, Option.map_none]

theorem parseEnvelope_place {file : MediaFile} {parts : List Bytes} (made : file.MadeOf parts)
    {offset : Nat} {part : Bytes} (mem : (offset, part) ∈ placed 0 parts) (isBox : IsBox part)
    (uuid : boxType part = uuidType) :
    (parseEnvelope file.bytes (boxAt (offset, part))).2.map EmbeddedSvpiInfo.place =
      if isSvpiPart part then some (offset, part.length) else none := by
  obtain ⟨large, within⟩ := isBox.headerSize uuid
  obtain ⟨isOffset, isSize, -⟩ := isBox.boxAt offset
  have inside : offset + boxHeaderSize part - 16 = offset + (boxHeaderSize part - 16) :=
    Nat.add_sub_assoc (by omega) offset
  have read : readExactAt file.bytes
      ((boxAt (offset, part)).offset + (boxAt (offset, part)).headerSize - 16) 16 =
      some (slice part (boxHeaderSize part - 16) 16) := by
    rw [isOffset, boxAt_headerSize, inside]
    exact readExactAt_placed made mem (by omega)
  rw [parseEnvelope_uuid read, isOffset, isSize]
  refine if_congr ?_ rfl rfl
  simp only [isSvpiPart, uuid, beq_self_eq_true, Bool.true_and, beq_iff_eq]

/-- The embeddings found are the transport's boxes, wherever they stand. -/
theorem foundEmbeddings_place {file : MediaFile} {parts : List Bytes} (made : file.MadeOf parts)
    (scanned : (scanTopLevelBoxes file).boxes = layout 0 parts) :
    (foundEmbeddings file).map EmbeddedSvpiInfo.place =
      ((placed 0 parts).filter fun placedPart => isSvpiPart placedPart.2).map
        fun placedPart => (placedPart.1, placedPart.2.length) := by
  have each : ∀ l : List (Nat × Bytes), (∀ x ∈ l, x ∈ placed 0 parts ∧ IsBox x.2) →
      ((((l.map boxAt).filter fun box => box.type == uuidType).map
        (parseEnvelope file.bytes)).filterMap Prod.snd).map EmbeddedSvpiInfo.place =
      (l.filter fun placedPart => isSvpiPart placedPart.2).map
        fun placedPart => (placedPart.1, placedPart.2.length) := by
    intro l ok
    induction l with
    | nil => rfl
    | cons first rest ih =>
      obtain ⟨offset, part⟩ := first
      obtain ⟨mem, isBox⟩ := ok (offset, part) List.mem_cons_self
      have tail := ih fun x rest => ok x (List.mem_cons_of_mem _ rest)
      rw [List.map_cons, List.filter_cons, List.filter_cons, boxAt_type]
      by_cases uuid : boxType part = uuidType
      · have place := parseEnvelope_place made mem isBox uuid
        rw [if_pos (by simpa using uuid), List.map_cons, List.filterMap_cons]
        cases found : (parseEnvelope file.bytes (boxAt (offset, part))).2 with
        | none =>
          rw [found] at place
          have no : isSvpiPart part = false := by
            by_contra yes
            rw [if_pos (by simpa using yes)] at place
            cases place
          simp only [no, Bool.false_eq_true, if_false]
          exact tail
        | some info =>
          rw [found] at place
          have yes : isSvpiPart part = true := by
            by_contra no
            rw [if_neg no] at place
            cases place
          rw [if_pos yes] at place
          simp only [yes, if_true, List.map_cons]
          rw [tail]
          exact congrArg₂ List.cons (Option.some.inj place) rfl
      · have no : isSvpiPart part = false := by simp [isSvpiPart, uuid]
        rw [if_neg (by simpa using uuid), no]
        exact tail
  have all := each (placed 0 parts) fun x mem => by
    obtain ⟨front, back, split, -⟩ := Lib.mem_placed.mp (show (x.1, x.2) ∈ placed 0 parts from mem)
    exact ⟨mem, made.complete x.2 (by rw [split]; simp)⟩
  rw [foundEmbeddings, scanned]
  exact all

/-! ## Inspections -/

theorem readFtyp_signaturePresent (file : Bytes) (ftyp : TopLevelBox) :
    (readFtyp file ftyp).signaturePresent = true := by
  unfold readFtyp
  split_ifs
  · rfl
  · rfl
  cases readExactAt file (ftyp.offset + ftyp.headerSize) 8 with
  | none => rfl
  | some fixed =>
    dsimp only
    split_ifs
    · rfl
    cases readBrands file (ftyp.offset + ftyp.headerSize + 8) _ with
    | none => rfl
    | some brands =>
      dsimp only
      split_ifs <;> rfl

theorem classify_structureValid {file : MediaFile} {scan : TopLevelScan}
    (valid : (classifyIsoBmffContainer file scan).structureValid = true) :
    (classifyIsoBmffContainer file scan).signaturePresent = true ∧ scan.valid = true := by
  unfold classifyIsoBmffContainer at valid ⊢
  cases read : readExactAt file.bytes 0 8 with
  | none =>
    rw [read] at valid
    cases valid
  | some header =>
    simp only [read] at valid ⊢
    by_cases signature : header.drop 4 = ftypType
    · rw [if_neg (not_not.mpr signature)] at valid ⊢
      cases scanned : scan.valid with
      | false =>
        rw [scanned] at valid
        cases valid
      | true =>
        simp only [Bool.not_true, Bool.false_eq_true, if_false, and_true]
        cases scan.boxes with
        | nil => rfl
        | cons ftyp rest => exact readFtyp_signaturePresent _ _
    · rw [if_pos signature] at valid
      cases valid

section Hash

variable (blake3 : Bytes → Blake3Digest)

theorem inspect_container (file : MediaFile) (verify : Bool) :
    (inspectEmbeddedSvpi blake3 file verify).container =
        classifyIsoBmffContainer file (scanTopLevelBoxes file) ∧
      (inspectEmbeddedSvpi blake3 file verify).containerStructureValid =
        (classifyIsoBmffContainer file (scanTopLevelBoxes file)).structureValid := by
  unfold inspectEmbeddedSvpi
  dsimp only
  split_ifs
  · exact ⟨rfl, rfl⟩
  · exact ⟨rfl, rfl⟩
  · exact ⟨rfl, rfl⟩
  · split <;> exact ⟨rfl, rfl⟩

theorem verifyPayloadHash_place (file : Bytes) (verify : Bool) (info : EmbeddedSvpiInfo) :
    (verifyPayloadHash blake3 file verify info).1.place = info.place := by
  unfold verifyPayloadHash
  split_ifs
  · rfl
  · split <;> rfl

/-- The embeddings an inspection of a sound container reports. -/
theorem inspect_embeddings {file : MediaFile} {verify : Bool}
    (sound : (inspectEmbeddedSvpi blake3 file verify).containerStructureValid = true)
    (supported : (inspectEmbeddedSvpi blake3 file verify).container.supported = true) :
    (scanTopLevelBoxes file).valid = true ∧
      (inspectEmbeddedSvpi blake3 file verify).embeddings =
        match foundEmbeddings file with
        | [info] => [(verifyPayloadHash blake3 file.bytes verify info).1]
        | found => found := by
  obtain ⟨container, structure'⟩ := inspect_container blake3 file verify
  rw [structure'] at sound
  rw [container] at supported
  obtain ⟨signature, valid⟩ := classify_structureValid sound
  refine ⟨valid, ?_⟩
  unfold inspectEmbeddedSvpi foundEmbeddings
  simp only [signature, valid, supported, Bool.not_true, Bool.false_eq_true, if_false]
  split
  · next none => rw [none]
  · next info single => rw [single]
  · next first second rest many => rw [many]

theorem inspect_places {file : MediaFile} {verify : Bool}
    (sound : (inspectEmbeddedSvpi blake3 file verify).containerStructureValid = true)
    (supported : (inspectEmbeddedSvpi blake3 file verify).container.supported = true) :
    (inspectEmbeddedSvpi blake3 file verify).embeddings.map EmbeddedSvpiInfo.place =
      (foundEmbeddings file).map EmbeddedSvpiInfo.place := by
  rw [(inspect_embeddings blake3 sound supported).2]
  match foundEmbeddings file with
  | [] => rfl
  | [info] => exact congrArg (fun place => [place]) (verifyPayloadHash_place blake3 _ _ _)
  | first :: second :: rest => rfl

end Hash

/-! ## The copying loop -/

theorem isEmbeddingBox_iff {embeddings : List EmbeddedSvpiInfo} {box : TopLevelBox} :
    isEmbeddingBox embeddings box = true ↔
      (box.offset, box.size) ∈ embeddings.map EmbeddedSvpiInfo.place := by
  simp [isEmbeddingBox, EmbeddedSvpiInfo.place]

section Copy

variable {file : Bytes} {embeddings : List EmbeddedSvpiInfo} {insertionOffset : Nat}
  {svpi : Option (Bytes × Blake3Digest)} {limit : Nat} {box : TopLevelBox}
  {rest : List TopLevelBox} {inserted : Bool} {output part : Bytes}

/-- A box that is neither an embedding nor at the insertion offset is copied. -/
theorem copyBoxes_kept (kept : isEmbeddingBox embeddings box = false)
    (quiet : svpi = none ∨ inserted = true ∨ box.offset ≠ insertionOffset)
    (read : readRange file box.offset box.size = some part) :
    copyBoxes file embeddings insertionOffset svpi limit (box :: rest) inserted output =
      copyBoxes file embeddings insertionOffset svpi limit rest inserted (output ++ part) := by
  cases svpi with
  | none =>
    rw [copyBoxes, kept, read]
    rfl
  | some package =>
    rw [copyBoxes, kept, read]
    have skip : (!inserted && box.offset == insertionOffset) = false := by
      rcases quiet with none | done | elsewhere
      · cases none
      · rw [done]
        rfl
      · rw [beq_eq_false_iff_ne.mpr elsewhere, Bool.and_false]
    simp only [skip]
    rfl

theorem copyBoxes_removed (removed : isEmbeddingBox embeddings box = true)
    (quiet : svpi = none ∨ box.offset ≠ insertionOffset) :
    copyBoxes file embeddings insertionOffset svpi limit (box :: rest) inserted output =
      copyBoxes file embeddings insertionOffset svpi limit rest inserted output := by
  cases svpi with
  | none =>
    rw [copyBoxes, removed]
    rfl
  | some package =>
    rw [copyBoxes, removed]
    have skip : (!inserted && box.offset == insertionOffset) = false := by
      rcases quiet with none | elsewhere
      · cases none
      · rw [beq_eq_false_iff_ne.mpr elsewhere, Bool.and_false]
    simp only [skip]
    rfl

/-- The new box goes before the box at the insertion offset. -/
theorem copyBoxes_insert {payload written : Bytes} {payloadHash : Blake3Digest}
    (kept : isEmbeddingBox embeddings box = false) (here : box.offset = insertionOffset)
    (new : writeUuidBox payload payloadHash limit = some written)
    (read : readRange file box.offset box.size = some part) :
    copyBoxes file embeddings insertionOffset (some (payload, payloadHash)) limit (box :: rest) false
        output =
      copyBoxes file embeddings insertionOffset (some (payload, payloadHash)) limit rest true
        (output ++ written ++ part) := by
  rw [copyBoxes, kept, read, here]
  simp only [Bool.not_false, beq_self_eq_true, Bool.and_self, if_true, new]
  rfl

end Copy

/-! ## The box that is written -/

theorem length_uuidType : uuidType.length = 4 := by decide

theorem length_transportUuid : kEmbeddedSvpiTransportUuid.length = 16 := by decide

theorem length_makeEnvelope (payloadSize : Nat) (payloadHash : Blake3Digest) :
    (makeEnvelope payloadSize payloadHash).length = kEmbeddedSvpiEnvelopeSize := by
  simp [makeEnvelope, payloadHash.size, kEmbeddedSvpiEnvelopeMagic, kEmbeddedSvpiEnvelopeSize,
    Exec.kBlake3DigestBytes]

/-- What a written box is. -/
structure SvpiBox (payload : Bytes) (payloadHash : Blake3Digest) (part : Bytes) : Prop where
  isBox : IsBox part
  type : boxType part = uuidType
  uuid : slice part (boxHeaderSize part - 16) 16 = kEmbeddedSvpiTransportUuid
  length : part.length = boxHeaderSize part + kEmbeddedSvpiEnvelopeSize + payload.length
  envelope : slice part (boxHeaderSize part) kEmbeddedSvpiEnvelopeSize =
    makeEnvelope payload.length payloadHash
  content : slice part (boxHeaderSize part + kEmbeddedSvpiEnvelopeSize) payload.length = payload

theorem readBe32_bigEndian {value : Nat} (fits : value < 2 ^ 32) (rest : Bytes) :
    readBe32 (bigEndian 4 value ++ rest) = value := by
  rw [readBe32, List.take_left' (Lib.length_bigEndian 4 value)]
  exact Lib.ofBigEndian_bigEndian fits

theorem readBe64_bigEndian {value : Nat} (fits : value < 2 ^ 64) (rest : Bytes) :
    readBe64 (bigEndian 8 value ++ rest) = value := by
  rw [readBe64, List.take_left' (Lib.length_bigEndian 8 value)]
  exact Lib.ofBigEndian_bigEndian fits

theorem drop_bigEndian_uuidType (value : Nat) : (bigEndian 4 value ++ uuidType).drop 4 = uuidType :=
  List.drop_left' (Lib.length_bigEndian 4 value)

/-- The box described by a written header. -/
def uuidBox (size headerSize : Nat) : TopLevelBox where
  offset := 0
  size := size
  headerSize := headerSize
  type := uuidType
  extendsToEof := false

/-- A part that reads as the written box, with its header, envelope and content laid
end to end. -/
theorem svpiBox_of_read {payload part lead : Bytes} {payloadHash : Blake3Digest}
    (read : readTopLevelBox part 0 = .ok (uuidBox part.length (lead.length + 16)))
    (whole : part = lead ++ (kEmbeddedSvpiTransportUuid ++
      (makeEnvelope payload.length payloadHash ++ payload))) :
    SvpiBox payload payloadHash part := by
  have header : boxHeaderSize part = lead.length + 16 := by
    simp only [boxHeaderSize, boxAt, read]
    rfl
  have uuid := Lib.slice_whole lead kEmbeddedSvpiTransportUuid
    (makeEnvelope payload.length payloadHash ++ payload)
  have envelope := Lib.slice_whole (lead ++ kEmbeddedSvpiTransportUuid)
    (makeEnvelope payload.length payloadHash) payload
  have content := Lib.slice_whole
    (lead ++ (kEmbeddedSvpiTransportUuid ++ makeEnvelope payload.length payloadHash)) payload []
  rw [List.append_assoc, ← whole, List.length_append, length_transportUuid, length_makeEnvelope]
    at envelope
  rw [← whole, length_transportUuid] at uuid
  rw [List.append_nil, List.append_assoc, List.append_assoc, ← whole, List.length_append,
    List.length_append, length_transportUuid, length_makeEnvelope, ← Nat.add_assoc] at content
  refine ⟨⟨_, read, rfl, rfl⟩, ?_, ?_, ?_, ?_, ?_⟩
  · simp only [boxType, boxAt, read]
    rfl
  · rw [header, Nat.add_sub_cancel]
    exact uuid
  · rw [header, whole]
    simp only [List.length_append, length_transportUuid, length_makeEnvelope]
    omega
  · rw [header]
    exact envelope
  · rw [header]
    exact content

/-- A size field of four bytes. -/
theorem readTopLevelBox_compact (size : Nat) (rest : Bytes)
    (whole : size = 24 + rest.length) (fits : size < 2 ^ 32) :
    readTopLevelBox (bigEndian 4 size ++ uuidType ++ (kEmbeddedSvpiTransportUuid ++ rest)) 0 =
      .ok (uuidBox size 24) := by
  have length : (bigEndian 4 size ++ uuidType ++ (kEmbeddedSvpiTransportUuid ++ rest)).length =
      size := by
    simp only [List.length_append, Lib.length_bigEndian, length_uuidType, length_transportUuid]
    omega
  have header : slice (bigEndian 4 size ++ uuidType ++ (kEmbeddedSvpiTransportUuid ++ rest)) 0 8 =
      bigEndian 4 size ++ uuidType := by
    have lead := Lib.slice_whole [] (bigEndian 4 size ++ uuidType) (kEmbeddedSvpiTransportUuid ++ rest)
    rwa [List.nil_append, List.length_append, Lib.length_bigEndian, length_uuidType] at lead
  refine (readTopLevelBox_eq_ok rfl).mpr ⟨rfl, ?_, ?_, bigEndian 4 size ++ uuidType, ?_, ?_⟩
  · show 0 + size ≤ kMaxU64
    simp only [kMaxU64]
    omega
  · show 0 + size ≤ _
    rw [length, Nat.zero_add]
  · exact readExactAt_eq_some.mpr ⟨by decide, by decide, by omega, header⟩
  · refine ⟨rfl, (drop_bigEndian_uuidType size).symm, 8, .inl ⟨?_, ?_, rfl⟩, ?_⟩
    · rw [readBe32_bigEndian fits]
      omega
    · rw [readBe32_bigEndian fits]
      rfl
    · rw [if_pos (show (uuidBox size 24).type = uuidType from rfl)]
      refine ⟨?_, rfl⟩
      show 8 + 16 ≤ size
      omega

/-- The size in eight bytes after the type. -/
theorem readTopLevelBox_extended (size : Nat) (rest : Bytes)
    (whole : size = 32 + rest.length) (fits : size ≤ kMaxU64) :
    readTopLevelBox (bigEndian 4 1 ++ uuidType ++ (bigEndian 8 size ++
      (kEmbeddedSvpiTransportUuid ++ rest))) 0 = .ok (uuidBox size 32) := by
  have width : size < 2 ^ 64 := by
    simp only [kMaxU64] at fits
    omega
  have length : (bigEndian 4 1 ++ uuidType ++ (bigEndian 8 size ++
      (kEmbeddedSvpiTransportUuid ++ rest))).length = size := by
    simp only [List.length_append, Lib.length_bigEndian, length_uuidType, length_transportUuid]
    omega
  have header : slice (bigEndian 4 1 ++ uuidType ++ (bigEndian 8 size ++
      (kEmbeddedSvpiTransportUuid ++ rest))) 0 8 = bigEndian 4 1 ++ uuidType := by
    have lead := Lib.slice_whole [] (bigEndian 4 1 ++ uuidType)
      (bigEndian 8 size ++ (kEmbeddedSvpiTransportUuid ++ rest))
    rwa [List.nil_append, List.length_append, Lib.length_bigEndian, length_uuidType] at lead
  have extended : slice (bigEndian 4 1 ++ uuidType ++ (bigEndian 8 size ++
      (kEmbeddedSvpiTransportUuid ++ rest))) 8 8 = bigEndian 8 size := by
    have lead := Lib.slice_whole (bigEndian 4 1 ++ uuidType) (bigEndian 8 size)
      (kEmbeddedSvpiTransportUuid ++ rest)
    rwa [List.length_append, Lib.length_bigEndian, Lib.length_bigEndian, length_uuidType] at lead
  refine (readTopLevelBox_eq_ok rfl).mpr ⟨rfl, ?_, ?_, bigEndian 4 1 ++ uuidType, ?_, ?_⟩
  · show 0 + size ≤ kMaxU64
    rwa [Nat.zero_add]
  · show 0 + size ≤ _
    rw [length, Nat.zero_add]
  · exact readExactAt_eq_some.mpr ⟨by decide, by decide, by omega, header⟩
  · refine ⟨rfl, (drop_bigEndian_uuidType 1).symm, 16, .inr ⟨?_, ?_, rfl, bigEndian 8 size, ?_, ?_⟩, ?_⟩
    · exact readBe32_bigEndian (by decide) _
    · show 16 ≤ size
      omega
    · exact readExactAt_eq_some.mpr ⟨by decide, by decide, by omega, extended⟩
    · have read := readBe64_bigEndian width []
      rw [List.append_nil] at read
      exact read.symm
    · rw [if_pos (show (uuidBox size 32).type = uuidType from rfl)]
      refine ⟨?_, rfl⟩
      show 16 + 16 ≤ size
      omega

theorem svpiBox_of_write {payload part : Bytes} {payloadHash : Blake3Digest}
    (written : writeUuidBox payload payloadHash kIsoBmffMaxCompactBoxSize = some part) :
    SvpiBox payload payloadHash part := by
  obtain ⟨header, made, same⟩ := Option.bind_eq_some_iff.mp written
  obtain rfl : header ++ (makeEnvelope payload.length payloadHash ++ payload) = part := by
    simpa [pure] using same
  have rest : (makeEnvelope payload.length payloadHash ++ payload).length =
      64 + payload.length := by
    rw [List.length_append, length_makeEnvelope]
    rfl
  unfold makeSvpiUuidBoxHeader at made
  simp only [kIsoBmffMaxCompactBoxSize, kEmbeddedSvpiEnvelopeSize, min_self] at made
  split_ifs at made with large overflow overflow
  · cases made
    have read := readTopLevelBox_extended (32 + 64 + payload.length)
      (makeEnvelope payload.length payloadHash ++ payload) (by omega) (by omega)
    have lead : (bigEndian 4 1 ++ uuidType ++ bigEndian 8 (32 + 64 + payload.length)).length = 16 := by
      simp only [List.length_append, Lib.length_bigEndian, length_uuidType]
    rw [List.append_assoc _ kEmbeddedSvpiTransportUuid]
    refine svpiBox_of_read ?_ rfl
    have length : (bigEndian 4 1 ++ uuidType ++ bigEndian 8 (32 + 64 + payload.length) ++
        (kEmbeddedSvpiTransportUuid ++ (makeEnvelope payload.length payloadHash ++ payload))).length =
        32 + 64 + payload.length := by
      rw [List.length_append, lead, List.length_append, length_transportUuid, rest]
      omega
    rw [length, lead]
    rw [← List.append_assoc (bigEndian 4 1 ++ uuidType)] at read
    exact read
  · cases made
    have read := readTopLevelBox_compact (24 + 64 + payload.length)
      (makeEnvelope payload.length payloadHash ++ payload) (by omega) (by omega)
    have lead : (bigEndian 4 (24 + 64 + payload.length) ++ uuidType).length = 8 := by
      simp only [List.length_append, Lib.length_bigEndian, length_uuidType]
    rw [List.append_assoc _ kEmbeddedSvpiTransportUuid]
    refine svpiBox_of_read ?_ rfl
    have length : (bigEndian 4 (24 + 64 + payload.length) ++ uuidType ++
        (kEmbeddedSvpiTransportUuid ++ (makeEnvelope payload.length payloadHash ++ payload))).length =
        24 + 64 + payload.length := by
      rw [List.length_append, lead, List.length_append, length_transportUuid, rest]
      omega
    rw [length, lead]
    exact read

/-- The fields of a written envelope, each at its offset. -/
def envelopeFields (payloadSize : Nat) (payloadHash : Blake3Digest) : List (Nat × Bytes) :=
  [(0, kEmbeddedSvpiEnvelopeMagic), (8, bigEndian 2 kEmbeddedSvpiProfileVersion),
    (10, bigEndian 2 kEmbeddedSvpiEnvelopeSize), (12, bigEndian 4 0), (16, bigEndian 8 payloadSize),
    (24, payloadHash.bytes), (56, List.replicate 8 0)]

theorem makeEnvelope_slice (payloadSize : Nat) (payloadHash : Blake3Digest) {offset : Nat}
    {field : Bytes} (mem : (offset, field) ∈ envelopeFields payloadSize payloadHash) :
    slice (makeEnvelope payloadSize payloadHash) offset field.length = field := by
  have fields : placed 0 ((envelopeFields payloadSize payloadHash).map Prod.snd) =
      envelopeFields payloadSize payloadHash := by
    simp [envelopeFields, placed, kEmbeddedSvpiEnvelopeMagic, payloadHash.size,
      Exec.kBlake3DigestBytes]
  have whole : makeEnvelope payloadSize payloadHash =
      ((envelopeFields payloadSize payloadHash).map Prod.snd).flatten := by
    simp [makeEnvelope, envelopeFields, List.append_assoc]
  rw [whole]
  rw [← fields] at mem
  exact Lib.slice_placed mem

/-- What reading a written box in its file yields. -/
def svpiInfo (offset headerSize : Nat) (payload : Bytes) (payloadHash : Blake3Digest) :
    EmbeddedSvpiInfo where
  profileVersion := kEmbeddedSvpiProfileVersion
  envelopeSize := kEmbeddedSvpiEnvelopeSize
  flags := 0
  boxOffset := offset
  boxSize := headerSize + kEmbeddedSvpiEnvelopeSize + payload.length
  payloadOffset := offset + headerSize + kEmbeddedSvpiEnvelopeSize
  payloadSize := payload.length
  expectedHash := payloadHash.bytes
  envelopeValid := true

/-- A written envelope passes every check. -/
theorem checkEnvelope_make {fileSize envelopeOffset : Nat} {payload : Bytes}
    {payloadHash : Blake3Digest} {info : EmbeddedSvpiInfo}
    (inside : envelopeOffset + kEmbeddedSvpiEnvelopeSize + payload.length ≤ fileSize)
    (version : info.profileVersion = kEmbeddedSvpiProfileVersion)
    (size : info.envelopeSize = kEmbeddedSvpiEnvelopeSize) (flags : info.flags = 0)
    (payloadSize : info.payloadSize = payload.length) :
    checkEnvelope fileSize envelopeOffset (kEmbeddedSvpiEnvelopeSize + payload.length)
        (makeEnvelope payload.length payloadHash) info =
      ([], { info with
        payloadOffset := envelopeOffset + kEmbeddedSvpiEnvelopeSize, envelopeValid := true }) := by
  have magic : (makeEnvelope payload.length payloadHash).take 8 = kEmbeddedSvpiEnvelopeMagic :=
    makeEnvelope_slice _ _ (show (0, kEmbeddedSvpiEnvelopeMagic) ∈ _ by simp [envelopeFields])
  have reserved : (makeEnvelope payload.length payloadHash).drop 56 = List.replicate 8 0 := by
    have field := makeEnvelope_slice payload.length payloadHash
      (show (56, List.replicate 8 0) ∈ _ by simp [envelopeFields])
    rwa [slice, List.take_of_length_le] at field
    rw [List.length_drop, length_makeEnvelope]
    simp [kEmbeddedSvpiEnvelopeSize]
  have zero : ((List.replicate 8 0 : Bytes).any (· ≠ 0)) = false := by decide
  unfold checkEnvelope
  rw [magic, reserved, zero]
  simp only [ne_eq, not_true_eq_false, if_false, version, size, flags, payloadSize,
    Nat.add_sub_cancel_left, Bool.false_eq_true]
  rw [if_neg (by omega)]

/-- A written box is read back where it stands. -/
theorem readEnvelope_svpiBox {file : MediaFile} {parts : List Bytes} (made : file.MadeOf parts)
    {offset : Nat} {part payload : Bytes} {payloadHash : Blake3Digest}
    (mem : (offset, part) ∈ placed 0 parts) (written : SvpiBox payload payloadHash part)
    (small : payload.length ≤ kMaxStreamOffset) :
    readEnvelope file.bytes (boxAt (offset, part)) =
      ([], svpiInfo offset (boxHeaderSize part) payload payloadHash) := by
  obtain ⟨isOffset, isSize, -⟩ := written.isBox.boxAt offset
  have length := written.length
  have within := (Lib.placed_end mem).2
  rw [Nat.zero_add, ← made.bytes] at within
  have width : payload.length < 2 ^ 64 := by
    simp only [kMaxStreamOffset] at small
    omega
  have read : readExactAt file.bytes (offset + boxHeaderSize part) kEmbeddedSvpiEnvelopeSize =
      some (makeEnvelope payload.length payloadHash) := by
    rw [readExactAt_placed made mem (by omega), written.envelope]
  have field16 : ∀ at_ value, (at_, bigEndian 2 value) ∈ envelopeFields payload.length payloadHash →
      value < 2 ^ 16 → readBe16 ((makeEnvelope payload.length payloadHash).drop at_) = value := by
    intro at_ value field fits
    have found := makeEnvelope_slice payload.length payloadHash field
    rw [Lib.length_bigEndian, slice] at found
    rw [readBe16, found]
    exact Lib.ofBigEndian_bigEndian fits
  have version := field16 8 kEmbeddedSvpiProfileVersion (by simp [envelopeFields]) (by decide)
  have envelopeSize := field16 10 kEmbeddedSvpiEnvelopeSize (by simp [envelopeFields]) (by decide)
  have flags : readBe32 ((makeEnvelope payload.length payloadHash).drop 12) = 0 := by
    have found := makeEnvelope_slice payload.length payloadHash
      (show (12, bigEndian 4 0) ∈ _ by simp [envelopeFields])
    rw [Lib.length_bigEndian, slice] at found
    rw [readBe32, found]
    exact Lib.ofBigEndian_bigEndian (by decide)
  have size : readBe64 ((makeEnvelope payload.length payloadHash).drop 16) = payload.length := by
    have found := makeEnvelope_slice payload.length payloadHash
      (show (16, bigEndian 8 payload.length) ∈ _ by simp [envelopeFields])
    rw [Lib.length_bigEndian, slice] at found
    rw [readBe64, found]
    exact Lib.ofBigEndian_bigEndian width
  have hash : slice (makeEnvelope payload.length payloadHash) 24 32 = payloadHash.bytes := by
    have found := makeEnvelope_slice payload.length payloadHash
      (show (24, payloadHash.bytes) ∈ _ by simp [envelopeFields])
    rwa [payloadHash.size] at found
  have available : part.length - boxHeaderSize part = kEmbeddedSvpiEnvelopeSize + payload.length := by
    omega
  unfold readEnvelope
  rw [isOffset, isSize, boxAt_headerSize]
  dsimp only
  rw [available, if_neg (by omega), read]
  dsimp only
  rw [version, envelopeSize, flags, size, hash, checkEnvelope_make (by omega) rfl rfl rfl rfl, length]
  rfl

end Svp.Package
