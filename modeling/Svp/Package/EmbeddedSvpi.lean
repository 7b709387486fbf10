import Svp.Package.TopLevelBoxes

/-!
# SVPI packages embedded in ISO BMFF files

An SVPI package travels in one top-level `uuid` box of a media file: the box
header, a 64-byte envelope with the package's size and BLAKE3, the package. The
operations are `inspectEmbeddedSvpi`, `embedSvpiInIsoBmff`, `extractEmbeddedSvpi`
and `stripEmbeddedSvpi`; what the file system decides about an output is an
`OutputIo`.
-/

namespace Svp.Package

open Exec (Bytes Blake3Digest utf8)
open Lib (slice bigEndian)

/-! ## The container -/

inductive IsoBmffContainerKind
  | unknown
  | mp4
  | quicktime
  | m4v
  | m4a
  | unsupportedDerivative
deriving DecidableEq

structure IsoBmffContainerInfo where
  signaturePresent : Bool := false
  structureValid : Bool := false
  supported : Bool := false
  kind : IsoBmffContainerKind := .unknown
  majorBrand : Bytes := []
  minorVersion : Nat := 0
  compatibleBrands : List Bytes := []
  diagnostic : String := ""
deriving DecidableEq

def kMaximumCompatibleBrands : Nat := 64

def hasBrand (info : IsoBmffContainerInfo) (brand : String) : Bool :=
  info.majorBrand == utf8 brand || info.compatibleBrands.contains (utf8 brand)

def kIsoBrands : List String :=
  ["isom", "iso2", "iso3", "iso4", "iso5", "iso6", "iso7", "iso8", "iso9"]

def isIsoBrand (brand : Bytes) : Bool := kIsoBrands.any fun name => brand == utf8 name

def classifyBrand (info : IsoBmffContainerInfo) : IsoBmffContainerKind :=
  if hasBrand info "qt  " then .quicktime
  else if ["M4A ", "M4B ", "M4P "].any (hasBrand info) then .m4a
  else if ["M4V ", "M4VH", "M4VP"].any (hasBrand info) then .m4v
  else if isIsoBrand info.majorBrand || info.compatibleBrands.any isIsoBrand then .mp4
  else if ["mp41", "mp42", "avc1", "dash", "cmfc", "cmfs"].any (hasBrand info) then .mp4
  else .unsupportedDerivative

/-- Reads the compatible brands one after another. -/
def readBrands (file : Bytes) (offset : Nat) : Nat → Option (List Bytes)
  | 0 => some []
  | count + 1 => do
    let brand ← readExactAt file offset 4
    return brand :: (← readBrands file (offset + 4) count)

/-- The brands of the `ftyp` box of a file whose signature is there. -/
def readFtyp (file : Bytes) (ftyp : TopLevelBox) : IsoBmffContainerInfo :=
  if ftyp.type ≠ ftypType then
    { signaturePresent := true
      diagnostic := "The ftyp box could not be resolved from the top-level structure." }
  else if ftyp.size < ftyp.headerSize + 8 ∨ (ftyp.size - ftyp.headerSize - 8) % 4 ≠ 0 then
    { signaturePresent := true, diagnostic := "The ftyp box has an invalid brand table size." }
  else
    match readExactAt file (ftyp.offset + ftyp.headerSize) 8 with
    | none =>
      { signaturePresent := true
        diagnostic := "Unable to read the ftyp major brand and minor version." }
    | some fixed =>
      let compatibleCount := (ftyp.size - ftyp.headerSize - 8) / 4
      let majorBrand := fixed.take 4
      let minorVersion := readBe32 (fixed.drop 4)
      if kMaximumCompatibleBrands < compatibleCount then
        { signaturePresent := true, majorBrand, minorVersion
          diagnostic := "The ftyp compatible-brand table exceeds the supported bound." }
      else
        match readBrands file (ftyp.offset + ftyp.headerSize + 8) compatibleCount with
        | none =>
          { signaturePresent := true, majorBrand, minorVersion
            diagnostic := "Unable to read the complete ftyp brand table." }
        | some compatibleBrands =>
          let info : IsoBmffContainerInfo :=
            { signaturePresent := true, structureValid := true, majorBrand, minorVersion
              compatibleBrands }
          let kind := classifyBrand info
          if kind = .unsupportedDerivative then
            { info with
              kind
              diagnostic := "The ISO BMFF brand family is not supported for SVPI embedding." }
          else { info with kind, supported := true }

def classifyIsoBmffContainer (file : MediaFile) (scan : TopLevelScan) : IsoBmffContainerInfo :=
  match readExactAt file.bytes 0 8 with
  | none => { diagnostic := "The first top-level box is not ftyp." }
  | some signature =>
    if signature.drop 4 ≠ ftypType then { diagnostic := "The first top-level box is not ftyp." }
    else if !scan.valid then
      { signaturePresent := true, diagnostic := "Malformed top-level ISO BMFF box structure." }
    else
      match scan.boxes with
      | [] =>
        { signaturePresent := true
          diagnostic := "The ftyp box could not be resolved from the top-level structure." }
      | ftyp :: _ => readFtyp file.bytes ftyp

/-! ## The envelope -/

def kEmbeddedSvpiTransportUuid : Bytes :=
  [0xe2, 0xb6, 0xa2, 0x3c, 0x22, 0xca, 0x56, 0x36, 0xb1, 0x65, 0x99, 0x12, 0x08, 0xc8, 0x37, 0xf1]

def kEmbeddedSvpiEnvelopeMagic : Bytes := [0x53, 0x56, 0x50, 0x49, 0x4D, 0x50, 0x34, 0]

def kEmbeddedSvpiProfileVersion : Nat := 1

def kEmbeddedSvpiEnvelopeSize : Nat := 64

def kIsoBmffMaxCompactBoxSize : Nat := 0xffffffff

structure EmbeddedSvpiInfo where
  profileVersion : Nat := 0
  envelopeSize : Nat := 0
  flags : Nat := 0
  boxOffset : Nat
  boxSize : Nat
  payloadOffset : Nat := 0
  payloadSize : Nat := 0
  expectedHash : Bytes := List.replicate 32 0
  actualHash : Bytes := List.replicate 32 0
  envelopeValid : Bool := false
  hashVerified : Bool := false
  hashMatches : Bool := false
deriving DecidableEq

def readBe16 (bytes : Bytes) : Nat := Lib.ofBigEndian (bytes.take 2)

/-- The checks of an envelope that was read; no flag is supported. -/
def checkEnvelope (fileSize envelopeOffset available : Nat) (envelope : Bytes)
    (info : EmbeddedSvpiInfo) : List EmbeddedSvpiIssue × EmbeddedSvpiInfo :=
  if envelope.take 8 ≠ kEmbeddedSvpiEnvelopeMagic then
    ([⟨.invalidEnvelopeMagic, envelopeOffset, "SVPI embedding envelope magic is invalid."⟩], info)
  else if info.profileVersion ≠ kEmbeddedSvpiProfileVersion then
    ([⟨.unsupportedProfileVersion, envelopeOffset + 8,
      "Unsupported Embedded SVPI Transport profile version."⟩], info)
  else if info.envelopeSize ≠ kEmbeddedSvpiEnvelopeSize then
    ([⟨.invalidEnvelopeSize, envelopeOffset + 10,
      "Version 1 SVPI embedding envelope size must be 64 bytes."⟩], info)
  else if info.flags ≠ 0 then
    ([⟨.unsupportedFlags, envelopeOffset + 12,
      "SVPI embedding envelope contains unsupported flags."⟩], info)
  else if (envelope.drop 56).any (· ≠ 0) then
    ([⟨.unsupportedFlags, envelopeOffset + 56,
      "Version 1 SVPI embedding reserved bytes must be zero."⟩], info)
  else
    let payloadOffset := envelopeOffset + info.envelopeSize
    let info := { info with payloadOffset }
    if info.payloadSize ≠ available - info.envelopeSize then
      ([⟨.payloadLengthMismatch, envelopeOffset + 16,
        "Declared SVPI payload length does not match the UUID box size."⟩], info)
    else if fileSize < payloadOffset ∨ fileSize - payloadOffset < info.payloadSize then
      ([⟨.payloadOutsideFile, payloadOffset,
        "Declared SVPI payload extends outside the ISO BMFF container."⟩], info)
    else ([], { info with envelopeValid := true })

/-- The envelope of a box of the transport's type. -/
def readEnvelope (file : Bytes) (box : TopLevelBox) : List EmbeddedSvpiIssue × EmbeddedSvpiInfo :=
  let info : EmbeddedSvpiInfo := { boxOffset := box.offset, boxSize := box.size }
  let envelopeOffset := box.offset + box.headerSize
  let available := box.size - box.headerSize
  if available < kEmbeddedSvpiEnvelopeSize then
    ([⟨.truncatedUuidBox, box.offset,
      "SVPI UUID box is too small to contain the Version 1 envelope."⟩], info)
  else
    match readExactAt file envelopeOffset kEmbeddedSvpiEnvelopeSize with
    | none =>
      ([⟨.truncatedUuidBox, box.offset,
        "Unable to read the complete SVPI embedding envelope."⟩], info)
    | some envelope =>
      checkEnvelope file.length envelopeOffset available envelope
        { info with
          profileVersion := readBe16 (envelope.drop 8)
          envelopeSize := readBe16 (envelope.drop 10)
          flags := readBe32 (envelope.drop 12)
          payloadSize := readBe64 (envelope.drop 16)
          expectedHash := slice envelope 24 32 }

/-- What a `uuid` box contributes to an inspection: its issues and, when it is of
the transport's type, its description. -/
def parseEnvelope (file : Bytes) (box : TopLevelBox) :
    List EmbeddedSvpiIssue × Option EmbeddedSvpiInfo :=
  match readExactAt file (box.offset + box.headerSize - 16) 16 with
  | none => ([⟨.truncatedUuidBox, box.offset, "Unable to read UUID box user type."⟩], none)
  | some uuid =>
    if uuid ≠ kEmbeddedSvpiTransportUuid then ([], none)
    else ((readEnvelope file box).1, some (readEnvelope file box).2)

/-! ## Inspection -/

structure EmbeddedSvpiInspection where
  fileSize : Nat
  topLevelBoxCount : Nat
  containerStructureValid : Bool
  container : IsoBmffContainerInfo
  embeddings : List EmbeddedSvpiInfo
  issues : List EmbeddedSvpiIssue

def EmbeddedSvpiInspection.hasSingleValidEmbedding (inspection : EmbeddedSvpiInspection) : Bool :=
  inspection.containerStructureValid && inspection.container.supported &&
    match inspection.embeddings with
    | [info] => info.envelopeValid
    | _ => false

/-- Reads a whole range, in chunks; an empty one reads nothing. -/
def readRange (file : Bytes) (offset size : Nat) : Option Bytes :=
  if kMaxStreamOffset < offset then none
  else if size = 0 ∨ offset + size ≤ file.length then some (slice file offset size)
  else none

section Hash

variable (blake3 : Bytes → Blake3Digest)

/-- The one embedding, its payload hashed where that is asked for. -/
def verifyPayloadHash (file : Bytes) (verify : Bool) (info : EmbeddedSvpiInfo) :
    EmbeddedSvpiInfo × List EmbeddedSvpiIssue :=
  if !(verify && info.envelopeValid) then (info, [])
  else
    match readRange file info.payloadOffset info.payloadSize with
    | none =>
      (info, [⟨.inputUnreadable, info.payloadOffset,
        "Unable to read the complete embedded SVPI payload for hashing."⟩])
    | some payload =>
      let actualHash := (blake3 payload).bytes
      let info := { info with
        hashVerified := true, actualHash, hashMatches := actualHash == info.expectedHash }
      (info, if info.hashMatches then [] else
        [⟨.payloadHashMismatch, info.payloadOffset,
          "Embedded SVPI payload BLAKE3 does not match the envelope."⟩])

def inspectEmbeddedSvpi (file : MediaFile) (verify : Bool) : EmbeddedSvpiInspection :=
  let scan := scanTopLevelBoxes file
  let container := classifyIsoBmffContainer file scan
  let inspection : EmbeddedSvpiInspection :=
    { fileSize := scan.fileSize, topLevelBoxCount := scan.boxes.length
      containerStructureValid := container.structureValid, container, embeddings := []
      issues := scan.issues }
  if !container.signaturePresent then
    { inspection with issues := [⟨.unsupportedContainer, 0, container.diagnostic⟩] }
  else if !scan.valid then inspection
  else if !container.supported then
    { inspection with issues := scan.issues ++ [⟨.unsupportedContainer, 0, container.diagnostic⟩] }
  else
    let parsed := (scan.boxes.filter fun box => box.type == uuidType).map (parseEnvelope file.bytes)
    let issues := scan.issues ++ parsed.flatMap Prod.fst
    match parsed.filterMap Prod.snd with
    | [] =>
      { inspection with
        issues := issues ++
          [⟨.noEmbedding, 0, "No top-level SVPI embedding UUID box was found."⟩] }
    | [info] =>
      let (info, found) := verifyPayloadHash blake3 file.bytes verify info
      { inspection with embeddings := [info], issues := issues ++ found }
    | first :: second :: rest =>
      { inspection with
        embeddings := first :: second :: rest
        issues := issues ++ [⟨.duplicateEmbeddings, second.boxOffset,
          "ISO BMFF container contains more than one SVPI embedding UUID box."⟩] }

/-- An inspection found one embedding whose envelope and hash are right. -/
def EmbeddedSvpiInspection.verified (inspection : EmbeddedSvpiInspection) : Bool :=
  inspection.hasSingleValidEmbedding &&
    match inspection.embeddings with
    | info :: _ => info.hashVerified && info.hashMatches
    | [] => false

end Hash

/-! ## Copying with a change -/

/-- The header of the `uuid` box; none where the box size overflows, which throws. -/
def makeSvpiUuidBoxHeader (payloadSize compactBoxSizeLimit : Nat) : Option Bytes :=
  let compactOverhead := 24 + kEmbeddedSvpiEnvelopeSize
  let effectiveCompactLimit := min compactBoxSizeLimit kIsoBmffMaxCompactBoxSize
  let extended := effectiveCompactLimit < compactOverhead ∨
    effectiveCompactLimit - compactOverhead < payloadSize
  let headerSize := if extended then 32 else 24
  if kMaxU64 - headerSize - kEmbeddedSvpiEnvelopeSize < payloadSize then none
  else
    let boxSize := headerSize + kEmbeddedSvpiEnvelopeSize + payloadSize
    if extended then
      some (bigEndian 4 1 ++ uuidType ++ bigEndian 8 boxSize ++ kEmbeddedSvpiTransportUuid)
    else some (bigEndian 4 boxSize ++ uuidType ++ kEmbeddedSvpiTransportUuid)

def makeEnvelope (payloadSize : Nat) (payloadHash : Blake3Digest) : Bytes :=
  kEmbeddedSvpiEnvelopeMagic ++ bigEndian 2 kEmbeddedSvpiProfileVersion ++
    bigEndian 2 kEmbeddedSvpiEnvelopeSize ++ bigEndian 4 0 ++ bigEndian 8 payloadSize ++
    payloadHash.bytes ++ List.replicate 8 0

def writeUuidBox (payload : Bytes) (payloadHash : Blake3Digest) (compactBoxSizeLimit : Nat) :
    Option Bytes := do
  let header ← makeSvpiUuidBoxHeader payload.length compactBoxSizeLimit
  return header ++ (makeEnvelope payload.length payloadHash ++ payload)

def isEmbeddingBox (embeddings : List EmbeddedSvpiInfo) (box : TopLevelBox) : Bool :=
  embeddings.any fun embedding => embedding.boxOffset == box.offset && embedding.boxSize == box.size

section Copy

variable (file : Bytes) (embeddings : List EmbeddedSvpiInfo) (insertionOffset : Nat)
  (svpi : Option (Bytes × Blake3Digest)) (compactBoxSizeLimit : Nat)

/-- The loop over the boxes: writes the new box before the one at the insertion
offset and leaves the embeddings out. Returns whether it wrote the new box, and
the output. -/
def copyBoxes : List TopLevelBox → Bool → Bytes → Option (Bool × Bytes)
  | [], inserted, output => some (inserted, output)
  | box :: rest, inserted, output => do
    let (inserted, output) ←
      match svpi with
      | some (payload, payloadHash) =>
        if !inserted && box.offset == insertionOffset then
          (writeUuidBox payload payloadHash compactBoxSizeLimit).map fun written =>
            (true, output ++ written)
        else some (inserted, output)
      | none => some (inserted, output)
    let output ←
      if isEmbeddingBox embeddings box then some output
      else (readRange file box.offset box.size).map (output ++ ·)
    copyBoxes rest inserted output

def copyIsoBmffWithEmbeddingChange (scan : TopLevelScan) : Option Bytes := do
  let (inserted, output) ←
    copyBoxes file embeddings insertionOffset svpi compactBoxSizeLimit scan.boxes false []
  match svpi with
  | some (payload, payloadHash) =>
    if !inserted && insertionOffset == scan.fileSize then
      (writeUuidBox payload payloadHash compactBoxSizeLimit).map (output ++ ·)
    else some output
  | none => some output

end Copy

/-! ## Operations -/

/-- What the file system decides about one output: whether it may be written
(given the overwrite option), whether a temporary file can be made beside it,
which contents can be written, and whether the rename works. -/
structure OutputIo where
  allowed : Bool → Except String Unit
  temporary : Except String Unit
  writes : MediaFile → Bool
  publish : Except String Unit

/-- Nothing goes wrong. -/
structure OutputIo.Works (io : OutputIo) : Prop where
  allowed : ∀ overwrite, io.allowed overwrite = .ok ()
  temporary : io.temporary = .ok ()
  writes : ∀ file, io.writes file = true
  publish : io.publish = .ok ()

/-- The bytes as a file, where they fit one and can be written. -/
def OutputIo.write (io : OutputIo) (bytes : Bytes) : Option MediaFile :=
  if size : bytes.length ≤ kMaxStreamOffset then
    if io.writes ⟨bytes, size⟩ then some ⟨bytes, size⟩ else none
  else none

structure EmbeddedSvpiWriteOptions where
  replaceExisting : Bool := false
  overwriteOutput : Bool := false

/-- `output` is there exactly when the operation succeeded. -/
structure EmbeddedSvpiOperationResult where
  output : Option MediaFile
  inspection : EmbeddedSvpiInspection
  errorMessage : String

def failureResult (inspection : EmbeddedSvpiInspection) (message : String) :
    EmbeddedSvpiOperationResult :=
  { output := none, inspection, errorMessage := message }

/-- Why a box keeps a file from being embedded into. -/
def layoutIssue (box : TopLevelBox) : Option (EmbeddedSvpiIssue × String) :=
  if box.extendsToEof then
    some (⟨.zeroSizedTopLevelBox, box.offset,
      "Embedding is rejected because a top-level size-zero box extends to EOF."⟩,
      "Unsafe ISO BMFF layout: top-level size-zero box extends to EOF.")
  else if box.type = mfroType then
    some (⟨.unsafeTailLayout, box.offset, "Top-level mfro is not a supported tail layout."⟩,
      "Unsafe ISO BMFF tail layout: top-level mfro box.")
  else none

def validateEmbeddingLayout (scan : TopLevelScan) : Option (EmbeddedSvpiIssue × String) :=
  scan.boxes.findSome? layoutIssue

def chooseInsertionOffset (scan : TopLevelScan) (embeddings : List EmbeddedSvpiInfo) :
    Except (EmbeddedSvpiIssue × String) Nat :=
  match scan.boxes.dropWhile fun box => box.type != mfraType with
  | [] => .ok scan.fileSize
  | mfra :: rest =>
    if rest.all (isEmbeddingBox embeddings) then .ok mfra.offset
    else .error (⟨.unsafeTailLayout, mfra.offset,
      "mfra is supported only as the terminal top-level box."⟩,
      "Unsafe ISO BMFF tail layout: non-terminal mfra box.")

section Operations

variable (blake3 : Bytes → Blake3Digest) (io : OutputIo)

def embedSvpiInIsoBmff (options : EmbeddedSvpiWriteOptions) (container svpi : MediaFile) :
    EmbeddedSvpiOperationResult :=
  let inspection := inspectEmbeddedSvpi blake3 container false
  if !inspection.containerStructureValid || !inspection.container.supported then
    failureResult inspection "Input is not a supported, structurally valid ISO BMFF container."
  else
    match io.allowed options.overwriteOutput with
    | .error message =>
      failureResult { inspection with issues := inspection.issues ++ [⟨.outputExists, 0, message⟩] }
        message
    | .ok () =>
      let scan := scanTopLevelBoxes container
      match validateEmbeddingLayout scan with
      | some (issue, message) =>
        failureResult { inspection with issues := inspection.issues ++ [issue] } message
      | none =>
        if !inspection.embeddings.isEmpty && !options.replaceExisting then
          failureResult inspection
            "Container already contains embedded SVPI; use explicit replacement."
        else
          match chooseInsertionOffset scan inspection.embeddings with
          | .error (issue, message) =>
            failureResult { inspection with issues := inspection.issues ++ [issue] } message
          | .ok insertionOffset =>
            match io.temporary with
            | .error message => failureResult inspection message
            | .ok () =>
              match (copyIsoBmffWithEmbeddingChange container.bytes inspection.embeddings
                  insertionOffset (some (svpi.bytes, blake3 svpi.bytes)) kIsoBmffMaxCompactBoxSize
                  scan).bind io.write with
              | none =>
                failureResult inspection "Failed while writing the embedded SVPI transport."
              | some temporary =>
                let outputInspection := inspectEmbeddedSvpi blake3 temporary true
                if !outputInspection.verified then
                  failureResult outputInspection
                    "Final embedded SVPI transport verification failed."
                else
                  match io.publish with
                  | .error message => failureResult outputInspection message
                  | .ok () =>
                    { output := some temporary, inspection := outputInspection, errorMessage := "" }

/-- What `strip` and `extract` share: a verified input and an output whose
content is `produce` of the inspection. -/
def rewriteVerified (overwriteOutput : Bool) (container : MediaFile) (failure : String)
    (produce : EmbeddedSvpiInspection → Option Bytes) : EmbeddedSvpiOperationResult :=
  let inspection := inspectEmbeddedSvpi blake3 container true
  if !inspection.verified then
    failureResult inspection "Embedded SVPI envelope or payload hash is invalid."
  else
    match io.allowed overwriteOutput with
    | .error message => failureResult inspection message
    | .ok () =>
      match io.temporary with
      | .error message => failureResult inspection message
      | .ok () =>
        match (produce inspection).bind io.write with
        | none => failureResult inspection failure
        | some temporary =>
          match io.publish with
          | .error message => failureResult inspection message
          | .ok () => { output := some temporary, inspection, errorMessage := "" }

def stripEmbeddedSvpi (container : MediaFile) (overwriteOutput : Bool) :
    EmbeddedSvpiOperationResult :=
  let scan := scanTopLevelBoxes container
  rewriteVerified blake3 io overwriteOutput container "Failed while stripping embedded SVPI box."
    fun inspection => copyIsoBmffWithEmbeddingChange container.bytes inspection.embeddings
      scan.fileSize none kIsoBmffMaxCompactBoxSize scan

def extractEmbeddedSvpi (container : MediaFile) (overwriteOutput : Bool) :
    EmbeddedSvpiOperationResult :=
  rewriteVerified blake3 io overwriteOutput container "Failed while extracting embedded SVPI bytes."
    fun inspection => inspection.embeddings.head?.bind fun embedding =>
      readRange container.bytes embedding.payloadOffset embedding.payloadSize

end Operations

end Svp.Package
