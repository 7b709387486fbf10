import Svp.Exec.JsonText
import Svp.Exec.Error

/-!
# Media bindings

A media binding document says which media a package belongs to: their identity, their
streams and where they were seen. `toJson` writes a document, and
`mediaBindingDocumentFromJson` reads it back (`mediaBindingDocumentFromJson_toJson`) where no
bit rate is negative.
-/

namespace Svp.Package

open Exec (Json member writtenFields member_written bind_eq_ok)

inductive Blake3State
  | present
  | pending
  | unavailable
deriving DecidableEq

/-- A frame rate is the bits of a double. -/
structure StreamMetadata where
  codecName : String := ""
  codecLongName : String := ""
  profile : String := ""
  bitRate : Int64 := 0
  width : Option Int64 := none
  height : Option Int64 := none
  frameRate : Option UInt64 := none
  sampleRate : Option Int64 := none
  channels : Option Int64 := none
  bitsPerSample : Option Int64 := none
  durationUs : Option Int64 := none
deriving DecidableEq

structure ChunkProof where
  chunkSizeBytes : Int64 := 0
  chunkCount : Int64 := 0
  lastChunkHash : String := ""
  lastChunkSize : Int64 := 0
deriving DecidableEq

structure MediaIdentity where
  blake3State : Blake3State := .pending
  blake3Hash : String := ""
  blake3StateReason : String := ""
  chunkProof : Option ChunkProof := none
deriving DecidableEq

structure LocationHints where
  originalFilename : String := ""
  relativePath : String := ""
  originalAbsolutePath : String := ""
  volumeHint : String := ""
  lastSeenUtc : String := ""
deriving DecidableEq

def kSvpiBindingContract : String := "svpi.media_identity.v0.1"

structure MediaBinding where
  bindingId : String := ""
  mediaRole : String := "primary_source"
  mediaId : String := ""
  bindingContract : String := kSvpiBindingContract
  verificationState : String := "pending"
  durationUs : Int64 := 0
  sizeBytes : Int64 := 0
  containerFormat : String := ""
  streams : List StreamMetadata := []
  identity : MediaIdentity := {}
  locationHints : LocationHints := {}
deriving DecidableEq

structure MediaBindingDocument where
  schema : String := "svpi.media_binding.v0.1"
  primaryBindingId : String := ""
  bindings : List MediaBinding := []
deriving DecidableEq

/-! ## Writing -/

def blake3StateToString : Blake3State → String
  | .present => "present"
  | .pending => "pending"
  | .unavailable => "unavailable"

/-- A text that is written unless it is empty. -/
def nonEmpty (text : String) : Option Json := if text = "" then none else some (.string text)

def int64Json (value : Int64) : Json := .integer value.toInt

/-- The members of a stream, in the order of the keys. -/
def streamFields (metadata : StreamMetadata) : List (String × Option Json) :=
  [("bit_rate", if metadata.bitRate > 0 then some (int64Json metadata.bitRate) else none),
    ("bits_per_sample", metadata.bitsPerSample.map int64Json),
    ("channels", metadata.channels.map int64Json),
    ("codec_long_name", nonEmpty metadata.codecLongName),
    ("codec_name", nonEmpty metadata.codecName),
    ("duration_us", metadata.durationUs.map int64Json),
    ("frame_rate", metadata.frameRate.map Json.float),
    ("height", metadata.height.map int64Json),
    ("profile", nonEmpty metadata.profile),
    ("sample_rate", metadata.sampleRate.map int64Json),
    ("width", metadata.width.map int64Json)]

def streamJson (metadata : StreamMetadata) : Json := .object (writtenFields (streamFields metadata))

def chunkProofJson (proof : ChunkProof) : Json :=
  .object [("algorithm", .string "blake3"), ("chunk_count", int64Json proof.chunkCount),
    ("chunk_size_bytes", int64Json proof.chunkSizeBytes),
    ("last_chunk_hash", .string proof.lastChunkHash),
    ("last_chunk_size", int64Json proof.lastChunkSize)]

/-- The record of a media whose chunks were not hashed. -/
def noChunksJson : Json :=
  .object [("algorithm", .string "blake3"), ("chunk_count", .integer 0),
    ("chunk_size_bytes", .integer 0)]

def blake3Fields (identity : MediaIdentity) : List (String × Option Json) :=
  [("reason", nonEmpty identity.blake3StateReason),
    ("state", some (.string (blake3StateToString identity.blake3State))),
    ("value", nonEmpty identity.blake3Hash)]

def chunkHashesJson (identity : MediaIdentity) : Json :=
  match identity.chunkProof with
  | some proof => chunkProofJson proof
  | none => noChunksJson

def identityJson (identity : MediaIdentity) : Json :=
  .object [("chunk_hashes", chunkHashesJson identity),
    ("full_file_blake3", .object (writtenFields (blake3Fields identity)))]

def hintFields (hints : LocationHints) : List (String × Option Json) :=
  [("last_seen_utc", nonEmpty hints.lastSeenUtc),
    ("original_absolute_path", nonEmpty hints.originalAbsolutePath),
    ("original_filename", nonEmpty hints.originalFilename),
    ("relative_path", nonEmpty hints.relativePath),
    ("volume_hint", nonEmpty hints.volumeHint)]

def hintsJson (hints : LocationHints) : Json := .object (writtenFields (hintFields hints))

def bindingJson (binding : MediaBinding) : Json :=
  .object [("binding_contract", .string binding.bindingContract),
    ("binding_id", .string binding.bindingId),
    ("container_format", .string binding.containerFormat),
    ("duration_us", int64Json binding.durationUs),
    ("identity", identityJson binding.identity),
    ("location_hints", hintsJson binding.locationHints),
    ("media_id", .string binding.mediaId),
    ("media_role", .string binding.mediaRole),
    ("size_bytes", int64Json binding.sizeBytes),
    ("streams", .array (binding.streams.map streamJson)),
    ("verification_state", .string binding.verificationState)]

def toJson (doc : MediaBindingDocument) : Json :=
  .object [("bindings", .array (doc.bindings.map bindingJson)),
    ("primary_binding_id", .string doc.primaryBindingId), ("schema", .string doc.schema)]

/-! ## Reading -/

/-- What the readers throw. -/
inductive BindingError
  /-- `at` of a key that is not there. -/
  | outOfRange (key : String)
  /-- A value of another type. -/
  | typeError (expected : String)
  | invalidArgument (message : String)
deriving DecidableEq

/-- How the language converts between doubles and integers. -/
structure Casts where
  toInt64 : UInt64 → Int64
  toDouble : Int → UInt64

variable (casts : Casts)

def getString : Json → Except BindingError String
  | .string text => .ok text
  | _ => .error (.typeError "string")

/-- `get<std::int64_t>` keeps the low 64 bits of an integer. -/
def getInt64 : Json → Except BindingError Int64
  | .integer value => .ok (Int64.ofInt value)
  | .float bits => .ok (casts.toInt64 bits)
  | _ => .error (.typeError "number")

def getDouble : Json → Except BindingError UInt64
  | .integer value => .ok (casts.toDouble value)
  | .float bits => .ok bits
  | _ => .error (.typeError "number")

/-- `at` of a key. -/
def memberAt (value : Json) (key : String) : Except BindingError Json :=
  match value with
  | .object _ =>
    match member value key with
    | some found => .ok found
    | none => .error (.outOfRange key)
  | _ => .error (.typeError "object")

/-- What a range-for over the value visits: a value that is no container is visited itself. -/
def elements : Json → List Json
  | .array items => items
  | .object fields => fields.map Prod.snd
  | .null => []
  | value => [value]

def stringOrEmpty (object : Json) (key : String) : Except BindingError String :=
  match member object key with
  | none => .ok ""
  | some found => getString found

def optionalValue {α : Type} (get : Json → Except BindingError α) (object : Json) (key : String) :
    Except BindingError (Option α) :=
  match member object key with
  | none => .ok none
  | some found => some <$> get found

def blake3StateFromString (value : String) : Except BindingError Blake3State :=
  if value = "present" then .ok .present
  else if value = "pending" then .ok .pending
  else if value = "unavailable" then .ok .unavailable
  else .error (.invalidArgument ("unknown media binding blake3 state: " ++ value))

def streamFromJson (value : Json) : Except BindingError StreamMetadata := do
  let codecName ← stringOrEmpty value "codec_name"
  let codecLongName ← stringOrEmpty value "codec_long_name"
  let profile ← stringOrEmpty value "profile"
  let bitRate ← optionalValue (getInt64 casts) value "bit_rate"
  let width ← optionalValue (getInt64 casts) value "width"
  let height ← optionalValue (getInt64 casts) value "height"
  let frameRate ← optionalValue (getDouble casts) value "frame_rate"
  let sampleRate ← optionalValue (getInt64 casts) value "sample_rate"
  let channels ← optionalValue (getInt64 casts) value "channels"
  let bitsPerSample ← optionalValue (getInt64 casts) value "bits_per_sample"
  let durationUs ← optionalValue (getInt64 casts) value "duration_us"
  return ⟨codecName, codecLongName, profile, bitRate.getD 0, width, height, frameRate, sampleRate,
    channels, bitsPerSample, durationUs⟩

def chunkProofFromJson (chunks : Json) : Except BindingError (Option ChunkProof) :=
  match member chunks "last_chunk_hash" with
  | none => .ok none
  | some _ => do
    let chunkSizeBytes ← memberAt chunks "chunk_size_bytes" >>= getInt64 casts
    let chunkCount ← memberAt chunks "chunk_count" >>= getInt64 casts
    let lastChunkHash ← memberAt chunks "last_chunk_hash" >>= getString
    let lastChunkSize ← memberAt chunks "last_chunk_size" >>= getInt64 casts
    return some { chunkSizeBytes, chunkCount, lastChunkHash, lastChunkSize }

def identityFromJson (value : Json) : Except BindingError MediaIdentity := do
  let blake3 ← memberAt value "full_file_blake3"
  let state ← memberAt blake3 "state" >>= getString
  let blake3State ← blake3StateFromString state
  let blake3Hash ← stringOrEmpty blake3 "value"
  let blake3StateReason ← stringOrEmpty blake3 "reason"
  let chunks ← memberAt value "chunk_hashes"
  let chunkProof ← chunkProofFromJson casts chunks
  return { blake3State, blake3Hash, blake3StateReason, chunkProof }

def locationHintsFromJson (value : Json) : Except BindingError LocationHints := do
  let originalFilename ← stringOrEmpty value "original_filename"
  let relativePath ← stringOrEmpty value "relative_path"
  let originalAbsolutePath ← stringOrEmpty value "original_absolute_path"
  let volumeHint ← stringOrEmpty value "volume_hint"
  let lastSeenUtc ← stringOrEmpty value "last_seen_utc"
  return { originalFilename, relativePath, originalAbsolutePath, volumeHint, lastSeenUtc }

def bindingFromJson (value : Json) : Except BindingError MediaBinding := do
  let bindingId ← memberAt value "binding_id" >>= getString
  let mediaRole ← memberAt value "media_role" >>= getString
  let mediaId ← memberAt value "media_id" >>= getString
  let bindingContract ← memberAt value "binding_contract" >>= getString
  let verificationState ← memberAt value "verification_state" >>= getString
  let durationUs ← memberAt value "duration_us" >>= getInt64 casts
  let sizeBytes ← memberAt value "size_bytes" >>= getInt64 casts
  let containerFormat ← memberAt value "container_format" >>= getString
  let streams ← memberAt value "streams" >>= fun found => (elements found).mapM (streamFromJson casts)
  let identity ← memberAt value "identity" >>= identityFromJson casts
  let locationHints ← memberAt value "location_hints" >>= locationHintsFromJson
  return ⟨bindingId, mediaRole, mediaId, bindingContract, verificationState, durationUs, sizeBytes,
    containerFormat, streams, identity, locationHints⟩

def mediaBindingDocumentFromJson (value : Json) : Except BindingError MediaBindingDocument := do
  let schema ← memberAt value "schema" >>= getString
  let primaryBindingId ← memberAt value "primary_binding_id" >>= getString
  let bindings ← memberAt value "bindings" >>= fun found => (elements found).mapM (bindingFromJson casts)
  return { schema, primaryBindingId, bindings }

/-! ## The round trip -/

theorem getInt64_int64Json (value : Int64) : getInt64 casts (int64Json value) = .ok value :=
  congrArg Except.ok (Int64.ofInt_toInt value)

variable {casts}

theorem stringOrEmpty_of {object : Json} {key text : String}
    (written : member object key = nonEmpty text) : stringOrEmpty object key = .ok text := by
  rw [stringOrEmpty, written, nonEmpty]
  by_cases empty : text = ""
  · rw [if_pos empty, empty]
  · rw [if_neg empty]
    rfl

theorem optionalValue_of {α : Type} {get : Json → Except BindingError α} {write : α → Json}
    (inverse : ∀ a, get (write a) = .ok a) {object : Json} {key : String} {value : Option α}
    (written : member object key = value.map write) : optionalValue get object key = .ok value := by
  rw [optionalValue, written]
  cases value with
  | none => rfl
  | some a =>
    rw [Option.map_some]
    exact congrArg (Except.map some) (inverse a)

theorem member_stream (metadata : StreamMetadata) (key : String) :
    member (streamJson metadata) key = ((streamFields metadata).lookup key).join :=
  member_written key (show ["bit_rate", "bits_per_sample", "channels", "codec_long_name",
    "codec_name", "duration_us", "frame_rate", "height", "profile", "sample_rate", "width"].Nodup by
    decide)

/-- The bit rate that is written: none for zero. -/
def writtenBitRate (metadata : StreamMetadata) : Option Int64 :=
  if metadata.bitRate > 0 then some metadata.bitRate else none

theorem writtenBitRate_getD {metadata : StreamMetadata} (nonneg : 0 ≤ metadata.bitRate) :
    (writtenBitRate metadata).getD 0 = metadata.bitRate := by
  rw [writtenBitRate]
  split
  · rfl
  · next zero => exact Int64.le_antisymm nonneg (Int64.not_lt.mp zero)

theorem member_bitRate (metadata : StreamMetadata) :
    member (streamJson metadata) "bit_rate" = (writtenBitRate metadata).map int64Json := by
  refine (member_stream metadata "bit_rate").trans ?_
  rw [writtenBitRate, apply_ite (Option.map int64Json)]
  rfl

theorem streamFromJson_streamJson {metadata : StreamMetadata} (nonneg : 0 ≤ metadata.bitRate) :
    streamFromJson casts (streamJson metadata) = .ok metadata := by
  have texts : ∀ key text, ((streamFields metadata).lookup key).join = nonEmpty text →
      stringOrEmpty (streamJson metadata) key = .ok text := fun key text written =>
    stringOrEmpty_of ((member_stream metadata key).trans written)
  have ints : ∀ key (value : Option Int64),
      ((streamFields metadata).lookup key).join = value.map int64Json →
      optionalValue (getInt64 casts) (streamJson metadata) key = .ok value := fun key value written =>
    optionalValue_of (getInt64_int64Json casts) ((member_stream metadata key).trans written)
  have bitRate : optionalValue (getInt64 casts) (streamJson metadata) "bit_rate" =
      .ok (writtenBitRate metadata) := optionalValue_of (getInt64_int64Json casts) (member_bitRate metadata)
  have frameRate : optionalValue (getDouble casts) (streamJson metadata) "frame_rate" =
      .ok metadata.frameRate :=
    @optionalValue_of _ _ Json.float (fun _ => rfl) _ _ _ (member_stream metadata "frame_rate")
  rw [streamFromJson, texts "codec_name" metadata.codecName rfl,
    texts "codec_long_name" metadata.codecLongName rfl, texts "profile" metadata.profile rfl,
    bitRate, ints "width" metadata.width rfl, ints "height" metadata.height rfl, frameRate,
    ints "sample_rate" metadata.sampleRate rfl, ints "channels" metadata.channels rfl,
    ints "bits_per_sample" metadata.bitsPerSample rfl, ints "duration_us" metadata.durationUs rfl]
  exact congrArg (fun rate => Except.ok { metadata with bitRate := rate }) (writtenBitRate_getD nonneg)

theorem chunkProofFromJson_chunkHashesJson (identity : MediaIdentity) :
    chunkProofFromJson casts (chunkHashesJson identity) = .ok identity.chunkProof := by
  rw [chunkHashesJson]
  cases identity.chunkProof with
  | none => rfl
  | some proof =>
    have size : memberAt (chunkProofJson proof) "chunk_size_bytes" >>= getInt64 casts =
        .ok proof.chunkSizeBytes := getInt64_int64Json casts proof.chunkSizeBytes
    have count : memberAt (chunkProofJson proof) "chunk_count" >>= getInt64 casts =
        .ok proof.chunkCount := getInt64_int64Json casts proof.chunkCount
    have last : memberAt (chunkProofJson proof) "last_chunk_size" >>= getInt64 casts =
        .ok proof.lastChunkSize := getInt64_int64Json casts proof.lastChunkSize
    have found : member (chunkProofJson proof) "last_chunk_hash" = some (.string proof.lastChunkHash) :=
      rfl
    simp only [chunkProofFromJson, found, size, count, last]
    rfl

theorem blake3StateFromString_toString (state : Blake3State) :
    blake3StateFromString (blake3StateToString state) = .ok state := by
  cases state <;> rfl

theorem member_blake3 (identity : MediaIdentity) (key : String) :
    member (.object (writtenFields (blake3Fields identity))) key =
      ((blake3Fields identity).lookup key).join :=
  member_written key (show ["reason", "state", "value"].Nodup by decide)

theorem identityFromJson_identityJson (identity : MediaIdentity) :
    identityFromJson casts (identityJson identity) = .ok identity := by
  have blake3 : memberAt (identityJson identity) "full_file_blake3" =
      .ok (.object (writtenFields (blake3Fields identity))) := rfl
  have state : memberAt (.object (writtenFields (blake3Fields identity))) "state" >>= getString =
      .ok (blake3StateToString identity.blake3State) := by
    rw [memberAt, member_blake3]
    rfl
  have texts : ∀ key text, ((blake3Fields identity).lookup key).join = nonEmpty text →
      stringOrEmpty (.object (writtenFields (blake3Fields identity))) key = .ok text :=
    fun key text written => stringOrEmpty_of ((member_blake3 identity key).trans written)
  have chunks : memberAt (identityJson identity) "chunk_hashes" = .ok (chunkHashesJson identity) := rfl
  have steps : identityFromJson casts (identityJson identity) = (do
      let state ← memberAt (.object (writtenFields (blake3Fields identity))) "state" >>= getString
      let blake3State ← blake3StateFromString state
      let blake3Hash ← stringOrEmpty (.object (writtenFields (blake3Fields identity))) "value"
      let blake3StateReason ← stringOrEmpty (.object (writtenFields (blake3Fields identity))) "reason"
      let chunkProof ← chunkProofFromJson casts (chunkHashesJson identity)
      return { blake3State, blake3Hash, blake3StateReason, chunkProof }) := by
    rw [identityFromJson, blake3, chunks]
    rfl
  rw [steps, state, texts "value" identity.blake3Hash rfl,
    texts "reason" identity.blake3StateReason rfl, chunkProofFromJson_chunkHashesJson]
  exact congrArg (fun state => (do
    let blake3State ← state
    return { identity with blake3State := blake3State })) (blake3StateFromString_toString _)

theorem member_hints (hints : LocationHints) (key : String) :
    member (hintsJson hints) key = ((hintFields hints).lookup key).join :=
  member_written key (show ["last_seen_utc", "original_absolute_path", "original_filename",
    "relative_path", "volume_hint"].Nodup by decide)

theorem locationHintsFromJson_hintsJson (hints : LocationHints) :
    locationHintsFromJson (hintsJson hints) = .ok hints := by
  have texts : ∀ key text, ((hintFields hints).lookup key).join = nonEmpty text →
      stringOrEmpty (hintsJson hints) key = .ok text := fun key text written =>
    stringOrEmpty_of ((member_hints hints key).trans written)
  rw [locationHintsFromJson, texts "original_filename" hints.originalFilename rfl,
    texts "relative_path" hints.relativePath rfl,
    texts "original_absolute_path" hints.originalAbsolutePath rfl,
    texts "volume_hint" hints.volumeHint rfl, texts "last_seen_utc" hints.lastSeenUtc rfl]
  rfl

/-- No stream of the document has a negative bit rate. -/
def BitRatesNonneg (doc : MediaBindingDocument) : Prop :=
  ∀ binding ∈ doc.bindings, ∀ stream ∈ binding.streams, 0 ≤ stream.bitRate

theorem bindingFromJson_bindingJson {binding : MediaBinding}
    (nonneg : ∀ stream ∈ binding.streams, 0 ≤ stream.bitRate) :
    bindingFromJson casts (bindingJson binding) = .ok binding := by
  have duration : memberAt (bindingJson binding) "duration_us" >>= getInt64 casts =
      .ok binding.durationUs := getInt64_int64Json casts binding.durationUs
  have size : memberAt (bindingJson binding) "size_bytes" >>= getInt64 casts =
      .ok binding.sizeBytes := getInt64_int64Json casts binding.sizeBytes
  have streams : (memberAt (bindingJson binding) "streams" >>= fun found =>
      (elements found).mapM (streamFromJson casts)) = .ok binding.streams :=
    Exec.mapM_written fun stream mem => streamFromJson_streamJson (nonneg stream mem)
  have identity : memberAt (bindingJson binding) "identity" >>= identityFromJson casts =
      .ok binding.identity := identityFromJson_identityJson binding.identity
  have hints : memberAt (bindingJson binding) "location_hints" >>= locationHintsFromJson =
      .ok binding.locationHints := locationHintsFromJson_hintsJson binding.locationHints
  rw [bindingFromJson, duration, size, streams, identity, hints]
  rfl

theorem mediaBindingDocumentFromJson_toJson {doc : MediaBindingDocument}
    (nonneg : BitRatesNonneg doc) : mediaBindingDocumentFromJson casts (toJson doc) = .ok doc := by
  have bindings : (memberAt (toJson doc) "bindings" >>= fun found =>
      (elements found).mapM (bindingFromJson casts)) = .ok doc.bindings :=
    Exec.mapM_written fun binding mem => bindingFromJson_bindingJson (nonneg binding mem)
  rw [mediaBindingDocumentFromJson, bindings]
  rfl

end Svp.Package
