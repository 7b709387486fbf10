import Svp.Package.MediaBinding

/-!
# The text of a media binding

The tools that verify a package read its binding with a reader of their own,
`parseMediaBindingJson`, which takes what is missing or of another type as its default. Of a
written document it gives what `MediaBinding.seen` keeps (`parseMediaBindingJson_dump`), so it
agrees with `mediaBindingDocumentFromJson` exactly on the documents without the rest
(`readers_agree_iff`).
-/

namespace Svp.Package

open Exec (Bytes Json JsonLibrary dump dumped isFinite member member_dumped bind_eq_ok)

variable (casts : Casts)

def isObject : Json → Bool
  | .object _ => true
  | _ => false

def objectAt (j : Json) (key : String) : Option Json := (member j key).filter isObject

def arrayAt (j : Json) (key : String) : List Json :=
  match member j key with
  | some (.array items) => items
  | _ => []

def textAt (j : Json) (key fallback : String) : String :=
  match member j key with
  | some (.string text) => text
  | _ => fallback

def intAt (j : Json) (key : String) : Option Int64 :=
  match member j key with
  | some (.integer value) => some (Int64.ofInt value)
  | _ => none

def doubleAt (j : Json) (key : String) : Option UInt64 :=
  match member j key with
  | some (.float bits) => some bits
  | some (.integer value) => some (casts.toDouble value)
  | _ => none

/-- `value` with the default zero. -/
def valueOrZero (j : Json) (key : String) : Except BindingError Int64 :=
  match member j key with
  | some found => getInt64 casts found
  | none => .ok 0

def parseBlake3State (state : String) : Blake3State :=
  if state = "present" then .present
  else if state = "pending" then .pending
  else .unavailable

def parseChunks (ch : Json) : Except BindingError (Option ChunkProof) := do
  let chunkSizeBytes ← valueOrZero casts ch "chunk_size_bytes"
  let chunkCount ← valueOrZero casts ch "chunk_count"
  let lastChunkSize ← valueOrZero casts ch "last_chunk_size"
  let lastChunkHash := textAt ch "last_chunk_hash" ""
  return if chunkCount > 0 then some { chunkSizeBytes, chunkCount, lastChunkHash, lastChunkSize }
    else none

def parseBlake3 (identity : MediaIdentity) (b3 : Json) : MediaIdentity :=
  { identity with
    blake3State :=
      match member b3 "state" with
      | some (.string state) => parseBlake3State state
      | _ => identity.blake3State
    blake3Hash := textAt b3 "value" identity.blake3Hash
    blake3StateReason := textAt b3 "reason" identity.blake3StateReason }

def parseIdentity (ident : Json) : Except BindingError MediaIdentity := do
  let identity := (objectAt ident "full_file_blake3").elim {} (parseBlake3 {})
  let chunkProof ← (objectAt ident "chunk_hashes").elim (.ok none) (parseChunks casts)
  return { identity with chunkProof }

def parseStream (s : Json) : StreamMetadata where
  codecName := textAt s "codec_name" ""
  codecLongName := textAt s "codec_long_name" ""
  profile := textAt s "profile" ""
  bitRate := (intAt s "bit_rate").getD 0
  width := intAt s "width"
  height := intAt s "height"
  frameRate := doubleAt casts s "frame_rate"
  sampleRate := intAt s "sample_rate"
  channels := intAt s "channels"
  durationUs := intAt s "duration_us"

def parseHints (lh : Json) : LocationHints where
  originalFilename := textAt lh "original_filename" ""
  relativePath := textAt lh "relative_path" ""
  originalAbsolutePath := textAt lh "original_absolute_path" ""

def parseBinding (j : Json) : Except BindingError MediaBinding := do
  let identity ← (objectAt j "identity").elim (.ok {}) (parseIdentity casts)
  return {
    bindingId := textAt j "binding_id" ""
    mediaRole := textAt j "media_role" "primary_source"
    mediaId := textAt j "media_id" ""
    bindingContract := textAt j "binding_contract" kSvpiBindingContract
    verificationState := textAt j "verification_state" "pending"
    durationUs := (intAt j "duration_us").getD 0
    sizeBytes := (intAt j "size_bytes").getD 0
    containerFormat := textAt j "container_format" ""
    streams := (arrayAt j "streams").map (parseStream casts)
    identity
    locationHints := (objectAt j "location_hints").elim {} parseHints }

def parseMediaBindingJson (lib : JsonLibrary) (content : Bytes) :
    Except BindingError MediaBindingDocument :=
  match lib.parse content with
  | .ok (.object fields) => do
    let bindings ← (arrayAt (.object fields) "bindings").mapM (parseBinding casts)
    return {
      schema := textAt (.object fields) "schema" "svpi.media_binding.v0.1"
      primaryBindingId := textAt (.object fields) "primary_binding_id" ""
      bindings }
  | _ => .ok {}

/-! ## What the tools see -/

def StreamMetadata.seen (metadata : StreamMetadata) : StreamMetadata :=
  { metadata with bitsPerSample := none, frameRate := metadata.frameRate.filter isFinite }

def MediaIdentity.seen (identity : MediaIdentity) : MediaIdentity :=
  { identity with chunkProof := identity.chunkProof.filter fun proof => proof.chunkCount > 0 }

def LocationHints.seen (hints : LocationHints) : LocationHints :=
  { hints with volumeHint := "", lastSeenUtc := "" }

def MediaBinding.seen (binding : MediaBinding) : MediaBinding :=
  { binding with
    streams := binding.streams.map StreamMetadata.seen
    identity := binding.identity.seen
    locationHints := binding.locationHints.seen }

variable {casts}

theorem textAt_of {j : Json} {key text : String} (written : member j key = nonEmpty text) :
    textAt (dumped j) key "" = text := by
  rw [textAt, member_dumped, written, nonEmpty]
  by_cases empty : text = ""
  · rw [if_pos empty, empty]
    rfl
  · rw [if_neg empty]
    rfl

theorem intAt_of {j : Json} {key : String} {value : Option Int64}
    (written : member j key = value.map int64Json) : intAt (dumped j) key = value := by
  rw [intAt, member_dumped, written]
  cases value with
  | none => rfl
  | some value => exact congrArg some (Int64.ofInt_toInt value)

theorem doubleAt_of {j : Json} {key : String} {value : Option UInt64}
    (written : member j key = value.map Json.float) :
    doubleAt casts (dumped j) key = value.filter isFinite := by
  rw [doubleAt, member_dumped, written]
  cases value with
  | none => rfl
  | some bits =>
    rw [Option.map_some, Option.map_some, dumped, Option.filter_some]
    by_cases finite : isFinite bits = true
    · rw [if_pos finite, if_pos finite]
    · rw [if_neg finite, if_neg finite]

theorem parseStream_streamJson {metadata : StreamMetadata} (nonneg : 0 ≤ metadata.bitRate) :
    parseStream casts (dumped (streamJson metadata)) = metadata.seen := by
  have texts : ∀ key text, ((streamFields metadata).lookup key).join = nonEmpty text →
      textAt (dumped (streamJson metadata)) key "" = text := fun key text written =>
    textAt_of ((member_stream metadata key).trans written)
  have ints : ∀ key (value : Option Int64),
      ((streamFields metadata).lookup key).join = value.map int64Json →
      intAt (dumped (streamJson metadata)) key = value := fun key value written =>
    intAt_of ((member_stream metadata key).trans written)
  have frameRate : doubleAt casts (dumped (streamJson metadata)) "frame_rate" =
      metadata.frameRate.filter isFinite := doubleAt_of (member_stream metadata "frame_rate")
  rw [parseStream, texts "codec_name" metadata.codecName rfl,
    texts "codec_long_name" metadata.codecLongName rfl, texts "profile" metadata.profile rfl,
    intAt_of (member_bitRate metadata), writtenBitRate_getD nonneg,
    ints "width" metadata.width rfl, ints "height" metadata.height rfl, frameRate,
    ints "sample_rate" metadata.sampleRate rfl, ints "channels" metadata.channels rfl,
    ints "duration_us" metadata.durationUs rfl]
  rfl

theorem parseHints_hintsJson (hints : LocationHints) :
    parseHints (dumped (hintsJson hints)) = hints.seen := by
  have texts : ∀ key text, ((hintFields hints).lookup key).join = nonEmpty text →
      textAt (dumped (hintsJson hints)) key "" = text := fun key text written =>
    textAt_of ((member_hints hints key).trans written)
  rw [parseHints, texts "original_filename" hints.originalFilename rfl,
    texts "relative_path" hints.relativePath rfl,
    texts "original_absolute_path" hints.originalAbsolutePath rfl]
  rfl

theorem parseChunks_chunkHashesJson (identity : MediaIdentity) :
    parseChunks casts (dumped (chunkHashesJson identity)) = .ok identity.seen.chunkProof := by
  rw [chunkHashesJson, MediaIdentity.seen]
  cases identity.chunkProof with
  | none => rfl
  | some proof =>
    have ints : ∀ key (value : Int64), member (chunkProofJson proof) key = some (int64Json value) →
        valueOrZero casts (dumped (chunkProofJson proof)) key = .ok value := by
      intro key value written
      rw [valueOrZero, member_dumped, written]
      exact getInt64_int64Json casts value
    have hash : textAt (dumped (chunkProofJson proof)) "last_chunk_hash" "" = proof.lastChunkHash :=
      rfl
    simp only [parseChunks, ints "chunk_size_bytes" proof.chunkSizeBytes rfl,
      ints "chunk_count" proof.chunkCount rfl, ints "last_chunk_size" proof.lastChunkSize rfl, hash]
    refine congrArg Except.ok ?_
    rw [Option.filter_some]
    simp only [decide_eq_true_eq]

theorem parseBlake3State_toString (state : Blake3State) :
    parseBlake3State (blake3StateToString state) = state := by
  cases state <;> rfl

theorem parseBlake3_blake3Fields (identity : MediaIdentity) :
    parseBlake3 {} (dumped (.object (Exec.writtenFields (blake3Fields identity)))) =
      { identity with chunkProof := none } := by
  have texts : ∀ key text, ((blake3Fields identity).lookup key).join = nonEmpty text →
      textAt (dumped (.object (Exec.writtenFields (blake3Fields identity)))) key "" = text :=
    fun key text written => textAt_of ((member_blake3 identity key).trans written)
  have state : member (dumped (.object (Exec.writtenFields (blake3Fields identity)))) "state" =
      some (.string (blake3StateToString identity.blake3State)) := by
    rw [member_dumped, member_blake3]
    rfl
  rw [parseBlake3, state, texts "value" identity.blake3Hash rfl,
    texts "reason" identity.blake3StateReason rfl]
  exact congrArg (fun state => { identity with blake3State := state, chunkProof := none })
    (parseBlake3State_toString identity.blake3State)

theorem isObject_dumped (v : Json) : isObject (dumped v) = isObject v := by
  cases v with
  | float bits =>
    rw [dumped]
    split <;> rfl
  | array items => rw [dumped]; rfl
  | object fields => rw [dumped]; rfl
  | _ => rw [dumped]

theorem objectAt_of {j : Json} {key : String} {value : Json} (written : member j key = some value)
    (object : isObject value = true) : objectAt (dumped j) key = some (dumped value) := by
  rw [objectAt, member_dumped, written, Option.map_some, Option.filter_some, isObject_dumped]
  exact if_pos object

theorem parseIdentity_identityJson (identity : MediaIdentity) :
    parseIdentity casts (dumped (identityJson identity)) = .ok identity.seen := by
  have blake3 : objectAt (dumped (identityJson identity)) "full_file_blake3" =
      some (dumped (.object (Exec.writtenFields (blake3Fields identity)))) := objectAt_of rfl rfl
  have object : isObject (chunkHashesJson identity) = true := by
    rw [chunkHashesJson]
    split <;> rfl
  have chunks : objectAt (dumped (identityJson identity)) "chunk_hashes" =
      some (dumped (chunkHashesJson identity)) := objectAt_of rfl object
  rw [parseIdentity, blake3, chunks]
  simp only [Option.elim_some, parseBlake3_blake3Fields, parseChunks_chunkHashesJson]
  rfl

theorem parseBinding_bindingJson {binding : MediaBinding}
    (nonneg : ∀ stream ∈ binding.streams, 0 ≤ stream.bitRate) :
    parseBinding casts (dumped (bindingJson binding)) = .ok binding.seen := by
  have texts : ∀ key fallback text, member (bindingJson binding) key = some (.string text) →
      textAt (dumped (bindingJson binding)) key fallback = text := by
    intro key fallback text written
    rw [textAt, member_dumped, written]
    rfl
  have ints : ∀ key (value : Int64), member (bindingJson binding) key = some (int64Json value) →
      (intAt (dumped (bindingJson binding)) key).getD 0 = value := by
    intro key value written
    have read := @intAt_of _ key (some value) written
    exact congrArg (fun found => Option.getD found 0) read
  have identity : objectAt (dumped (bindingJson binding)) "identity" =
      some (dumped (identityJson binding.identity)) := objectAt_of rfl rfl
  have hints : objectAt (dumped (bindingJson binding)) "location_hints" =
      some (dumped (hintsJson binding.locationHints)) := objectAt_of rfl rfl
  have streams : (arrayAt (dumped (bindingJson binding)) "streams").map (parseStream casts) =
      binding.streams.map StreamMetadata.seen := by
    have written : arrayAt (dumped (bindingJson binding)) "streams" =
        Exec.dumpedItems (binding.streams.map streamJson) := rfl
    rw [written, Exec.dumpedItems_eq_map, List.map_map, List.map_map]
    exact List.map_congr_left fun stream mem => parseStream_streamJson (nonneg stream mem)
  rw [parseBinding, identity, hints, streams, texts "binding_id" "" binding.bindingId rfl,
    texts "media_role" _ binding.mediaRole rfl, texts "media_id" _ binding.mediaId rfl,
    texts "binding_contract" _ binding.bindingContract rfl,
    texts "verification_state" _ binding.verificationState rfl,
    ints "duration_us" binding.durationUs rfl, ints "size_bytes" binding.sizeBytes rfl,
    texts "container_format" _ binding.containerFormat rfl]
  simp only [Option.elim_some, parseIdentity_identityJson, parseHints_hintsJson]
  rfl

/-- Of the text of a document the tools see the document less what they do not read. -/
theorem parseMediaBindingJson_dump {lib : JsonLibrary} {doc : MediaBindingDocument}
    (nonneg : BitRatesNonneg doc)
    (inverse : lib.parse (dump lib (dumped (toJson doc))) = .ok (dumped (toJson doc))) :
    parseMediaBindingJson casts lib (dump lib (toJson doc)) =
      .ok { doc with bindings := doc.bindings.map MediaBinding.seen } := by
  rw [Exec.dump_dumped] at inverse
  have bindings : (arrayAt (dumped (toJson doc)) "bindings").mapM (parseBinding casts) =
      .ok (doc.bindings.map MediaBinding.seen) := by
    have written : arrayAt (dumped (toJson doc)) "bindings" =
        Exec.dumpedItems (doc.bindings.map bindingJson) := rfl
    rw [written, Exec.dumpedItems_eq_map, List.mapM_map, List.mapM_map]
    exact Exec.mapM_eq_pure fun binding mem => parseBinding_bindingJson (nonneg binding mem)
  have steps : parseMediaBindingJson casts lib (dump lib (toJson doc)) = (do
      let bindings ← (arrayAt (dumped (toJson doc)) "bindings").mapM (parseBinding casts)
      return { doc with bindings }) := by
    rw [parseMediaBindingJson, inverse]
    rfl
  rw [steps, bindings]
  rfl

/-! ## Where the readers agree -/

/-- Nothing the tools do not read: no sample width, no number that is not finite, no volume and
no time of the last sighting, and no chunk proof without chunks. -/
def MediaBinding.Read (binding : MediaBinding) : Prop :=
  (∀ stream ∈ binding.streams, stream.bitsPerSample = none ∧
    ∀ rate, stream.frameRate = some rate → isFinite rate = true) ∧
  (∀ proof, binding.identity.chunkProof = some proof → 0 < proof.chunkCount) ∧
  binding.locationHints.volumeHint = "" ∧ binding.locationHints.lastSeenUtc = ""

/-- An optional value passes a filter unchanged if it meets it. -/
theorem filter_eq_self_iff {α : Type} {o : Option α} {p : α → Bool} :
    o.filter p = o ↔ ∀ a, o = some a → p a = true := by
  cases o with
  | none => exact iff_of_true rfl fun a eq => nomatch eq
  | some a =>
    rw [Option.filter_eq_some_iff]
    constructor
    · rintro ⟨_, holds⟩ b eq
      exact Option.some_injective _ eq ▸ holds
    · exact fun holds => ⟨rfl, holds a rfl⟩

theorem seen_stream_iff {metadata : StreamMetadata} : metadata.seen = metadata ↔
    metadata.bitsPerSample = none ∧ ∀ rate, metadata.frameRate = some rate → isFinite rate = true := by
  rw [StreamMetadata.seen, StreamMetadata.mk.injEq, filter_eq_self_iff, eq_comm (a := none)]
  simp only [true_and, and_comm]

theorem seen_identity_iff {identity : MediaIdentity} : identity.seen = identity ↔
    ∀ proof, identity.chunkProof = some proof → 0 < proof.chunkCount := by
  rw [MediaIdentity.seen, MediaIdentity.mk.injEq, filter_eq_self_iff]
  simp only [true_and, decide_eq_true_eq, gt_iff_lt]

theorem seen_hints_iff {hints : LocationHints} : hints.seen = hints ↔
    hints.volumeHint = "" ∧ hints.lastSeenUtc = "" := by
  rw [LocationHints.seen, LocationHints.mk.injEq]
  simp only [true_and, eq_comm]

theorem map_eq_self_iff {α : Type} {f : α → α} {l : List α} : l.map f = l ↔ ∀ a ∈ l, f a = a := by
  have same := @List.map_inj_left _ _ l f id
  rwa [List.map_id] at same

theorem seen_binding_iff {binding : MediaBinding} : binding.seen = binding ↔ binding.Read := by
  rw [MediaBinding.seen, MediaBinding.mk.injEq, map_eq_self_iff, seen_identity_iff, seen_hints_iff,
    MediaBinding.Read]
  simp only [true_and, seen_stream_iff]

/-- Reading back gives the document, and the tools see the same one exactly where it holds
nothing they do not read. -/
theorem readers_agree_iff {lib : JsonLibrary} {doc : MediaBindingDocument}
    (nonneg : BitRatesNonneg doc)
    (inverse : lib.parse (dump lib (dumped (toJson doc))) = .ok (dumped (toJson doc))) :
    (mediaBindingDocumentFromJson casts (toJson doc) = .ok doc ∧
      parseMediaBindingJson casts lib (dump lib (toJson doc)) = .ok doc) ↔
      ∀ binding ∈ doc.bindings, binding.Read := by
  rw [and_iff_right (mediaBindingDocumentFromJson_toJson nonneg),
    parseMediaBindingJson_dump nonneg inverse, Except.ok.injEq, MediaBindingDocument.mk.injEq,
    map_eq_self_iff]
  simp only [true_and, seen_binding_iff]

/-- A document of one binding with one stream. -/
def streamDocument (stream : StreamMetadata) : MediaBindingDocument :=
  { bindings := [{ streams := [stream] }] }

/-- A library whose parser knows the text of one document. -/
def streamLibrary (stream : StreamMetadata) : JsonLibrary where
  floatText _ := []
  floatText_plain := Exec.noFloatText_plain
  parse _ := .ok (dumped (toJson (streamDocument stream)))

theorem bitRatesNonneg_stream {stream : StreamMetadata} (nonneg : 0 ≤ stream.bitRate) :
    BitRatesNonneg (streamDocument stream) := by
  intro binding mem other memStream
  rw [List.mem_singleton.mp mem] at memStream
  rwa [List.mem_singleton.mp memStream]

theorem readers_agree_codec :
    mediaBindingDocumentFromJson ⟨fun _ => 0, fun _ => 0⟩
        (toJson (streamDocument { codecName := "aac" })) =
      .ok (streamDocument { codecName := "aac" }) ∧
    parseMediaBindingJson ⟨fun _ => 0, fun _ => 0⟩ (streamLibrary { codecName := "aac" })
        (dump (streamLibrary { codecName := "aac" })
          (toJson (streamDocument { codecName := "aac" }))) =
      .ok (streamDocument { codecName := "aac" }) := by
  refine (readers_agree_iff (bitRatesNonneg_stream (by decide)) rfl).mpr fun binding mem => ?_
  rw [List.mem_singleton.mp mem]
  refine ⟨fun stream memStream => ?_, fun proof eq => (Option.some_ne_none proof eq.symm).elim, rfl,
    rfl⟩
  rw [List.mem_singleton.mp memStream]
  exact ⟨rfl, fun rate eq => (Option.some_ne_none rate eq.symm).elim⟩

/-- The tools do not see the sample width. -/
theorem sample_width_unseen :
    BitRatesNonneg (streamDocument { bitsPerSample := some 16 }) ∧
      parseMediaBindingJson ⟨fun _ => 0, fun _ => 0⟩ (streamLibrary { bitsPerSample := some 16 })
          (dump (streamLibrary { bitsPerSample := some 16 })
            (toJson (streamDocument { bitsPerSample := some 16 }))) ≠
        .ok (streamDocument { bitsPerSample := some 16 }) := by
  have nonneg := @bitRatesNonneg_stream { bitsPerSample := some 16 } (by decide)
  refine ⟨nonneg, fun same => ?_⟩
  have read := @parseMediaBindingJson_dump ⟨fun _ => 0, fun _ => 0⟩
    (streamLibrary { bitsPerSample := some 16 }) _ nonneg rfl
  have docs := Except.ok.inj (same.symm.trans read)
  exact absurd docs (by decide)

end Svp.Package
