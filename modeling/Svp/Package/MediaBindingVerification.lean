import Svp.Package.MediaBindingFactory

/-!
# Verifying a media binding

`verifyMediaBinding` compares a candidate with what a binding document says of its first
media: size and digest, then what ffprobe says, then the chunks.

A document that was created for a file, written and read by the tools, is verified by the
same bytes and no others (`verifyMediaBinding_created`).
-/

namespace Svp.Package

open Exec (Bytes Blake3Digest Json JsonLibrary dump dumped blake3Hex)

inductive BindingVerificationState
  | verified
  | mismatch
  | pending
  | unavailable
deriving DecidableEq

structure BindingVerificationResult where
  state : BindingVerificationState := .unavailable
  stateLabel : String := ""
  passingChecks : List String := []
  failingChecks : List String := []
  candidatePath : String := ""
  candidateSizeBytes : Int64 := 0
  candidateBlake3 : String := ""

namespace BindingVerificationResult

def passed (result : BindingVerificationResult) (check : String) : BindingVerificationResult :=
  { result with passingChecks := result.passingChecks ++ [check] }

def noted (result : BindingVerificationResult) (check : String) : BindingVerificationResult :=
  { result with failingChecks := result.failingChecks ++ [check] }

def mismatched (result : BindingVerificationResult) (check : String) : BindingVerificationResult :=
  { result.noted check with state := .mismatch, stateLabel := "mismatch" }

def lacking (result : BindingVerificationResult) (check : String) : BindingVerificationResult :=
  { result.noted check with state := .unavailable, stateLabel := "unavailable" }

def postponed (result : BindingVerificationResult) (check : String) : BindingVerificationResult :=
  { result.noted check with state := .pending, stateLabel := "pending" }

end BindingVerificationResult

/-- A check passes a result on, or returns it. -/
abbrev Checked := Except BindingVerificationResult BindingVerificationResult

variable (machine : Machine)

/-! ## The checks -/

def checkSize (binding : MediaBinding) (result : BindingVerificationResult) : Checked :=
  if result.candidateSizeBytes ≠ binding.sizeBytes then
    .error (result.mismatched "size_bytes mismatch")
  else .ok (result.passed "size_bytes")

def checkDigest (fuel : Nat) (binding : MediaBinding) (candidate : FileAt)
    (result : BindingVerificationResult) : Option Checked :=
  if binding.identity.blake3State = .present ∧ binding.identity.blake3Hash ≠ "" then do
    let candidateBlake3 ← blake3HexForFile machine fuel candidate
    let result := { result with candidateBlake3 }
    if candidateBlake3 = "" then
      return .error (result.lacking "could not compute BLAKE3 for candidate")
    else if candidateBlake3 ≠ binding.identity.blake3Hash then
      return .error (result.mismatched "full_file_blake3 mismatch")
    else return .ok (result.passed "full_file_blake3")
  else if binding.identity.blake3State = .pending then
    some (.error (result.postponed "full_file_blake3 is pending in binding"))
  else some (.error (result.lacking "full_file_blake3 is unavailable in binding"))

def checkDuration (binding : MediaBinding) (candidateDuration : Int64)
    (result : BindingVerificationResult) : Checked :=
  if candidateDuration > 0 ∧ candidateDuration ≠ binding.durationUs then
    .error (result.mismatched "duration_us mismatch")
  else if candidateDuration > 0 then .ok (result.passed "duration_us")
  else .ok result

def checkFormat (binding : MediaBinding) (candidateFormat : String)
    (result : BindingVerificationResult) : Checked :=
  if binding.containerFormat ≠ "" ∧ binding.containerFormat ≠ "unknown" then
    if candidateFormat ≠ "" ∧ candidateFormat ≠ "unknown" ∧
        candidateFormat ≠ binding.containerFormat then
      .error (result.mismatched "container_format mismatch")
    else .ok (result.passed "container_format")
  else .ok result

/-- The first index at which the codecs differ. -/
def codecMismatch : Nat → List StreamMetadata → List StreamMetadata → Option Nat
  | i, bound :: streams, candidate :: candidates =>
    if bound.codecName ≠ candidate.codecName then some i
    else codecMismatch (i + 1) streams candidates
  | _, _, _ => none

def checkStreams (binding : MediaBinding) (candidateStreams : List StreamMetadata)
    (result : BindingVerificationResult) : Checked :=
  if binding.streams ≠ [] ∧ candidateStreams ≠ [] then
    if candidateStreams.length ≠ binding.streams.length then
      .error (result.mismatched "stream count mismatch")
    else
      match codecMismatch 0 binding.streams candidateStreams with
      | some i =>
        .error (result.mismatched ("stream codec_name mismatch at index " ++ toString i))
      | none => .ok (result.passed "streams")
  else .ok result

/-- What is checked of a probe. Where it throws, the checks before it stand. -/
def checkProbe (binding : MediaBinding) (probe : Except String MediaProbe)
    (result : BindingVerificationResult) : Checked :=
  let unprobed := fun result : BindingVerificationResult =>
    Except.ok (result.noted "could not probe candidate media for metadata")
  match probe with
  | .error _ => unprobed result
  | .ok probe =>
    match durationUsFromProbe machine probe with
    | .error _ => unprobed result
    | .ok candidateDuration => do
      let result ← checkDuration binding candidateDuration result
      let result ← checkFormat binding (containerFormatFromProbe probe) result
      match streamsFromProbe machine probe with
      | .error _ => unprobed result
      | .ok candidateStreams => checkStreams binding candidateStreams result

def checkChunks (fuel : Nat) (binding : MediaBinding) (candidate : FileAt)
    (result : BindingVerificationResult) : Option Checked :=
  match binding.identity.chunkProof with
  | some expectedProof =>
    if expectedProof.chunkCount > 0 ∧ expectedProof.chunkSizeBytes > 0 then do
      let candidateProof ← computeChunkProof machine fuel candidate expectedProof.chunkSizeBytes
        result.candidateSizeBytes
      if candidateProof.chunkCount ≠ expectedProof.chunkCount then
        return .error (result.mismatched "chunk_proof chunk_count mismatch")
      else if candidateProof.lastChunkHash ≠ expectedProof.lastChunkHash then
        return .error (result.mismatched "chunk_proof last_chunk_hash mismatch")
      else if candidateProof.lastChunkSize ≠ expectedProof.lastChunkSize then
        return .error (result.mismatched "chunk_proof last_chunk_size mismatch")
      else return .ok (result.passed "chunk_proof")
    else some (.ok result)
  | none => some (.ok result)

/-! ## Verification -/

/-- The checks after the size, one after the other. -/
def verifyContent (fuel : Nat) (binding : MediaBinding) (candidate : FileAt)
    (result : BindingVerificationResult) : Option BindingVerificationResult := do
  match ← checkDigest machine fuel binding candidate result with
  | .error returned => return returned
  | .ok result =>
    let probed : Checked :=
      if binding.durationUs > 0 then
        checkProbe machine binding (probeMediaWithFfprobe machine candidate "ffprobe") result
      else .ok result
    match probed with
    | .error returned => return returned
    | .ok result =>
      match ← checkChunks machine fuel binding candidate result with
      | .error returned => return returned
      | .ok result => return { result with state := .verified, stateLabel := "verified" }

def verifyMediaBinding (fuel : Nat) (candidatePath : String) (candidate : FileAt)
    (bindingDoc : MediaBindingDocument) : Option BindingVerificationResult :=
  let result : BindingVerificationResult := { candidatePath }
  match bindingDoc.bindings with
  | [] => some (result.lacking "no bindings in media_binding.json")
  | binding :: _ =>
    match candidate with
    | .missing => some (result.lacking "candidate media file does not exist")
    | candidate =>
      let result := { result with candidateSizeBytes := fileSizeBytes candidate }
      match checkSize binding result with
      | .error returned => some returned
      | .ok result => verifyContent machine fuel binding candidate result

/-! ## The same bytes -/

section Same

variable {machine} {binding : MediaBinding} {result : BindingVerificationResult}

theorem codecMismatch_seen (i : Nat) (streams : List StreamMetadata) :
    codecMismatch i (streams.map StreamMetadata.seen) streams = none := by
  induction streams generalizing i with
  | nil => rfl
  | cons stream rest ih =>
    rw [List.map_cons, codecMismatch]
    exact (if_neg (not_not.mpr rfl)).trans (ih (i + 1))

theorem checkDuration_same (result : BindingVerificationResult) :
    ∃ passed, checkDuration binding binding.durationUs result = .ok passed ∧
      passed.candidateSizeBytes = result.candidateSizeBytes := by
  rw [checkDuration, if_neg fun both => both.2 rfl]
  split
  · exact ⟨_, rfl, rfl⟩
  · exact ⟨_, rfl, rfl⟩

theorem checkFormat_same {candidateFormat : String}
    (same : binding.containerFormat = candidateFormat ∨ binding.containerFormat = "unknown")
    (result : BindingVerificationResult) :
    ∃ passed, checkFormat binding candidateFormat result = .ok passed ∧
      passed.candidateSizeBytes = result.candidateSizeBytes := by
  rw [checkFormat]
  rcases same with same | unknown
  · split
    · rw [if_neg fun three => three.2.2 same.symm]
      exact ⟨_, rfl, rfl⟩
    · exact ⟨_, rfl, rfl⟩
  · rw [if_neg fun both => both.2 unknown]
    exact ⟨_, rfl, rfl⟩

theorem checkStreams_same {candidateStreams : List StreamMetadata}
    (same : binding.streams = candidateStreams.map StreamMetadata.seen)
    (result : BindingVerificationResult) :
    ∃ passed, checkStreams binding candidateStreams result = .ok passed ∧
      passed.candidateSizeBytes = result.candidateSizeBytes := by
  rw [checkStreams, same, List.length_map, if_neg (not_not.mpr rfl), codecMismatch_seen]
  split
  · exact ⟨_, rfl, rfl⟩
  · exact ⟨_, rfl, rfl⟩

/-- What was recorded of a probe passes the same probe, wherever it throws. -/
theorem checkProbe_same {base : MediaBinding} {probe : Except String MediaProbe}
    (duration : binding.durationUs = (probed machine base probe).durationUs)
    (format : binding.containerFormat = (probed machine base probe).containerFormat)
    (streams : binding.streams = (probed machine base probe).streams.map StreamMetadata.seen)
    (result : BindingVerificationResult) :
    ∃ passed, checkProbe machine binding probe result = .ok passed ∧
      passed.candidateSizeBytes = result.candidateSizeBytes := by
  unfold checkProbe
  unfold probed at duration format streams
  cases probe with
  | error message => exact ⟨_, rfl, rfl⟩
  | ok probe =>
    cases converted : durationUsFromProbe machine probe with
    | error message =>
      simp only [converted]
      exact ⟨_, rfl, rfl⟩
    | ok candidateDuration =>
      simp only [converted] at duration format streams
      cases read : streamsFromProbe machine probe with
      | error message =>
        simp only [read] at duration format
        obtain ⟨first, checked, kept⟩ := @checkDuration_same binding result
        obtain ⟨second, checked', kept'⟩ :=
          @checkFormat_same _ (containerFormatFromProbe probe) (.inr format) first
        rw [duration] at checked
        simp only [converted, read, checked, checked', bind, Except.bind]
        exact ⟨_, rfl, kept'.trans kept⟩
      | ok candidateStreams =>
        simp only [read] at duration format streams
        obtain ⟨first, checked, kept⟩ := @checkDuration_same binding result
        obtain ⟨second, checked', kept'⟩ := checkFormat_same (.inl format) first
        obtain ⟨third, checked'', kept''⟩ := checkStreams_same streams second
        rw [duration] at checked
        simp only [converted, read, checked, checked', checked'', bind, Except.bind]
        exact ⟨_, rfl, kept''.trans (kept'.trans kept)⟩

/-- The chunks of the same bytes are the chunks that were recorded. -/
theorem checkChunks_same {bytes : Bytes} (some_ : bytes ≠ []) (small : bytes.length < 2 ^ 63)
    {options : MediaBindingFactoryOptions} (positive : 0 < options.chunkSizeBytes)
    (identity : binding.identity = (createdIdentity machine bytes options).seen)
    (size : result.candidateSizeBytes = .ofNat bytes.length) {fuel : Nat}
    (enough : bytes.length < fuel) :
    ∃ passed, checkChunks machine fuel binding (.readable bytes) result = some (.ok passed) := by
  unfold checkChunks
  cases recorded : binding.identity.chunkProof with
  | none => exact ⟨_, rfl⟩
  | some expectedProof =>
    have proof : expectedProof = chunkProofOf machine bytes options.chunkSizeBytes := by
      rw [identity] at recorded
      have kept := (Option.filter_eq_some_iff.mp recorded).1
      rw [createdIdentity] at kept
      split at kept
      · exact (Option.some.inj kept).symm
      · cases kept
    have computed := @computeChunkProof_eq machine bytes _ positive some_ small fuel enough
    subst proof
    dsimp only
    split
    · rw [size]
      simp only [show (chunkProofOf machine bytes options.chunkSizeBytes).chunkSizeBytes =
        options.chunkSizeBytes from rfl, computed, Option.bind_eq_bind, Option.bind_some, ne_eq,
        not_true_eq_false, if_false]
      exact ⟨_, rfl⟩
    · exact ⟨_, rfl⟩

end Same

/-! ## Any candidate -/

theorem digestText_injective {one other : Bytes}
    (same : digestText machine one = digestText machine other) :
    machine.blake3 one = machine.blake3 other := by
  rw [digestText, digestText, String.append_right_inj] at same
  exact Exec.blake3Hex_injective same

theorem probed_sizeBytes (base : MediaBinding) (probe : Except String MediaProbe) :
    (probed machine base probe).sizeBytes = base.sizeBytes := by
  unfold probed
  split
  · rfl
  · split
    · rfl
    · split <;> rfl

section Candidate

variable {machine} {binding : MediaBinding} {source : Bytes} {options : MediaBindingFactoryOptions}
  {result : BindingVerificationResult}

/-- The digest of a candidate against the digest of the source. -/
theorem checkDigest_readable (identity : binding.identity = (createdIdentity machine source options).seen)
    {bytes : Bytes} {fuel : Nat} (enough : bytes.length < fuel) :
    checkDigest machine fuel binding (.readable bytes) result =
      some (if digestText machine bytes ≠ digestText machine source then
        .error ({ result with candidateBlake3 := digestText machine bytes }.mismatched
          "full_file_blake3 mismatch")
      else .ok ({ result with candidateBlake3 := digestText machine bytes }.passed
        "full_file_blake3")) := by
  have recorded : binding.identity.blake3State = .present ∧
      binding.identity.blake3Hash = digestText machine source := by
    rw [identity]
    exact ⟨rfl, rfl⟩
  have some_ : binding.identity.blake3State = .present ∧ binding.identity.blake3Hash ≠ "" :=
    ⟨recorded.1, recorded.2 ▸ digestText_ne_empty source⟩
  rw [checkDigest, if_pos some_, blake3HexForFile_eq enough]
  simp only [Option.bind_eq_bind, Option.bind_some]
  rw [if_neg (digestText_ne_empty bytes), recorded.2]
  split
  · rfl
  · rfl

theorem verifyContent_unreadable
    (identity : binding.identity = (createdIdentity machine source options).seen) (size fuel : Nat) :
    ∃ returned, verifyContent machine fuel binding (.unreadable size) result = some returned ∧
      returned.state = .unavailable := by
  have some_ : binding.identity.blake3State = .present ∧ binding.identity.blake3Hash ≠ "" := by
    rw [identity]
    exact ⟨rfl, digestText_ne_empty source⟩
  rw [verifyContent, checkDigest, if_pos some_]
  exact ⟨_, rfl, rfl⟩

theorem verifyContent_other
    (identity : binding.identity = (createdIdentity machine source options).seen) {bytes : Bytes}
    (different : digestText machine bytes ≠ digestText machine source) {fuel : Nat}
    (enough : bytes.length < fuel) :
    ∃ returned, verifyContent machine fuel binding (.readable bytes) result = some returned ∧
      returned.state = .mismatch := by
  rw [verifyContent, checkDigest_readable identity enough, if_pos different]
  exact ⟨_, rfl, rfl⟩

theorem verifyContent_same (some_ : source ≠ []) (small : source.length < 2 ^ 63)
    (positive : 0 < options.chunkSizeBytes) {base : MediaBinding}
    (identity : binding.identity = (createdIdentity machine source options).seen)
    (duration : binding.durationUs =
      (probed machine base (machine.ffprobe "ffprobe" source)).durationUs)
    (format : binding.containerFormat =
      (probed machine base (machine.ffprobe "ffprobe" source)).containerFormat)
    (streams : binding.streams =
      (probed machine base (machine.ffprobe "ffprobe" source)).streams.map StreamMetadata.seen)
    (size : result.candidateSizeBytes = .ofNat source.length) {fuel : Nat}
    (enough : source.length < fuel) :
    ∃ returned, verifyContent machine fuel binding (.readable source) result = some returned ∧
      returned.state = .verified := by
  let digested := { result with candidateBlake3 := digestText machine source }.passed "full_file_blake3"
  have chunks : ∀ passed : BindingVerificationResult,
      passed.candidateSizeBytes = digested.candidateSizeBytes →
      ∃ last, checkChunks machine fuel binding (.readable source) passed = some (.ok last) :=
    fun passed kept => checkChunks_same some_ small positive identity (kept.trans size) enough
  rw [verifyContent, checkDigest_readable identity enough, if_neg (not_not.mpr rfl)]
  simp only [Option.bind_eq_bind, Option.bind_some]
  by_cases timed : binding.durationUs > 0
  · obtain ⟨passed, checked, kept⟩ := checkProbe_same duration format streams digested
    obtain ⟨last, verified⟩ := chunks passed kept
    rw [if_pos timed]
    simp only [probeMediaWithFfprobe, digested, checked, verified, Option.bind_some]
    exact ⟨_, rfl, rfl⟩
  · obtain ⟨last, verified⟩ := chunks digested rfl
    rw [if_neg timed]
    simp only [digested, verified, Option.bind_some]
    exact ⟨_, rfl, rfl⟩

end Candidate

/-! ## Created bindings -/

/-- The state tells the bound bytes from all others. -/
structure Decides (source : Bytes) (candidate : FileAt) (result : BindingVerificationResult) :
    Prop where
  verified : result.state = .verified ↔ candidate = .readable source
  mismatch : ∀ bytes, candidate = .readable bytes → bytes ≠ source → result.state = .mismatch

theorem decides_of_unverified {source : Bytes} {candidate : FileAt}
    {result : BindingVerificationResult} (closed : ∀ bytes, candidate ≠ .readable bytes)
    (unverified : result.state ≠ .verified) : Decides source candidate result :=
  ⟨⟨fun verified => absurd verified unverified, fun same => absurd same (closed source)⟩,
    fun bytes same => absurd same (closed bytes)⟩

theorem decides_of_mismatch {source bytes : Bytes} {result : BindingVerificationResult}
    (other : bytes ≠ source) (state : result.state = .mismatch) :
    Decides source (.readable bytes) result := by
  refine ⟨⟨fun verified => ?_, fun same => absurd (FileAt.readable.inj same) other⟩,
    fun _ _ _ => state⟩
  rw [state] at verified
  cases verified

section Created

variable {machine} {source : Bytes} {options : MediaBindingFactoryOptions} {path : SourcePath}
  {candidate : FileAt} {doc : MediaBindingDocument}

/-- The binding the tools see. -/
def seenBinding (machine : Machine) (path : SourcePath) (source : Bytes)
    (options : MediaBindingFactoryOptions) : MediaBinding :=
  MediaBinding.seen ((createdDocument machine path source options).bindings.headD {})

/-- The state a file is verified with once its size was compared. -/
theorem verify_after_size (here : candidate ≠ .missing)
    (bound : doc.bindings = [seenBinding machine path source options]) (fuel : Nat)
    (candidatePath : String) :
    verifyMediaBinding machine fuel candidatePath candidate doc =
      if fileSizeBytes candidate ≠ .ofNat source.length then
        some (BindingVerificationResult.mismatched
          { candidatePath, candidateSizeBytes := fileSizeBytes candidate } "size_bytes mismatch")
      else
        verifyContent machine fuel (seenBinding machine path source options) candidate
          (BindingVerificationResult.passed
            { candidatePath, candidateSizeBytes := fileSizeBytes candidate } "size_bytes") := by
  have size : (seenBinding machine path source options).sizeBytes = .ofNat source.length :=
    probed_sizeBytes machine _ _
  have steps : verifyMediaBinding machine fuel candidatePath candidate doc =
      match checkSize (seenBinding machine path source options)
        { candidatePath, candidateSizeBytes := fileSizeBytes candidate } with
      | .error returned => some returned
      | .ok result =>
        verifyContent machine fuel (seenBinding machine path source options) candidate result := by
    rw [verifyMediaBinding, bound]
    cases candidate with
    | missing => exact absurd rfl here
    | unreadable size => rfl
    | readable bytes => rfl
  rw [steps, checkSize, size]
  by_cases same : fileSizeBytes candidate = .ofNat source.length
  · rw [if_neg (not_not.mpr same), if_neg (not_not.mpr same)]
  · rw [if_pos same, if_pos same]

/-- A document the tools see as the created one decides every candidate. -/
theorem decides_created (some_ : source ≠ []) (small : source.length < 2 ^ 63)
    (positive : 0 < options.chunkSizeBytes)
    (deterministic : ∀ path other bytes, machine.ffprobe path bytes = machine.ffprobe other bytes)
    (collisionFree : ∀ bytes, machine.blake3 bytes = machine.blake3 source → bytes = source)
    (bound : doc.bindings = [seenBinding machine path source options]) (candidatePath : String)
    (candidate : FileAt) :
    ∃ enough, ∀ fuel, enough ≤ fuel →
      ∃ result, verifyMediaBinding machine fuel candidatePath candidate doc = some result ∧
        Decides source candidate result := by
  have identity : (seenBinding machine path source options).identity =
      (createdIdentity machine source options).seen := rfl
  cases candidate with
  | missing =>
    refine ⟨0, fun fuel _ => ?_⟩
    rw [verifyMediaBinding, bound]
    exact ⟨_, rfl, decides_of_unverified nofun nofun⟩
  | unreadable size =>
    refine ⟨0, fun fuel _ => ?_⟩
    have here : FileAt.unreadable size ≠ .missing := nofun
    rw [verify_after_size here bound]
    split
    · exact ⟨_, rfl, decides_of_unverified nofun nofun⟩
    · obtain ⟨returned, run, state⟩ := verifyContent_unreadable identity size fuel
      exact ⟨returned, run, decides_of_unverified nofun (by rw [state]; nofun)⟩
  | readable bytes =>
    refine ⟨bytes.length + 1, fun fuel enough => ?_⟩
    have here : FileAt.readable bytes ≠ .missing := nofun
    rw [verify_after_size here bound]
    by_cases same : bytes = source
    · subst same
      have probe : machine.ffprobe options.ffprobePath bytes = machine.ffprobe "ffprobe" bytes :=
        deterministic _ _ _
      obtain ⟨returned, run, state⟩ := @verifyContent_same machine
        (seenBinding machine path bytes options) bytes options (BindingVerificationResult.passed
          { candidatePath, candidateSizeBytes := fileSizeBytes (.readable bytes) } "size_bytes")
        some_ small positive
        { bindingId := options.bindingId, mediaRole := "primary_source", mediaId := options.mediaId
          bindingContract := kSvpiBindingContract, verificationState := "pending"
          sizeBytes := fileSizeBytes (.readable bytes) }
        identity (probe ▸ rfl) (probe ▸ rfl) (probe ▸ rfl) rfl fuel enough
      have equal : fileSizeBytes (.readable bytes) = .ofNat bytes.length := rfl
      rw [if_neg (not_not.mpr equal)]
      exact ⟨returned, run, ⟨fun _ => rfl, fun _ => state⟩, fun _ eq other =>
        absurd (FileAt.readable.inj eq).symm other⟩
    · split
      · exact ⟨_, rfl, decides_of_mismatch same rfl⟩
      · have different : digestText machine bytes ≠ digestText machine source := fun eq =>
          same (collisionFree bytes (digestText_injective machine eq))
        obtain ⟨returned, run, state⟩ := verifyContent_other identity different enough
        exact ⟨returned, run, decides_of_mismatch same state⟩

/-- A file that was bound is told from all others, through the text of its binding. The probe
and the digest depend on the bytes alone, and no other bytes have the digest of the source. The
size of a file is a `std::streamoff`. -/
theorem verifyMediaBinding_created {casts : Casts} {lib : JsonLibrary} (some_ : source ≠ [])
    (small : source.length < 2 ^ 63) (full : options.computeFullBlake3 = true)
    (positive : 0 < options.chunkSizeBytes)
    (deterministic : ∀ path other bytes, machine.ffprobe path bytes = machine.ffprobe other bytes)
    (collisionFree : ∀ bytes, machine.blake3 bytes = machine.blake3 source → bytes = source)
    (inverse : lib.parse (dump lib (dumped (toJson (createdDocument machine path source options)))) =
      .ok (dumped (toJson (createdDocument machine path source options)))) :
    (∃ created parsed,
      (∀ fuel, source.length < fuel →
        createMediaBinding machine fuel path (.readable source) options = some created) ∧
      parseMediaBindingJson casts lib (dump lib (toJson created)) = .ok parsed ∧
      ∀ candidatePath candidate, ∃ enough, ∀ fuel, enough ≤ fuel →
        ∃ result, verifyMediaBinding machine fuel candidatePath candidate parsed = some result ∧
          Decides source candidate result) ∧
    ∀ fuel, source.length < fuel →
      ∃ proof, computeChunkProof machine fuel (.readable source) options.chunkSizeBytes
          (fileSizeBytes (.readable source)) = some proof ∧
        CountsChunks machine source options.chunkSizeBytes proof := by
  constructor
  · refine ⟨_, _, fun fuel enough => createMediaBinding_eq some_ small full positive path enough,
      parseMediaBindingJson_dump (bitRatesNonneg_created path options) inverse, ?_⟩
    exact decides_created some_ small positive deterministic collisionFree rfl
  · intro fuel enough
    exact ⟨_, computeChunkProof_eq positive some_ small enough,
      chunkProofOf_counts positive some_ small⟩

end Created

/-! Three bytes in chunks of two, with a probe that knows a duration and a stream. -/

def threeMachine : Machine where
  blake3 bytes := if bytes = [1, 2, 3] then .fill 1 else .fill 0
  ffprobe _ _ := .ok
    { formatName := "wav"
      containerTiming := some { timebase := ⟨1, 1000⟩, durationPts := some 5 }
      audioStreams := [⟨"pcm_s16le", 16000, 1, {}⟩] }
  overflow _ _ := .error "overflow"
  quotient _ _ := 0

def threeOptions : MediaBindingFactoryOptions := { chunkSizeBytes := 2 }

def threePath : SourcePath := ⟨"take.wav", "/media/take.wav", ""⟩

/-- A library whose parser knows the text of that document. -/
def threeLibrary : JsonLibrary where
  floatText _ := []
  floatText_plain := Exec.noFloatText_plain
  parse _ := .ok (dumped (toJson (createdDocument threeMachine threePath [1, 2, 3] threeOptions)))

theorem verifyMediaBinding_created_three :
    (∃ created parsed,
      (∀ fuel, 3 < fuel →
        createMediaBinding threeMachine fuel threePath (.readable [1, 2, 3]) threeOptions =
          some created) ∧
      parseMediaBindingJson ⟨fun _ => 0, fun _ => 0⟩ threeLibrary (dump threeLibrary (toJson created)) =
        .ok parsed ∧
      ∀ candidatePath candidate, ∃ enough, ∀ fuel, enough ≤ fuel →
        ∃ result, verifyMediaBinding threeMachine fuel candidatePath candidate parsed = some result ∧
          Decides [1, 2, 3] candidate result) ∧
    ∀ fuel, 3 < fuel →
      ∃ proof, computeChunkProof threeMachine fuel (.readable [1, 2, 3]) 2
          (fileSizeBytes (.readable [1, 2, 3])) = some proof ∧
        CountsChunks threeMachine [1, 2, 3] 2 proof := by
  have small : ([1, 2, 3] : Bytes).length < 2 ^ 63 := by decide
  have positive : 0 < threeOptions.chunkSizeBytes := by decide
  refine verifyMediaBinding_created (List.cons_ne_nil _ _) small rfl positive (fun _ _ _ => rfl)
    (fun bytes same => ?_) rfl
  by_contra other
  rw [threeMachine] at same
  dsimp only at same
  rw [if_neg other, if_pos rfl] at same
  have first := congrArg (fun digest : Blake3Digest => digest.bytes.head?) same
  exact absurd first (by decide)

end Svp.Package
