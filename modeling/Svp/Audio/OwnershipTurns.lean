import Svp.Lib.Binary64

/-!
# Turns of microphones

What one microphone heard is cut into turns, and two turns of two microphones are compared by
their tokens, their times and the voices in them. A pair of turns that say the same is proven
to be a duplicate capture.

Levels are exact numbers, and the similarity of two fingerprints any number.
-/

namespace Svp.Audio.Ownership

open Lib (round64)

abbrev Token : Type := List UInt8

structure TimeSpan where
  startUs : Int
  endUs : Int
deriving DecidableEq

/-- A recognized word, its text in bytes. -/
structure AsrWord where
  text : List UInt8
  startUs : Int
  endUs : Int
  chunkOrdinal : Int
deriving DecidableEq

def AsrWord.timing (word : AsrWord) : TimeSpan := ⟨word.startUs, word.endUs⟩

structure MicrophoneDeduplicationPolicy where
  minimumVoiceFingerprintSimilarity : ℚ := 0.60
  maximumContraryVoiceFingerprintSimilarity : ℚ := 0.20
  minimumDuplicateChunkTokenAlignmentRatio : ℚ := 0.50
  minimumDuplicateAlignedTokenCount : Nat := 2
  maximumDuplicateWordTimeDeltaUs : Int := 1500000
  maximumResidualWindowRadiusUs : Int := 3000000
  maximumSpeakerSegmentGapUs : Int := 750000

variable {F : Type}

structure MicrophoneVoiceTrack (F : Type) where
  speechSegments : List TimeSpan
  fingerprint : F

structure MicrophoneSignalFrame where
  timing : TimeSpan
  signalDb : ℚ

structure MicrophoneTranscript (F : Type) where
  sourceOrdinal : Nat
  words : List AsrWord
  voiceTracks : List (MicrophoneVoiceTrack F)
  noiseFloorDb : Option ℚ
  frames : List MicrophoneSignalFrame

structure OwnershipTurn where
  chunkOrdinal : Int
  timing : TimeSpan
  words : List AsrWord
  tokens : List Token

/-! ## Tokens -/

def isUpper (c : UInt8) : Bool := decide (0x41 ≤ c ∧ c ≤ 0x5A)

def isAlnum (c : UInt8) : Bool :=
  decide (0x30 ≤ c ∧ c ≤ 0x39) || isUpper c || decide (0x61 ≤ c ∧ c ≤ 0x7A)

def toLower (c : UInt8) : UInt8 := if isUpper c then c + 0x20 else c

def isSpace (c : UInt8) : Bool := c == 0x20 || decide (0x09 ≤ c ∧ c ≤ 0x0D)

def normalizedToken (text : List UInt8) : Token := (text.filter isAlnum).map toLower

/-- The texts' tokens, without the empty ones. -/
def wordTokens (words : List AsrWord) : List Token :=
  (words.map fun word => normalizedToken word.text).filter (! ·.isEmpty)

/-- A row of the table from the one before it: `cur` is the last length of the row so far. -/
def nextRow (token : Token) : List Token → List Nat → Nat → List Nat
  | r :: right, p :: p' :: before, cur =>
    let length := if token = r then p + 1 else max p' cur
    length :: nextRow token right (p' :: before) length
  | _, _, _ => []

/-- The lengths of common subsequences of prefixes. -/
def lcsTable (left right : List Token) : List (List Nat) :=
  left.scanl (fun before token => 0 :: nextRow token right before 0)
    (List.replicate (right.length + 1) 0)

/-- The way back through the table. -/
def traceBack (table : List (List Nat)) (left right : List Token) :
    Nat → Nat → Nat → List Token → List Token
  | fuel + 1, i + 1, j + 1, aligned =>
    let lengthAt := fun i j => (table.getD i []).getD j 0
    let token := left.getD i []
    if token = right.getD j [] then traceBack table left right fuel i j (token :: aligned)
    else if lengthAt (i + 1) j ≤ lengthAt i (j + 1) then
      traceBack table left right fuel i (j + 1) aligned
    else traceBack table left right fuel (i + 1) j aligned
  | _, _, _, aligned => aligned

def lcsTokens (left right : List Token) : List Token :=
  traceBack (lcsTable left right) left right (left.length + right.length) left.length right.length []

/-- The share of tokens that are aligned, in doubles. -/
def alignmentRatio (aligned tokenTotal : Nat) : ℚ :=
  if 0 < tokenTotal then round64 (2 * round64 aligned / round64 tokenTotal) else 0

/-! ## Levels -/

/-- The median of a list that is not empty. -/
def median (levels : List ℚ) : ℚ :=
  let sorted := levels.insertionSort (· ≤ ·)
  let middle := sorted.length / 2
  if sorted.length % 2 ≠ 0 then sorted.getD middle 0
  else (sorted.getD (middle - 1) 0 + sorted.getD middle 0) / 2

def localSnrDb (transcript : MicrophoneTranscript F) (timing : TimeSpan) : Option ℚ :=
  match transcript.noiseFloorDb with
  | none => none
  | some noiseFloorDb =>
    let levels := ((transcript.frames.takeWhile fun frame => decide (frame.timing.startUs < timing.endUs)).filter
      fun frame => decide (max frame.timing.startUs timing.startUs <
        min frame.timing.endUs timing.endUs)).map MicrophoneSignalFrame.signalDb
    if levels.isEmpty then none else some (median levels - noiseFloorDb)

/-- The other microphone is the stronger one over its time. -/
def isStronger (own other : MicrophoneTranscript F) (ownTiming otherTiming : TimeSpan) : Bool :=
  match localSnrDb own ownTiming, localSnrDb other otherTiming with
  | some ownSnr, some otherSnr => decide (ownSnr < otherSnr)
  | _, _ => false

/-! ## Voices -/

def overlapUs (left right : TimeSpan) : Int :=
  max 0 (min left.endUs right.endUs - max left.startUs right.startUs)

def trackOverlapUs (track : MicrophoneVoiceTrack F) (timing : TimeSpan) : Int :=
  ((track.speechSegments.takeWhile fun segment => decide (segment.startUs < timing.endUs)).map
    fun segment => overlapUs segment timing).sum

/-- The track found so far, its overlap, and whether another one has the same. -/
structure BestTrack (F : Type) where
  best : Option (MicrophoneVoiceTrack F) := none
  bestOverlapUs : Int := 0
  tied : Bool := false

def BestTrack.next (timing : TimeSpan) (found : BestTrack F) (track : MicrophoneVoiceTrack F) :
    BestTrack F :=
  let candidateOverlapUs := trackOverlapUs track timing
  if candidateOverlapUs > found.bestOverlapUs then ⟨some track, candidateOverlapUs, false⟩
  else if candidateOverlapUs > 0 ∧ candidateOverlapUs = found.bestOverlapUs then
    { found with tied := true }
  else found

def dominantTrackAtTiming (transcript : MicrophoneTranscript F) (timing : TimeSpan) :
    Option (MicrophoneVoiceTrack F) :=
  let found := transcript.voiceTracks.foldl (BestTrack.next timing) {}
  if found.tied then none else found.best

variable (similarity : F → F → ℚ)

/-- The similarity of the voices in two spans, where both have a dominant one. -/
def localSimilarity (left right : MicrophoneTranscript F) (leftTiming rightTiming : TimeSpan) :
    Option ℚ :=
  match dominantTrackAtTiming left leftTiming, dominantTrackAtTiming right rightTiming with
  | some leftTrack, some rightTrack => some (similarity leftTrack.fingerprint rightTrack.fingerprint)
  | _, _ => none

def localFingerprintNotContrary (left right : MicrophoneTranscript F)
    (leftTiming rightTiming : TimeSpan) (policy : MicrophoneDeduplicationPolicy) : Bool :=
  (localSimilarity similarity left right leftTiming rightTiming).any fun found =>
    decide (policy.maximumContraryVoiceFingerprintSimilarity < found)

def localFingerprintMatches (left right : MicrophoneTranscript F)
    (leftTiming rightTiming : TimeSpan) (policy : MicrophoneDeduplicationPolicy) : Bool :=
  (localSimilarity similarity left right leftTiming rightTiming).any fun found =>
    decide (policy.minimumVoiceFingerprintSimilarity ≤ found)

/-! ## Turns -/

/-- The last byte that is no space ends a sentence. -/
def terminalPunctuation (text : List UInt8) : Bool :=
  match text.reverse.dropWhile isSpace with
  | c :: _ => c == 0x2E || c == 0x3F || c == 0x21
  | [] => false

def beginsTurn (policy : MicrophoneDeduplicationPolicy) (previous : Option AsrWord) (word : AsrWord) :
    Bool :=
  match previous with
  | none => true
  | some previous =>
    decide (word.chunkOrdinal ≠ previous.chunkOrdinal) || terminalPunctuation previous.text ||
      decide (policy.maximumSpeakerSegmentGapUs < word.startUs - previous.endUs)

def startTurn (word : AsrWord) : OwnershipTurn where
  chunkOrdinal := word.chunkOrdinal
  timing := word.timing
  words := [word]
  tokens := wordTokens [word]

def OwnershipTurn.extend (turn : OwnershipTurn) (word : AsrWord) : OwnershipTurn :=
  { turn with
    timing := { turn.timing with endUs := max turn.timing.endUs word.endUs }
    words := turn.words ++ [word]
    tokens := turn.tokens ++ wordTokens [word] }

/-- The turns from `current` on, where `previous` is its last word. -/
def turnsFrom (policy : MicrophoneDeduplicationPolicy) :
    OwnershipTurn → AsrWord → List AsrWord → List OwnershipTurn
  | current, _, [] => [current]
  | current, previous, word :: rest =>
    if beginsTurn policy (some previous) word then
      current :: turnsFrom policy (startTurn word) word rest
    else turnsFrom policy (current.extend word) word rest

/-- The order of the words: by chunk, then by start. -/
def wordBefore (left right : AsrWord) : Prop :=
  left.chunkOrdinal < right.chunkOrdinal ∨
    (left.chunkOrdinal = right.chunkOrdinal ∧ left.startUs ≤ right.startUs)

instance : DecidableRel wordBefore := fun _ _ => inferInstanceAs (Decidable (_ ∨ _))

/-- `sort` is `std::sort` by that order, which may permute equal words. -/
def buildOwnershipTurns (sort : List AsrWord → List AsrWord) (transcript : MicrophoneTranscript F)
    (policy : MicrophoneDeduplicationPolicy) : List OwnershipTurn :=
  match sort transcript.words with
  | [] => []
  | word :: rest => turnsFrom policy (startTurn word) word rest

def turnsAreTimeAligned (left right : OwnershipTurn) (policy : MicrophoneDeduplicationPolicy) : Bool :=
  decide (left.chunkOrdinal = right.chunkOrdinal ∧
    left.timing.startUs ≤ right.timing.endUs + policy.maximumDuplicateWordTimeDeltaUs ∧
    right.timing.startUs ≤ left.timing.endUs + policy.maximumDuplicateWordTimeDeltaUs)

def wordInTurn (word : AsrWord) (turn : OwnershipTurn) : Bool :=
  decide (word.chunkOrdinal = turn.chunkOrdinal ∧ turn.timing.startUs ≤ word.startUs ∧
    word.endUs ≤ turn.timing.endUs)

/-- A turn has one chunk. -/
theorem turnsFrom_chunk {policy : MicrophoneDeduplicationPolicy} {current : OwnershipTurn}
    {previous : AsrWord} {words : List AsrWord}
    (last : previous.chunkOrdinal = current.chunkOrdinal)
    (one : ∀ word ∈ current.words, word.chunkOrdinal = current.chunkOrdinal) :
    ∀ turn ∈ turnsFrom policy current previous words, ∀ word ∈ turn.words,
      word.chunkOrdinal = turn.chunkOrdinal := by
  induction words generalizing current previous with
  | nil =>
    intro turn mem
    rw [turnsFrom, List.mem_singleton] at mem
    exact mem ▸ one
  | cons word rest ih =>
    rw [turnsFrom]
    split
    · refine List.forall_mem_cons.mpr ⟨one, ih rfl fun other mem => ?_⟩
      rw [List.mem_singleton.mp mem]
      rfl
    · next continues =>
      have chunk : word.chunkOrdinal = current.chunkOrdinal := by
        simp only [beginsTurn, Bool.or_eq_true, decide_eq_true_eq, not_or, not_not] at continues
        exact continues.1.1.trans last
      refine ih chunk fun other mem => ?_
      rcases List.mem_append.mp mem with mem | mem
      · exact one other mem
      · rw [List.mem_singleton.mp mem]
        exact chunk

theorem buildOwnershipTurns_chunk {sort : List AsrWord → List AsrWord}
    {transcript : MicrophoneTranscript F} {policy : MicrophoneDeduplicationPolicy} :
    ∀ turn ∈ buildOwnershipTurns sort transcript policy, ∀ word ∈ turn.words,
      word.chunkOrdinal = turn.chunkOrdinal := by
  rw [buildOwnershipTurns]
  split
  · exact List.forall_mem_nil _
  · refine turnsFrom_chunk rfl fun word mem => ?_
    rw [List.mem_singleton.mp mem]
    rfl

end Svp.Audio.Ownership
