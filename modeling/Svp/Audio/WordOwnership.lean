import Svp.Audio.OwnershipTurns
import Svp.Lib.OrderedMap

/-!
# Ownership of words

`reconcileCrossAnchorWordOwnership` keeps or discards each candidate word of the microphones
that anchor a voice. A word is discarded where another microphone said the same more strongly,
by one of three rules: over a pair of turns, over a window around the word, or as the
continuation of a turn that lost.

The continuation rule looks at the other side of the chunk, whether that one is the weaker one
too. The other two rules do not.
-/

namespace Svp.Audio.Ownership

open Lib (OrderedMap)

variable {F : Type} (similarity : F → F → ℚ) (sort : List AsrWord → List AsrWord)

/-! ## Inputs and evidence -/

structure MicrophoneOwnedWordCandidate where
  word : AsrWord
  voiceGroup : Nat
  sourceOrdinal : Nat
deriving DecidableEq

structure MicrophoneSpeakerAnchor where
  voiceGroup : Nat
  transcriptIndex : Nat

/-- An anchor with the transcript it points to. -/
structure Anchor (F : Type) where
  voiceGroup : Nat
  transcript : MicrophoneTranscript F

structure MicrophoneChunkContentEvidence where
  leftSourceOrdinal : Nat
  rightSourceOrdinal : Nat
  chunkOrdinal : Int
  leftTokenCount : Nat
  rightTokenCount : Nat
  alignedTokenCount : Nat
  tokenAlignmentRatio : ℚ
  timeAligned : Bool
  localFingerprintNotContrary : Bool
  duplicateCaptureProven : Bool

structure MicrophoneDiscardedWordEvidence where
  text : List UInt8
  startUs : Int
  endUs : Int
  chunkOrdinal : Int
  sourceOrdinal : Nat
  strongerSourceOrdinal : Option Nat
  reason : String
deriving DecidableEq

structure DuplicateTurnMatch where
  leftGroup : Nat
  rightGroup : Nat
  left : OwnershipTurn
  right : OwnershipTurn
  alignedTokens : List Token
  duplicateCaptureProven : Bool

structure SuppressionContinuation where
  weakerGroup : Nat
  strongerGroup : Nat
  chunkOrdinal : Int
  currentEndUs : Int

/-! ## Pairs of turns -/

variable (policy : MicrophoneDeduplicationPolicy)

/-- The word of the other turn that is closest in time, of those with the same token. -/
def closestWord (token : Token) (startUs : Int) (words : List AsrWord) : Option AsrWord :=
  (words.foldl (fun (closest : Option AsrWord × Int) other =>
    let deltaUs := |other.startUs - startUs|
    if normalizedToken other.text = token ∧ deltaUs ≤ policy.maximumDuplicateWordTimeDeltaUs ∧
        deltaUs < closest.2 then (some other, deltaUs)
    else closest) (none, policy.maximumDuplicateWordTimeDeltaUs + 1)).1

def alignedWord (m : DuplicateTurnMatch) (ownWord : AsrWord) (ownIsLeft : Bool) : Option AsrWord :=
  let token := normalizedToken ownWord.text
  if token = [] ∨ token ∉ m.alignedTokens then none
  else closestWord policy token ownWord.startUs (if ownIsLeft then m.right else m.left).words

/-- Compares two turns that are aligned in time. -/
def compareTurns (left right : Anchor F) (leftTurn rightTurn : OwnershipTurn) :
    MicrophoneChunkContentEvidence × DuplicateTurnMatch :=
  let aligned := lcsTokens leftTurn.tokens rightTurn.tokens
  let ratio := alignmentRatio aligned.length (leftTurn.tokens.length + rightTurn.tokens.length)
  let tentative : DuplicateTurnMatch :=
    ⟨left.voiceGroup, right.voiceGroup, leftTurn, rightTurn, aligned, false⟩
  let fingerprintAgreement := leftTurn.words.any fun leftWord =>
    (alignedWord policy tentative leftWord true).any fun rightWord =>
      localFingerprintNotContrary similarity left.transcript right.transcript leftWord.timing
        rightWord.timing policy
  let duplicate := decide (policy.minimumDuplicateAlignedTokenCount ≤ aligned.length) &&
    decide (policy.minimumDuplicateChunkTokenAlignmentRatio < ratio) && fingerprintAgreement
  (⟨left.transcript.sourceOrdinal, right.transcript.sourceOrdinal, leftTurn.chunkOrdinal,
      leftTurn.tokens.length, rightTurn.tokens.length, aligned.length, ratio, true,
      fingerprintAgreement, duplicate⟩,
    { tentative with duplicateCaptureProven := duplicate })

/-- What a map filled from the anchors has under a group: the last one's. -/
def anchorOf (anchors : List (Anchor F)) (voiceGroup : Nat) : Option (Anchor F) :=
  anchors.reverse.find? fun anchor => anchor.voiceGroup == voiceGroup

def turnsByGroup (anchors : List (Anchor F)) (voiceGroup : Nat) : List OwnershipTurn :=
  match anchorOf anchors voiceGroup with
  | some anchor => buildOwnershipTurns sort anchor.transcript policy
  | none => []

/-- The comparisons of an anchor with those after it. -/
def comparisonsOf (anchors : List (Anchor F)) (left : Anchor F) (later : List (Anchor F)) :
    List (MicrophoneChunkContentEvidence × DuplicateTurnMatch) :=
  later.flatMap fun right =>
    (turnsByGroup sort policy anchors left.voiceGroup).flatMap fun leftTurn =>
      ((turnsByGroup sort policy anchors right.voiceGroup).filter fun rightTurn =>
        turnsAreTimeAligned leftTurn rightTurn policy).map
          (compareTurns similarity policy left right leftTurn)

def comparisonsFrom (anchors : List (Anchor F)) :
    List (Anchor F) → List (MicrophoneChunkContentEvidence × DuplicateTurnMatch)
  | [] => []
  | left :: later =>
    comparisonsOf similarity sort policy anchors left later ++ comparisonsFrom anchors later

def comparisons (anchors : List (Anchor F)) :
    List (MicrophoneChunkContentEvidence × DuplicateTurnMatch) :=
  comparisonsFrom similarity sort policy anchors anchors

def turnMatches (anchors : List (Anchor F)) : List DuplicateTurnMatch :=
  (comparisons similarity sort policy anchors).map Prod.snd

/-- A turn that lost, whose continuation may lose too. -/
def continuationOf (anchors : List (Anchor F)) (m : DuplicateTurnMatch) :
    Option SuppressionContinuation :=
  match anchorOf anchors m.leftGroup, anchorOf anchors m.rightGroup with
  | some left, some right =>
    if m.duplicateCaptureProven && localFingerprintNotContrary similarity left.transcript
        right.transcript m.left.timing m.right.timing policy then
      match localSnrDb left.transcript m.left.timing, localSnrDb right.transcript m.right.timing with
      | some leftSnr, some rightSnr =>
        if leftSnr = rightSnr then none
        else if leftSnr < rightSnr then
          some ⟨m.leftGroup, m.rightGroup, m.left.chunkOrdinal, m.left.timing.endUs⟩
        else some ⟨m.rightGroup, m.leftGroup, m.left.chunkOrdinal, m.right.timing.endUs⟩
      | _, _ => none
    else none
  | _, _ => none

def initialContinuations (anchors : List (Anchor F)) : List SuppressionContinuation :=
  (turnMatches similarity sort policy anchors).filterMap (continuationOf similarity policy anchors)

/-! ## The rules -/

/-- Why a word is discarded, and for which source. -/
structure Loss where
  strongerSourceOrdinal : Nat
  reason : String
deriving DecidableEq

/-- The turn rule, for one pair of turns. -/
def turnLoss (anchors : List (Anchor F)) (candidate : MicrophoneOwnedWordCandidate) (own : Anchor F)
    (m : DuplicateTurnMatch) : Option Loss :=
  let ownIsLeft := m.leftGroup == candidate.voiceGroup
  let ownTurn := if ownIsLeft then m.left else m.right
  let otherTurn := if ownIsLeft then m.right else m.left
  if m.duplicateCaptureProven && (ownIsLeft || m.rightGroup == candidate.voiceGroup) &&
      wordInTurn candidate.word ownTurn then
    match anchorOf anchors (if ownIsLeft then m.rightGroup else m.leftGroup) with
    | none => none
    | some other =>
      let otherWord := alignedWord policy m candidate.word ownIsLeft
      let fingerprintAgreement :=
        match otherWord with
        | some otherWord =>
          localFingerprintNotContrary similarity own.transcript other.transcript
            candidate.word.timing otherWord.timing policy
        | none =>
          localFingerprintMatches similarity own.transcript other.transcript candidate.word.timing
            candidate.word.timing policy
      if fingerprintAgreement &&
          isStronger own.transcript other.transcript ownTurn.timing otherTurn.timing then
        some ⟨other.transcript.sourceOrdinal,
          if otherWord.isSome then "aligned_turn_duplicate" else "fingerprinted_turn_residue"⟩
      else none
  else none

def tokensInWindow (transcript : MicrophoneTranscript F) (chunkOrdinal : Int) (window : TimeSpan) :
    List Token :=
  wordTokens (transcript.words.filter fun word =>
    decide (word.chunkOrdinal = chunkOrdinal ∧ word.startUs < window.endUs ∧
      window.startUs < word.endUs))

def localWindow (word : AsrWord) : TimeSpan :=
  let centerUs := word.startUs + (word.endUs - word.startUs).tdiv 2
  ⟨max 0 (centerUs - policy.maximumResidualWindowRadiusUs),
    centerUs + policy.maximumResidualWindowRadiusUs⟩

/-- The window rule, for one other anchor. -/
def windowLoss (candidate : MicrophoneOwnedWordCandidate) (own : Anchor F) (other : Anchor F) :
    Option Loss :=
  let window := localWindow policy candidate.word
  let ownTokens := tokensInWindow own.transcript candidate.word.chunkOrdinal window
  let otherTokens := tokensInWindow other.transcript candidate.word.chunkOrdinal window
  let aligned := lcsTokens ownTokens otherTokens
  let ratio := alignmentRatio aligned.length (ownTokens.length + otherTokens.length)
  if other.voiceGroup ≠ candidate.voiceGroup ∧
      policy.minimumDuplicateAlignedTokenCount ≤ aligned.length ∧
      policy.minimumDuplicateChunkTokenAlignmentRatio < ratio ∧
      localFingerprintNotContrary similarity own.transcript other.transcript candidate.word.timing
        candidate.word.timing policy = true ∧
      isStronger own.transcript other.transcript window window = true then
    some ⟨other.transcript.sourceOrdinal, "local_window_duplicate"⟩
  else none

/-- The first two rules look at the inputs only. -/
def capturedLoss (anchors : List (Anchor F)) (candidate : MicrophoneOwnedWordCandidate)
    (own : Anchor F) : Option Loss :=
  ((turnMatches similarity sort policy anchors).findSome?
    (turnLoss similarity policy anchors candidate own)).or
      (anchors.findSome? (windowLoss similarity policy candidate own))

/-- The word starts within the gap behind a continuation. -/
def SuppressionContinuation.reaches (continuation : SuppressionContinuation) (startUs : Int) : Bool :=
  decide (startUs ≤ continuation.currentEndUs + policy.maximumSpeakerSegmentGapUs)

/-- The same chunk continues the other way round. -/
def reverseActive (continuations : List SuppressionContinuation)
    (continuation : SuppressionContinuation) (startUs : Int) : Bool :=
  continuations.any fun reverse =>
    reverse.weakerGroup == continuation.strongerGroup &&
      reverse.strongerGroup == continuation.weakerGroup &&
      reverse.chunkOrdinal == continuation.chunkOrdinal && reverse.reaches policy startUs

/-- The continuation rule, for one continuation. -/
def continuationLoss (anchors : List (Anchor F)) (continuations : List SuppressionContinuation)
    (candidate : MicrophoneOwnedWordCandidate) (own : Anchor F)
    (continuation : SuppressionContinuation) : Option Loss :=
  if continuation.weakerGroup = candidate.voiceGroup ∧
      continuation.chunkOrdinal = candidate.word.chunkOrdinal ∧
      continuation.reaches policy candidate.word.startUs = true ∧
      reverseActive policy continuations continuation candidate.word.startUs = false then
    match anchorOf anchors continuation.strongerGroup with
    | none => none
    | some stronger =>
      if localFingerprintMatches similarity own.transcript stronger.transcript candidate.word.timing
          candidate.word.timing policy &&
          isStronger own.transcript stronger.transcript candidate.word.timing
            candidate.word.timing then
        some ⟨stronger.transcript.sourceOrdinal, "duplicate_turn_continuation"⟩
      else none
  else none

/-- The first continuation that discards the word goes on to its end. -/
def extendFirst (loses : SuppressionContinuation → Option Loss) (endUs : Int) :
    List SuppressionContinuation → Option (Loss × List SuppressionContinuation)
  | [] => none
  | continuation :: rest =>
    match loses continuation with
    | some loss =>
      some (loss, { continuation with currentEndUs := max continuation.currentEndUs endUs } :: rest)
    | none =>
      (extendFirst loses endUs rest).map fun found => (found.1, continuation :: found.2)

def continuedLoss (anchors : List (Anchor F)) (continuations : List SuppressionContinuation)
    (candidate : MicrophoneOwnedWordCandidate) (own : Anchor F) :
    Option (Loss × List SuppressionContinuation) :=
  extendFirst (continuationLoss similarity policy anchors continuations candidate own)
    candidate.word.endUs continuations

/-! ## The words -/

structure MicrophoneWordOwnershipResult where
  words : List MicrophoneOwnedWordCandidate := []
  chunkContentEvidence : List MicrophoneChunkContentEvidence := []
  discardedWordEvidence : List MicrophoneDiscardedWordEvidence := []
  discardedCrossAnchorBleedWordCount : Nat := 0
  discardedWordCountBySource : OrderedMap Nat Nat := .empty
  discardedWordCountBySourcePair : OrderedMap Nat (OrderedMap Nat Nat) := .empty

/-- `++counts[key]`. -/
def increment (counts : OrderedMap Nat Nat) (key : Nat) : OrderedMap Nat Nat :=
  counts.insert key ((counts.find? key).getD 0 + 1)

def discardEvidence (candidate : MicrophoneOwnedWordCandidate) (loss : Loss) :
    MicrophoneDiscardedWordEvidence where
  text := candidate.word.text
  startUs := candidate.word.startUs
  endUs := candidate.word.endUs
  chunkOrdinal := candidate.word.chunkOrdinal
  sourceOrdinal := candidate.sourceOrdinal
  strongerSourceOrdinal := some loss.strongerSourceOrdinal
  reason := loss.reason

namespace MicrophoneWordOwnershipResult

def keep (result : MicrophoneWordOwnershipResult) (candidate : MicrophoneOwnedWordCandidate) :
    MicrophoneWordOwnershipResult :=
  { result with words := result.words ++ [candidate] }

def discard (result : MicrophoneWordOwnershipResult) (candidate : MicrophoneOwnedWordCandidate)
    (loss : Loss) : MicrophoneWordOwnershipResult :=
  { result with
    discardedWordEvidence := result.discardedWordEvidence ++ [discardEvidence candidate loss]
    discardedCrossAnchorBleedWordCount := result.discardedCrossAnchorBleedWordCount + 1
    discardedWordCountBySource := increment result.discardedWordCountBySource candidate.sourceOrdinal
    discardedWordCountBySourcePair :=
      result.discardedWordCountBySourcePair.insert candidate.sourceOrdinal
        (increment ((result.discardedWordCountBySourcePair.find? candidate.sourceOrdinal).getD .empty)
          loss.strongerSourceOrdinal) }

end MicrophoneWordOwnershipResult

structure OwnershipState where
  continuations : List SuppressionContinuation
  result : MicrophoneWordOwnershipResult

/-- What becomes of one candidate. -/
inductive Verdict
  /-- Its group has no anchor. -/
  | skipped
  | kept
  | lost (loss : Loss)
deriving DecidableEq

/-- The verdict on a word, and the continuations after it. -/
def judge (anchors : List (Anchor F)) (continuations : List SuppressionContinuation)
    (candidate : MicrophoneOwnedWordCandidate) : Verdict × List SuppressionContinuation :=
  match anchorOf anchors candidate.voiceGroup with
  | none => (.skipped, continuations)
  | some own =>
    match capturedLoss similarity sort policy anchors candidate own with
    | some loss => (.lost loss, continuations)
    | none =>
      match continuedLoss similarity policy anchors continuations candidate own with
      | some (loss, continuations) => (.lost loss, continuations)
      | none => (.kept, continuations)

def ownershipStep (anchors : List (Anchor F)) (state : OwnershipState)
    (candidate : MicrophoneOwnedWordCandidate) : OwnershipState :=
  let (verdict, continuations) := judge similarity sort policy anchors state.continuations candidate
  { continuations
    result :=
      match verdict with
      | .skipped => state.result
      | .kept => state.result.keep candidate
      | .lost loss => state.result.discard candidate loss }

/-- `transcripts.at`, which throws where there is no such transcript. -/
def resolveAnchors (transcripts : List (MicrophoneTranscript F))
    (anchors : List MicrophoneSpeakerAnchor) : Option (List (Anchor F)) :=
  anchors.mapM fun anchor =>
    (transcripts[anchor.transcriptIndex]?).map fun transcript => ⟨anchor.voiceGroup, transcript⟩

def reconcileCrossAnchorWordOwnership (words : List MicrophoneOwnedWordCandidate)
    (transcripts : List (MicrophoneTranscript F)) (anchors : List MicrophoneSpeakerAnchor) :
    Option MicrophoneWordOwnershipResult := do
  let anchors ← resolveAnchors transcripts anchors
  let state : OwnershipState :=
    { continuations := initialContinuations similarity sort policy anchors
      result :=
        { chunkContentEvidence := (comparisons similarity sort policy anchors).map Prod.fst } }
  return (words.foldl (ownershipStep similarity sort policy anchors) state).result

end Svp.Audio.Ownership
