import Svp.Audio.WordOwnership

/-!
# Verdicts on words

The loop over the words gives each of them a verdict, and its result is what the verdicts say:
the kept words in their order, one record for every word that is lost, and counters that match
the records (`reconcile_accounts`).
-/

namespace Svp.Audio.Ownership

open Lib (OrderedMap)

variable {F : Type} (similarity : F → F → ℚ) (sort : List AsrWord → List AsrWord)
  (policy : MicrophoneDeduplicationPolicy) (anchors : List (Anchor F))

/-- The continuations behind some words. -/
def continuationsAfter (continuations : List SuppressionContinuation)
    (words : List MicrophoneOwnedWordCandidate) : List SuppressionContinuation :=
  words.foldl (fun continuations word =>
    (judge similarity sort policy anchors continuations word).2) continuations

def verdictsFrom : List SuppressionContinuation → List MicrophoneOwnedWordCandidate → List Verdict
  | _, [] => []
  | continuations, word :: rest =>
    let (verdict, continuations) := judge similarity sort policy anchors continuations word
    verdict :: verdictsFrom continuations rest

/-- The continuations a word at `position` is judged with. -/
def continuationsAt (words : List MicrophoneOwnedWordCandidate) (position : Nat) :
    List SuppressionContinuation :=
  continuationsAfter similarity sort policy anchors
    (initialContinuations similarity sort policy anchors) (words.take position)

def verdicts (words : List MicrophoneOwnedWordCandidate) : List Verdict :=
  verdictsFrom similarity sort policy anchors (initialContinuations similarity sort policy anchors)
    words

variable {similarity sort policy anchors}

theorem length_verdictsFrom {continuations : List SuppressionContinuation}
    {words : List MicrophoneOwnedWordCandidate} :
    (verdictsFrom similarity sort policy anchors continuations words).length = words.length := by
  induction words generalizing continuations with
  | nil => rfl
  | cons word rest ih => exact congrArg (· + 1) ih

theorem getElem?_verdictsFrom {continuations : List SuppressionContinuation}
    {words : List MicrophoneOwnedWordCandidate} {position : Nat} :
    (verdictsFrom similarity sort policy anchors continuations words)[position]? =
      words[position]?.map fun word =>
        (judge similarity sort policy anchors
          (continuationsAfter similarity sort policy anchors continuations (words.take position))
          word).1 := by
  induction words generalizing continuations position with
  | nil => rfl
  | cons word rest ih =>
    cases position with
    | zero => rfl
    | succ position => exact ih

/-- The verdict on a word is the judgement with the continuations it meets. -/
theorem getElem?_verdicts {words : List MicrophoneOwnedWordCandidate} {position : Nat} :
    (verdicts similarity sort policy anchors words)[position]? =
      words[position]?.map fun word =>
        (judge similarity sort policy anchors
          (continuationsAt similarity sort policy anchors words position) word).1 :=
  getElem?_verdictsFrom

/-! ## Accounting -/

def keptWord : MicrophoneOwnedWordCandidate × Verdict → Option MicrophoneOwnedWordCandidate
  | (candidate, .kept) => some candidate
  | _ => none

def lossRecord : MicrophoneOwnedWordCandidate × Verdict → Option MicrophoneDiscardedWordEvidence
  | (candidate, .lost loss) => some (discardEvidence candidate loss)
  | _ => none

/-- The counters match the records. -/
structure Counted (result : MicrophoneWordOwnershipResult) : Prop where
  total : result.discardedCrossAnchorBleedWordCount = result.discardedWordEvidence.length
  bySource : ∀ source, (result.discardedWordCountBySource.find? source).getD 0 =
    result.discardedWordEvidence.countP fun record => record.sourceOrdinal == source
  bySourcePair : ∀ source stronger,
    (((result.discardedWordCountBySourcePair.find? source).getD .empty).find? stronger).getD 0 =
      result.discardedWordEvidence.countP fun record =>
        record.sourceOrdinal == source && record.strongerSourceOrdinal == some stronger

theorem Counted.keep {result : MicrophoneWordOwnershipResult} (counted : Counted result)
    (candidate : MicrophoneOwnedWordCandidate) : Counted (result.keep candidate) :=
  ⟨counted.total, counted.bySource, counted.bySourcePair⟩

theorem getD_increment (counts : OrderedMap Nat Nat) (key other : Nat) :
    ((increment counts key).find? other).getD 0 =
      (counts.find? other).getD 0 + if key = other then 1 else 0 := by
  rw [increment, OrderedMap.find?_insert]
  by_cases same : other = key
  · rw [if_pos same, if_pos same.symm, Option.getD_some, same]
  · rw [if_neg same, if_neg (Ne.symm same), Nat.add_zero]

theorem countP_snoc {α : Type} (p : α → Bool) (l : List α) (x : α) :
    (l ++ [x]).countP p = l.countP p + if p x then 1 else 0 := by
  rw [List.countP_append, List.countP_singleton]

theorem Counted.discard {result : MicrophoneWordOwnershipResult} (counted : Counted result)
    (candidate : MicrophoneOwnedWordCandidate) (loss : Loss) :
    Counted (result.discard candidate loss) := by
  refine ⟨?_, fun source => ?_, fun source stronger => ?_⟩
  · show _ + 1 = (_ ++ [_]).length
    rw [counted.total, List.length_append, List.length_singleton]
  · show ((increment _ _).find? source).getD 0 = (_ ++ [_]).countP _
    rw [getD_increment, counted.bySource, countP_snoc]
    simp only [discardEvidence, beq_iff_eq]
  · unfold MicrophoneWordOwnershipResult.discard
    rw [countP_snoc, ← counted.bySourcePair, OrderedMap.find?_insert]
    simp only [discardEvidence, Bool.and_eq_true, beq_iff_eq, Option.some.injEq]
    by_cases same : source = candidate.sourceOrdinal
    · -- The pair's counter goes up in the row of the word's own source.
      rw [if_pos same, Option.getD_some, getD_increment, same]
      simp only [true_and]
    · rw [if_neg same, if_neg fun both => same both.1.symm, Nat.add_zero]

/-- What a run from `before` over `judged` has to give. -/
structure Extends (before result : MicrophoneWordOwnershipResult)
    (judged : List (MicrophoneOwnedWordCandidate × Verdict)) : Prop where
  words : result.words = before.words ++ judged.filterMap keptWord
  records : result.discardedWordEvidence =
    before.discardedWordEvidence ++ judged.filterMap lossRecord
  counted : Counted before → Counted result

theorem Extends.refl {result : MicrophoneWordOwnershipResult} : Extends result result [] :=
  ⟨(List.append_nil _).symm, (List.append_nil _).symm, id⟩

theorem Extends.trans {first second third : MicrophoneWordOwnershipResult}
    {judged judged' : List (MicrophoneOwnedWordCandidate × Verdict)}
    (left : Extends first second judged) (right : Extends second third judged') :
    Extends first third (judged ++ judged') where
  words := by rw [right.words, left.words, List.filterMap_append, List.append_assoc]
  records := by rw [right.records, left.records, List.filterMap_append, List.append_assoc]
  counted := fun counted => right.counted (left.counted counted)

/-- One word: kept, recorded, or skipped. -/
theorem ownershipStep_extends {state : OwnershipState} {word : MicrophoneOwnedWordCandidate} :
    Extends state.result (ownershipStep similarity sort policy anchors state word).result
      [(word, (judge similarity sort policy anchors state.continuations word).1)] := by
  unfold ownershipStep
  obtain ⟨verdict, continuations⟩ := judge similarity sort policy anchors state.continuations word
  cases verdict with
  | skipped => exact ⟨(List.append_nil _).symm, (List.append_nil _).symm, id⟩
  | kept => exact ⟨rfl, (List.append_nil _).symm, fun counted => counted.keep word⟩
  | lost loss => exact ⟨(List.append_nil _).symm, rfl, fun counted => counted.discard word loss⟩

theorem foldl_ownershipStep_extends {state : OwnershipState}
    {words : List MicrophoneOwnedWordCandidate} :
    Extends state.result (words.foldl (ownershipStep similarity sort policy anchors) state).result
      (words.zip (verdictsFrom similarity sort policy anchors state.continuations words)) := by
  induction words generalizing state with
  | nil => exact .refl
  | cons word rest ih => exact ownershipStep_extends.trans ih

theorem judge_skipped_iff {continuations : List SuppressionContinuation}
    {word : MicrophoneOwnedWordCandidate} :
    (judge similarity sort policy anchors continuations word).1 = .skipped ↔
      ∀ anchor ∈ anchors, anchor.voiceGroup ≠ word.voiceGroup := by
  have absent : anchorOf anchors word.voiceGroup = none ↔
      ∀ anchor ∈ anchors, anchor.voiceGroup ≠ word.voiceGroup := by
    simp only [anchorOf, List.find?_eq_none, List.mem_reverse, beq_iff_eq]
  rw [← absent]
  unfold judge
  split
  · next none => simp only [none]
  · next own found =>
    rw [found]
    split
    · simp
    · split <;> simp

/-- Every word with an anchor is kept or recorded, in the words' order, and the counters match. -/
structure Accounts (anchors : List (Anchor F)) (words : List MicrophoneOwnedWordCandidate)
    (verdicts : List Verdict) (result : MicrophoneWordOwnershipResult) : Prop where
  length : verdicts.length = words.length
  skipped : ∀ judged ∈ words.zip verdicts, judged.2 = .skipped ↔
    ∀ anchor ∈ anchors, anchor.voiceGroup ≠ judged.1.voiceGroup
  kept : result.words = (words.zip verdicts).filterMap keptWord
  records : result.discardedWordEvidence = (words.zip verdicts).filterMap lossRecord
  counted : Counted result

theorem verdictsFrom_skipped {continuations : List SuppressionContinuation}
    {words : List MicrophoneOwnedWordCandidate} :
    ∀ judged ∈ words.zip (verdictsFrom similarity sort policy anchors continuations words),
      judged.2 = .skipped ↔ ∀ anchor ∈ anchors, anchor.voiceGroup ≠ judged.1.voiceGroup := by
  induction words generalizing continuations with
  | nil => exact List.forall_mem_nil _
  | cons word rest ih => exact List.forall_mem_cons.mpr ⟨judge_skipped_iff, ih⟩

theorem resolveAnchors_eq_some {transcripts : List (MicrophoneTranscript F)}
    {anchors : List MicrophoneSpeakerAnchor}
    (valid : ∀ anchor ∈ anchors, anchor.transcriptIndex < transcripts.length) :
    ∃ resolved, resolveAnchors transcripts anchors = some resolved ∧
      resolved.map Anchor.voiceGroup = anchors.map MicrophoneSpeakerAnchor.voiceGroup := by
  induction anchors with
  | nil => exact ⟨[], rfl, rfl⟩
  | cons anchor rest ih =>
    obtain ⟨anchorValid, restValid⟩ := List.forall_mem_cons.mp valid
    obtain ⟨resolved, restEq, groups⟩ := ih restValid
    refine ⟨⟨anchor.voiceGroup, transcripts[anchor.transcriptIndex]⟩ :: resolved, ?_, ?_⟩
    · have found : transcripts[anchor.transcriptIndex]? = some transcripts[anchor.transcriptIndex] :=
        List.getElem?_eq_getElem anchorValid
      unfold resolveAnchors at restEq ⊢
      rw [List.mapM_cons, found, restEq]
      rfl
    · rw [List.map_cons, List.map_cons, groups]

theorem reconcile_accounts {transcripts : List (MicrophoneTranscript F)}
    {anchors : List MicrophoneSpeakerAnchor} {resolved : List (Anchor F)}
    (resolvedEq : resolveAnchors transcripts anchors = some resolved)
    (words : List MicrophoneOwnedWordCandidate) :
    ∃ result,
      reconcileCrossAnchorWordOwnership similarity sort policy words transcripts anchors =
        some result ∧
      Accounts resolved words (verdicts similarity sort policy resolved words) result := by
  let state : OwnershipState :=
    { continuations := initialContinuations similarity sort policy resolved
      result :=
        { chunkContentEvidence := (comparisons similarity sort policy resolved).map Prod.fst } }
  have run : Extends state.result
      (words.foldl (ownershipStep similarity sort policy resolved) state).result
      (words.zip (verdicts similarity sort policy resolved words)) := foldl_ownershipStep_extends
  refine ⟨_, ?_, length_verdictsFrom, verdictsFrom_skipped, run.words, run.records, run.counted ?_⟩
  · unfold reconcileCrossAnchorWordOwnership
    rw [resolvedEq]
    rfl
  · exact ⟨rfl, fun _ => rfl, fun _ _ => rfl⟩

end Svp.Audio.Ownership
