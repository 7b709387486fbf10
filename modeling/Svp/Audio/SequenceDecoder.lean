import Svp.Audio.AsrChunks
import Svp.Lib.BestPath

/-!
# Speaker sequence decoding

`decodeWordSpeakerSequence` gives every word a speaker. A speaker earns a score for each
word and a change of speaker costs a penalty that depends on the place: the decoder fills
a table of best scores with back pointers and reads the sequence back from its end.
Scores are exact numbers here.
-/

namespace Svp.Audio

open Lib (bestAbove bestAbove_some Trellis BestTable walkBack)

/-! ## The program -/

structure WordSpeakerEvidence where
  segmentSpeaker : Int := -1
  embeddingSimilarityBySpeaker : List ℚ

def kDecoderSegmentAgreementScore : ℚ := 1
def kDecoderSegmentDisagreementPenalty : ℚ := 35 / 100
def kDecoderEmbeddingScoreWeight : ℚ := 4
def kDecoderUnknownSpeakerPenalty : ℚ := 20 / 100
def kDecoderFluentSwitchPenalty : ℚ := 85 / 100
def kDecoderBoundarySwitchPenalty : ℚ := 15 / 100
def kDecoderSegmentBoundarySwitchPenalty : ℚ := 25 / 100
def kDecoderMinScore : ℚ := -10 ^ 20
def kUtteranceGapThresholdUs : Int := 750000

def endsUtterance (text : Exec.Bytes) : Bool :=
  match text.getLast? with
  | none => false
  | some last => last = '.'.toUInt8 ∨ last = '?'.toUInt8 ∨ last = '!'.toUInt8

def validSpeaker (speaker speakerCount : Int) : Prop := 0 ≤ speaker ∧ speaker < speakerCount

instance (speaker speakerCount : Int) : Decidable (validSpeaker speaker speakerCount) :=
  inferInstanceAs (Decidable (_ ∧ _))

def embeddingEmission (evidence : WordSpeakerEvidence) (speaker : Nat) : ℚ :=
  match evidence.embeddingSimilarityBySpeaker[speaker]? with
  | none => 0
  | some similarity => if similarity ≤ -1 then 0 else similarity * kDecoderEmbeddingScoreWeight

def segmentEmission (evidence : WordSpeakerEvidence) (speaker : Nat) (speakerCount : Int) : ℚ :=
  if ¬ validSpeaker evidence.segmentSpeaker speakerCount then -kDecoderUnknownSpeakerPenalty
  else if evidence.segmentSpeaker = speaker then kDecoderSegmentAgreementScore
  else -kDecoderSegmentDisagreementPenalty

def emissionScore (evidence : WordSpeakerEvidence) (speaker : Nat) (speakerCount : Int) : ℚ :=
  segmentEmission evidence speaker speakerCount + embeddingEmission evidence speaker

variable {Score : Type}

def hasBoundaryAfter (words : List (AsrWord Score)) (index : Nat) : Bool :=
  match words[index]?, words[index + 1]? with
  | some word, some next =>
    endsUtterance word.text || kUtteranceGapThresholdUs < next.startUs - word.endUs
  | _, _ => true

def switchPenalty (words : List (AsrWord Score)) (evidence : List WordSpeakerEvidence)
    (previousIndex : Nat) : ℚ :=
  if hasBoundaryAfter words previousIndex then kDecoderBoundarySwitchPenalty
  else match evidence[previousIndex]?, evidence[previousIndex + 1]? with
    | some previous, some next =>
      if 0 ≤ previous.segmentSpeaker ∧ 0 ≤ next.segmentSpeaker ∧
          previous.segmentSpeaker ≠ next.segmentSpeaker then
        kDecoderSegmentBoundarySwitchPenalty
      else kDecoderFluentSwitchPenalty
    | _, _ => kDecoderFluentSwitchPenalty

section Decoder

variable (words : List (AsrWord Score)) (speakerCount : Int) (evidence : List WordSpeakerEvidence)

def emitAt (i speaker : Nat) : ℚ :=
  match evidence[i]? with
  | none => 0
  | some known => emissionScore known speaker speakerCount

/-- The row of a word in `score` and `backptr`; `none` is the pointer -1. -/
def scoreRow : Nat → List (ℚ × Option Nat)
  | 0 => (List.range speakerCount.toNat).map fun speaker =>
      (emitAt speakerCount evidence 0 speaker, none)
  | i + 1 =>
    let before := scoreRow i
    let changePenalty := switchPenalty words evidence i
    (List.range speakerCount.toNat).map fun speaker =>
      let best := bestAbove kDecoderMinScore
        (fun previous =>
          let candidate := (before.getD previous (kDecoderMinScore, none)).1
          if previous ≠ speaker then candidate - changePenalty else candidate)
        speakerCount.toNat
      (best.1 + emitAt speakerCount evidence (i + 1) speaker, best.2)

def score (i speaker : Nat) : ℚ :=
  ((scoreRow words speakerCount evidence i).getD speaker (kDecoderMinScore, none)).1

def backptr (i speaker : Nat) : Option Nat :=
  ((scoreRow words speakerCount evidence i).getD speaker (kDecoderMinScore, none)).2

/-- The loop that fills `decoded` from its end. A missing pointer keeps the speaker. -/
def decodedFrom : (reverse current : Nat) → List Nat → List Nat
  | 0, _, decoded => decoded
  | index + 1, current, decoded =>
    decodedFrom index ((backptr words speakerCount evidence index current).getD current)
      (current :: decoded)

def decodeWordSpeakerSequence : List Nat :=
  if words = [] ∨ speakerCount ≤ 0 ∨ evidence.length ≠ words.length then []
  else
    let bestFinal := (bestAbove kDecoderMinScore
      (score words speakerCount evidence (words.length - 1)) speakerCount.toNat).2.getD 0
    decodedFrom words speakerCount evidence words.length bestFinal []

/-! ## The best sequence -/

/-- The emission scores of a sequence of speakers minus its switch penalties. -/
def sequenceScore (speakers : List Nat) : ℚ :=
  ∑ i ∈ Finset.range speakers.length, emitAt speakerCount evidence i (speakers.getD i 0) -
    ∑ i ∈ Finset.range (speakers.length - 1),
      if speakers.getD i 0 ≠ speakers.getD (i + 1) 0 then switchPenalty words evidence i else 0

/-- Every sequence of valid speakers for some first words scores more than the floor. -/
def ScoresAbove : Prop :=
  ∀ speakers : List Nat, speakers ≠ [] → speakers.length ≤ words.length →
    (∀ speaker ∈ speakers, validSpeaker speaker speakerCount) →
    kDecoderMinScore < sequenceScore words speakerCount evidence speakers

/-! ## The table -/

/-- The sequences as paths. -/
def speakerTrellis : Trellis ℚ where
  width := speakerCount.toNat
  emit := emitAt speakerCount evidence
  link i previous speaker := if previous ≠ speaker then switchPenalty words evidence i else 0

def backFrom (i speaker : Nat) : Nat := (backptr words speakerCount evidence i speaker).getD speaker

variable {words speakerCount evidence}

theorem sequenceScore_eq {speakers : List Nat} {last : Nat} (size : speakers.length = last + 1) :
    sequenceScore words speakerCount evidence speakers =
      (speakerTrellis words speakerCount evidence).total (fun i => speakers.getD i 0) last := by
  rw [Trellis.total_eq_sum, sequenceScore, size]
  rfl

theorem validSpeaker_iff {speaker : Nat} :
    validSpeaker speaker speakerCount ↔ speaker < speakerCount.toNat := by
  rw [validSpeaker, Int.lt_toNat]
  exact and_iff_right (Int.natCast_nonneg speaker)

theorem score_zero {speaker : Nat} (inside : speaker < speakerCount.toNat) :
    score words speakerCount evidence 0 speaker = emitAt speakerCount evidence 0 speaker := by
  simp [score, scoreRow, List.getD_eq_getElem?_getD, inside]

/-- What the scan of the row before sees. -/
theorem row_succ {i speaker : Nat} (inside : speaker < speakerCount.toNat) :
    let t := speakerTrellis words speakerCount evidence
    let best := bestAbove kDecoderMinScore
      (fun previous => score words speakerCount evidence i previous - t.link i previous speaker)
      t.width
    score words speakerCount evidence (i + 1) speaker = best.1 + t.emit (i + 1) speaker ∧
      backptr words speakerCount evidence (i + 1) speaker = best.2 := by
  have candidate : ∀ (row : ℚ) (previous : Nat),
      (if previous ≠ speaker then row - switchPenalty words evidence i else row) =
        row - if previous ≠ speaker then switchPenalty words evidence i else 0 := by
    intro row previous
    split
    · rfl
    · rw [sub_zero]
  simp only [score, backptr, scoreRow, candidate, List.getD_eq_getElem?_getD, List.getElem?_map,
    List.getElem?_range inside, Option.map_some, Option.getD_some, speakerTrellis]
  trivial

/-- One speaker throughout scores more than the floor, and so does every entry. -/
theorem score_above (above : ScoresAbove words speakerCount evidence) {i speaker : Nat}
    (before : i < words.length) (inside : speaker < speakerCount.toNat)
    (table : BestTable (speakerTrellis words speakerCount evidence) i
      (score words speakerCount evidence) (backFrom words speakerCount evidence)) :
    kDecoderMinScore < score words speakerCount evidence i speaker := by
  have size : (List.replicate (i + 1) speaker).length = i + 1 := List.length_replicate
  have high := above (List.replicate (i + 1) speaker) nofun (size.trans_le before) fun other mem => by
    rw [List.eq_of_mem_replicate mem]
    exact validSpeaker_iff.mpr inside
  have constant : ∀ j ≤ i, (List.replicate (i + 1) speaker).getD j 0 = speaker := fun j within => by
    rw [List.getD_eq_getElem?_getD, List.getElem?_replicate_of_lt (Nat.lt_succ_of_le within),
      Option.getD_some]
  have total := (speakerTrellis words speakerCount evidence).total_congr constant
  rw [sequenceScore_eq size, total] at high
  exact high.trans_le (table.total_le le_rfl fun _ _ => inside)

/-- A row extends a table whose entries are above the floor. -/
theorem row_chosen {i speaker : Nat} (inside : speaker < speakerCount.toNat)
    (above : kDecoderMinScore < score words speakerCount evidence i speaker) :
    let t := speakerTrellis words speakerCount evidence
    let value := score words speakerCount evidence
    let chosen := backFrom words speakerCount evidence (i + 1) speaker
    chosen < t.width ∧
      value (i + 1) speaker = value i chosen - t.link i chosen speaker + t.emit (i + 1) speaker ∧
      ∀ q < t.width, value i q - t.link i q speaker ≤ value i chosen - t.link i chosen speaker := by
  intro t value chosen
  obtain ⟨entry, pointer⟩ := @row_succ _ words speakerCount evidence i _ inside
  have stays : kDecoderMinScore < value i speaker - t.link i speaker speaker := by
    rw [show t.link i speaker speaker = 0 from if_neg (not_not.mpr rfl), sub_zero]
    exact above
  obtain ⟨k, kInside, scan, largest⟩ :=
    bestAbove_some (f := fun previous => value i previous - t.link i previous speaker) inside stays
  have found : chosen = k := by
    rw [show chosen = _ from congrArg (Option.getD · speaker) pointer]
    exact congrArg (fun best => Option.getD best.2 speaker) scan
  rw [found]
  exact ⟨kInside, entry.trans (congrArg (fun best => best.1 + _) scan), largest⟩

theorem bestTable (above : ScoresAbove words speakerCount evidence) {i : Nat}
    (before : i < words.length) :
    BestTable (speakerTrellis words speakerCount evidence) i
      (score words speakerCount evidence) (backFrom words speakerCount evidence) := by
  induction i with
  | zero => exact ⟨fun _ => score_zero, nofun, nofun, nofun⟩
  | succ i ih =>
    have table := ih (i.lt_succ_self.trans before)
    have row := fun speaker inside => @row_chosen _ words speakerCount evidence i speaker inside
      (score_above above (i.lt_succ_self.trans before) inside table)
    refine ⟨table.first, ?_, ?_, ?_⟩
    all_goals
      intro j within speaker inside
      obtain earlier | rfl := Nat.lt_succ_iff_lt_or_eq.mp within
    · exact table.back_lt j earlier speaker inside
    · exact (row speaker inside).1
    · exact table.reached j earlier speaker inside
    · exact (row speaker inside).2.1
    · exact table.largest j earlier speaker inside
    · exact (row speaker inside).2.2

/-! ## The decoded sequence -/

theorem decodedFrom_eq {last current : Nat} {decoded : List Nat} :
    decodedFrom words speakerCount evidence (last + 1) current decoded =
      (List.range (last + 1)).map (walkBack (backFrom words speakerCount evidence) last current) ++
        decoded := by
  induction last generalizing current decoded with
  | zero => rfl
  | succ last ih =>
    rw [decodedFrom, ih, List.range_succ (n := last + 1), List.map_append, List.append_assoc]
    congr 1
    · refine List.map_congr_left fun j within => ?_
      exact (Lib.walkBack_before (Nat.le_of_lt_succ (List.mem_range.mp within))).symm
    · simp [Lib.walkBack_last]

/-- The decoder reads back a sequence that ends in a largest entry. -/
theorem decoded_eq (above : ScoresAbove words speakerCount evidence) {last : Nat}
    (size : words.length = last + 1) (speakers : 0 < speakerCount)
    (known : evidence.length = words.length) :
    ∃ k < speakerCount.toNat,
      decodeWordSpeakerSequence words speakerCount evidence =
        (List.range (last + 1)).map (walkBack (backFrom words speakerCount evidence) last k) ∧
      ∀ q < speakerCount.toNat, score words speakerCount evidence last q ≤
        score words speakerCount evidence last k := by
  have before : last < words.length := size ▸ last.lt_succ_self
  have first : 0 < speakerCount.toNat := Int.lt_toNat.mpr speakers
  obtain ⟨k, inside, scan, largest⟩ :=
    bestAbove_some first (score_above above before first (bestTable above before))
  have some : words ≠ [] := List.ne_nil_of_length_pos (size ▸ last.succ_pos)
  have accepted : ¬ (words = [] ∨ speakerCount ≤ 0 ∨ evidence.length ≠ words.length) := by
    rintro (empty | few | unknown)
    · exact some empty
    · exact few.not_gt speakers
    · exact unknown known
  refine ⟨k, inside, ?_, largest⟩
  rw [decodeWordSpeakerSequence, if_neg accepted, size, Nat.add_sub_cancel, scan, decodedFrom_eq,
    List.append_nil]
  rfl

/-- The decoded sequence is a best one. -/
theorem decodeWordSpeakerSequence_optimal {Score : Type} (words : List (AsrWord Score))
    (speakerCount : Int) (evidence : List WordSpeakerEvidence)
    (above : ScoresAbove words speakerCount evidence) :
    let decoded := decodeWordSpeakerSequence words speakerCount evidence
    (words ≠ [] → 0 < speakerCount → evidence.length = words.length →
      decoded.length = words.length) ∧
    (∀ speaker ∈ decoded, validSpeaker speaker speakerCount) ∧
    ∀ other : List Nat, other.length = decoded.length →
      (∀ speaker ∈ other, validSpeaker speaker speakerCount) →
      sequenceScore words speakerCount evidence other ≤
        sequenceScore words speakerCount evidence decoded := by
  intro decoded
  by_cases accepted : words ≠ [] ∧ 0 < speakerCount ∧ evidence.length = words.length
  · obtain ⟨some, speakers, known⟩ := accepted
    obtain ⟨last, size⟩ := Nat.exists_eq_succ_of_ne_zero (List.length_pos_of_ne_nil some).ne'
    obtain ⟨k, inside, path, largest⟩ := decoded_eq above size speakers known
    have table := bestTable above (size ▸ last.lt_succ_self : last < words.length)
    have length : decoded.length = last + 1 := by
      rw [show decoded = _ from path, List.length_map, List.length_range]
    have states : ∀ j ≤ last, decoded.getD j 0 =
        walkBack (backFrom words speakerCount evidence) last k j := fun j within => by
      rw [show decoded = _ from path, List.getD_eq_getElem?_getD, List.getElem?_map,
        List.getElem?_range (Nat.lt_succ_of_le within), Option.map_some, Option.getD_some]
    refine ⟨fun _ _ _ => length.trans size.symm, fun speaker mem => ?_, fun other same valid => ?_⟩
    · rw [show decoded = _ from path] at mem
      obtain ⟨j, -, rfl⟩ := List.mem_map.mp mem
      exact validSpeaker_iff.mpr (table.walkBack_lt le_rfl inside)
    · rw [sequenceScore_eq (same.trans length), sequenceScore_eq length,
        Trellis.total_congr _ states]
      refine table.best inside largest fun j within => ?_
      have here : j < other.length := (same.trans length).symm ▸ Nat.lt_succ_of_le within
      rw [List.getD_eq_getElem _ _ here]
      exact validSpeaker_iff.mp (valid _ (List.getElem_mem here))
  · have none : decoded = [] := by
      refine if_pos ?_
      by_contra refused
      refine accepted ⟨fun empty => refused (.inl empty), not_le.mp fun few => ?_, ?_⟩
      · exact refused (.inr (.inl few))
      · exact not_not.mp fun unknown => refused (.inr (.inr unknown))
    refine ⟨fun some speakers known => absurd ⟨some, speakers, known⟩ accepted, ?_, ?_⟩
    · rw [none]
      exact nofun
    · intro other same _
      rw [none] at same ⊢
      rw [List.length_eq_zero_iff.mp same]

theorem emitAt_ge (i speaker : Nat) : -(435 / 100) ≤ emitAt speakerCount evidence i speaker := by
  have embedding : ∀ known : WordSpeakerEvidence, -4 ≤ embeddingEmission known speaker := by
    intro known
    rw [embeddingEmission]
    split
    · norm_num
    · next similarity _ =>
      split
      · norm_num
      · next above =>
        rw [kDecoderEmbeddingScoreWeight]
        linarith [not_le.mp above]
  have segment : ∀ known : WordSpeakerEvidence,
      -(35 / 100) ≤ segmentEmission known speaker speakerCount := by
    intro known
    rw [segmentEmission, kDecoderUnknownSpeakerPenalty, kDecoderSegmentAgreementScore,
      kDecoderSegmentDisagreementPenalty]
    split
    · norm_num
    · split <;> norm_num
  rw [emitAt]
  split
  · norm_num
  · next known _ =>
    rw [emissionScore]
    linarith [embedding known, segment known]

theorem switchPenalty_le (i : Nat) : switchPenalty words evidence i ≤ 85 / 100 := by
  rw [switchPenalty, kDecoderBoundarySwitchPenalty, kDecoderSegmentBoundarySwitchPenalty,
    kDecoderFluentSwitchPenalty]
  split
  · norm_num
  · split
    · split <;> norm_num
    · norm_num

/-- The floor is out of reach of any vector of words. -/
theorem scoresAbove_of_size (size : words.length < 2 ^ 64) :
    ScoresAbove words speakerCount evidence := by
  intro speakers _ short _
  have emissions := Finset.card_nsmul_le_sum (Finset.range speakers.length)
    (fun i => emitAt speakerCount evidence i (speakers.getD i 0)) _ fun i _ => emitAt_ge i _
  have penalties := Finset.sum_le_card_nsmul (Finset.range (speakers.length - 1))
    (fun i => if speakers.getD i 0 ≠ speakers.getD (i + 1) 0 then switchPenalty words evidence i
      else 0) (85 / 100) fun i _ => by
    split
    · exact switchPenalty_le i
    · norm_num
  rw [Finset.card_range, nsmul_eq_mul] at emissions penalties
  have fewer : ((speakers.length - 1 : Nat) : ℚ) ≤ speakers.length :=
    Nat.cast_le.mpr (Nat.sub_le _ 1)
  have bound : (speakers.length : ℚ) ≤ 2 ^ 64 := by exact_mod_cast (short.trans_lt size).le
  rw [sequenceScore, kDecoderMinScore]
  have room : (435 / 100 + 85 / 100 : ℚ) * 2 ^ 64 < 10 ^ 20 := by norm_num
  linarith

end Decoder

def sampleWords : List (AsrWord Unit) :=
  [⟨Exec.utf8 "So", 0, 200000, (), 0, "whisper_cpp_dtw"⟩,
    ⟨Exec.utf8 "yes.", 250000, 400000, (), 0, "whisper_cpp_dtw"⟩,
    ⟨Exec.utf8 "No", 500000, 600000, (), 0, "whisper_cpp_dtw"⟩]

def sampleEvidence : List WordSpeakerEvidence := [⟨0, [1 / 2, 0]⟩, ⟨-1, []⟩, ⟨1, [0, 1 / 2]⟩]

example : decodeWordSpeakerSequence sampleWords 2 sampleEvidence = [0, 0, 1] := by decide +kernel

theorem decodeWordSpeakerSequence_optimal_sample :
    sequenceScore sampleWords 2 sampleEvidence [0, 1, 1] ≤
      sequenceScore sampleWords 2 sampleEvidence
        (decodeWordSpeakerSequence sampleWords 2 sampleEvidence) :=
  (decodeWordSpeakerSequence_optimal sampleWords 2 sampleEvidence
    (scoresAbove_of_size (by decide))).2.2 [0, 1, 1] (by decide) (by decide)

end Svp.Audio
