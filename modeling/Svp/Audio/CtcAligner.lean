import Svp.Audio.CtcAlignment

/-!
# The forced aligner

`align` looks the phones of the tokens up in the vocabulary, turns the logits of every
frame into log-probabilities and aligns the tokens to the frames. A log-probability is
not positive, so a sum of them never makes up for the constant for minus infinity.
-/

namespace Svp.Audio

/-! ## The program -/

noncomputable def kNegInf : ℝ := -10 ^ 30

/-- The model's vocabulary: the phone of every logit, and the blank. -/
structure CtcForcedAligner (vocabSize : Nat) where
  idToPhone : Fin vocabSize → String
  blankId : Fin vocabSize

/-- `what()` is "phone missing from aligner vocabulary: " and the phone. -/
inductive AlignError
  | phoneMissing (phone : String)
deriving DecidableEq

section
variable {vocabSize : Nat} (aligner : CtcForcedAligner vocabSize)

/-- The entry of `token_ids`: the first id of a phone; an empty phone has none. -/
def tokenId (phone : String) : Option (Fin vocabSize) :=
  if phone = "" then none
  else (List.finRange vocabSize).find? fun id => aligner.idToPhone id = phone

def tokenSequence (tokens : List CtcAlignmentToken) : Except AlignError (List (Fin vocabSize)) :=
  tokens.mapM fun token =>
    match tokenId aligner token.phone with
    | none => .error (.phoneMissing token.phone)
    | some id => .ok id

/-- `std::max_element` of a row. -/
noncomputable def maxLogit (row : Fin vocabSize → ℝ) : ℝ :=
  Finset.univ.sup' ⟨aligner.blankId, Finset.mem_univ _⟩ row

noncomputable def logSoftmax (row : Fin vocabSize → ℝ) (v : Fin vocabSize) : ℝ :=
  row v - maxLogit aligner row - Real.log (∑ u, Real.exp (row u - maxLogit aligner row))

noncomputable def emissionsOf (logits : Nat → Fin vocabSize → ℝ) (f : Nat) : Fin vocabSize → ℝ :=
  logSoftmax aligner (logits f)

noncomputable def alignedPathOf (frames : Nat) (logits : Nat → Fin vocabSize → ℝ)
    (sequence : List (Fin vocabSize)) : List Nat :=
  alignedPath aligner.blankId sequence kNegInf (emissionsOf aligner logits) frames

/-- The alignment of the logits the model returns for the samples. -/
noncomputable def align (frames : Nat) (logits : Nat → Fin vocabSize → ℝ)
    (tokens : List CtcAlignmentToken) : Except AlignError (List CtcPhoneSpan) :=
  if tokens.isEmpty || frames == 0 then .ok []
  else
    match tokenSequence aligner tokens with
    | .error error => .error error
    | .ok sequence => .ok (spansFrom 0 (alignedPathOf aligner frames logits sequence))

end

/-! ## Log-probabilities -/

section
variable {vocabSize : Nat} {aligner : CtcForcedAligner vocabSize}

theorem logSoftmax_nonpos (row : Fin vocabSize → ℝ) (v : Fin vocabSize) :
    logSoftmax aligner row v ≤ 0 := by
  have below : row v ≤ maxLogit aligner row := Finset.le_sup' row (Finset.mem_univ v)
  obtain ⟨top, -, isTop⟩ := Finset.exists_mem_eq_sup' ⟨aligner.blankId, Finset.mem_univ _⟩ row
  have one : Real.exp (row top - maxLogit aligner row) = 1 := by
    rw [maxLogit, isTop, sub_self, Real.exp_zero]
  have atLeast : 1 ≤ ∑ u, Real.exp (row u - maxLogit aligner row) :=
    one ▸ Finset.single_le_sum (f := fun u => Real.exp (row u - maxLogit aligner row))
      (fun u _ => (Real.exp_pos _).le) (Finset.mem_univ top)
  have logSum := Real.log_nonneg atLeast
  rw [logSoftmax]
  linarith

/-- Where every sum of one log-probability a frame is above it, the constant for minus
infinity stays below the paths. -/
theorem staysBelow_of_sums {frames : Nat} {logits : Nat → Fin vocabSize → ℝ}
    (above : ∀ labels : Nat → Fin vocabSize,
      kNegInf < ∑ f ∈ Finset.range frames, emissionsOf aligner logits f (labels f)) :
    StaysBelow kNegInf (emissionsOf aligner logits) frames := by
  intro labels other
  have nonpos : ∑ f ∈ Finset.range (frames - 1),
      emissionsOf aligner logits (f + 1) (other (f + 1)) ≤ 0 :=
    Finset.sum_nonpos fun f _ => logSoftmax_nonpos _ _
  have sum := above labels
  linarith

theorem tokenSequence_length {tokens : List CtcAlignmentToken} {sequence : List (Fin vocabSize)}
    (known : tokenSequence aligner tokens = .ok sequence) : sequence.length = tokens.length := by
  induction tokens generalizing sequence with
  | nil =>
    cases known
    rfl
  | cons token rest ih =>
    rw [tokenSequence, List.mapM_cons] at known
    cases found : tokenId aligner token.phone with
    | none =>
      rw [found] at known
      cases known
    | some id =>
      rw [found] at known
      cases later : tokenSequence aligner rest with
      | error error =>
        rw [tokenSequence] at later
        simp only [later] at known
        cases known
      | ok ids =>
        have size := ih later
        rw [tokenSequence] at later
        simp only [later] at known
        cases known
        rw [List.length_cons, List.length_cons, size]

end

/-- For tokens of the vocabulary other than the blank, with frames enough for them and a
blank between equal neighbours, the path is a path over the frames, no path has a greater
total emission, and the spans are one for each token in order, not empty and disjoint. -/
theorem align_optimal {vocabSize : Nat} (aligner : CtcForcedAligner vocabSize) (frames : Nat)
    (logits : Nat → Fin vocabSize → ℝ) (tokens : List CtcAlignmentToken)
    (sequence : List (Fin vocabSize)) (known : tokenSequence aligner tokens = .ok sequence)
    (noBlank : aligner.blankId ∉ sequence) (nonempty : 1 ≤ frames)
    (room : sequence.length + repeats sequence (sequence.length - 1) ≤ frames)
    (above : ∀ labels : Nat → Fin vocabSize,
      kNegInf < ∑ f ∈ Finset.range frames, emissionsOf aligner logits f (labels f)) :
    IsCtcPath aligner.blankId sequence frames (alignedPathOf aligner frames logits sequence) ∧
      (∀ other, IsCtcPath aligner.blankId sequence frames other →
        totalEmission aligner.blankId sequence (emissionsOf aligner logits) other ≤
          totalEmission aligner.blankId sequence (emissionsOf aligner logits)
            (alignedPathOf aligner frames logits sequence)) ∧
      ∃ spans, align aligner frames logits tokens = .ok spans ∧
        spans.map CtcPhoneSpan.tokenIndex = List.range tokens.length ∧
        (∀ span ∈ spans, span.startSeconds < span.endSeconds) ∧
        spans.Pairwise fun a b => a.endSeconds ≤ b.startSeconds := by
  obtain ⟨isPath, best⟩ := alignedPath_best noBlank nonempty room (staysBelow_of_sums above)
  refine ⟨isPath, best, ?_⟩
  have size := tokenSequence_length known
  cases tokens with
  | nil => exact ⟨[], rfl, rfl, nofun, List.Pairwise.nil⟩
  | cons token rest =>
    have ordered := spansFrom_ordered 0 (alignedPathOf aligner frames logits sequence)
    refine ⟨spansFrom 0 (alignedPathOf aligner frames logits sequence), ?_,
      size ▸ spans_of_isCtcPath nonempty isPath, fun span mem => (ordered.1 span mem).2, ordered.2⟩
    have some : (frames == 0) = false := beq_eq_false_iff_ne.mpr (Nat.one_le_iff_ne_zero.mp nonempty)
    rw [align, some, known]
    rfl

/-- A vocabulary of the blank and one phone. -/
def onePhone : CtcForcedAligner 2 := ⟨![ "<pad>", "a"], 0⟩

theorem logSoftmax_flat (v : Fin 2) : logSoftmax onePhone (fun _ => 0) v = -Real.log 2 := by
  have flat : maxLogit onePhone (fun _ => 0) = 0 := Finset.sup'_const _ _
  rw [logSoftmax, flat]
  norm_num

theorem align_optimal_onePhone :
    ∃ spans, align onePhone 1 (fun _ _ => 0) [⟨"a", 0⟩] = .ok spans ∧
      spans.map CtcPhoneSpan.tokenIndex = [0] := by
  have known : tokenSequence onePhone [⟨"a", 0⟩] = .ok [1] := by decide
  obtain ⟨-, -, spans, aligned, tokens, -⟩ := align_optimal onePhone 1 (fun _ _ => 0) [⟨"a", 0⟩] [1]
    known (by decide) le_rfl (by decide) fun labels => by
      rw [Finset.sum_range_one, emissionsOf, logSoftmax_flat, kNegInf]
      linarith [Real.log_two_lt_d9]
  exact ⟨spans, aligned, tokens⟩

end Svp.Audio
