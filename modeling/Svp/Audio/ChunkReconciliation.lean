import Svp.Audio.AsrChunks

/-!
# Reconciliation loses and doubles nothing

`reconcileOverlappingChunks_transcript`: over a plan, words that are ordered, disjoint
and inside their chunks give a transcript that is ordered and disjoint, has every word
from one input word, and has every word outside the overlaps.

Only two facts about a seam matter: which words of the chunk it leaves out
(`findSeam_appendFrom`), and which words of the result it drops (`findSeam_keptPriorEnd`).
That the anchor is the right one is never used.
-/

namespace Svp.Audio

open Lib (Timeline)

variable {Score : Type}

/-! ## The plan -/

/-- What the chunks of a plan are. -/
structure Planned (request : AsrPlanRequest) (chunks : List AsrChunkPlan) : Prop where
  chunk : ∀ (c : Nat) chunk, chunks[c]? = some chunk →
    chunk = plannedChunk request c (c * request.step) ∧ c * request.step < request.totalDurationUs
  step : 0 < request.step
  overlap : 0 ≤ request.overlapUs

theorem plannedFrom_getElem {request : AsrPlanRequest} {ordinal : Nat} {cursor : Int} {i : Nat}
    {chunk : AsrChunkPlan} (isChunk : (plannedFrom request ordinal cursor)[i]? = some chunk) :
    chunk = plannedChunk request (ordinal + i) (cursor + i * request.step) ∧
      cursor + i * request.step < request.totalDurationUs := by
  induction i generalizing ordinal cursor with
  | zero =>
    rw [plannedFrom] at isChunk
    split_ifs at isChunk with more
    · cases isChunk
      simpa using more.1
    · cases isChunk
  | succ i ih =>
    rw [plannedFrom] at isChunk
    split_ifs at isChunk with more
    · obtain ⟨rfl, before⟩ := ih isChunk
      have next : cursor + request.step + i * request.step =
          cursor + (i + 1 : Nat) * request.step := by
        push_cast
        ring
      rw [next] at before ⊢
      rw [Nat.add_right_comm]
      exact ⟨rfl, before⟩
    · cases isChunk

theorem buildAsrChunkPlan_planned {request : AsrPlanRequest} {chunks : List AsrChunkPlan}
    (ok : buildAsrChunkPlan request = .ok chunks) : Planned request chunks := by
  unfold buildAsrChunkPlan at ok
  simp only [bind, Except.bind, pure, Except.pure, throw, throwThe, MonadExceptOf.throw] at ok
  split_ifs at ok with negative empty negativeOverlap wide nothing stuck
  · cases ok
    exact ⟨nofun, sub_pos.mpr (not_le.mp wide), not_lt.mp negativeOverlap⟩
  · cases ok
    refine ⟨fun c chunk isChunk => ?_, not_le.mp stuck, not_lt.mp negativeOverlap⟩
    simpa using plannedFrom_getElem isChunk

/-! ## Bounds of a match -/

/-- Run lengths in row `m` of a table with `n` columns. -/
def RowRight (n m : Nat) (row : List Nat) : Prop :=
  row.length = n + 1 ∧ ∀ j length, row[j]? = some length → length ≤ j ∧ length ≤ m

/-- A match lies in the first `m` prior and `n` current words. -/
def ContiguousMatch.Within (found : ContiguousMatch) (m n : Nat) : Prop :=
  found.priorStart + found.length ≤ m ∧ found.currentEnd ≤ n

theorem runRow_right {n m : Nat} {tokens : List Exec.Bytes} {row : List Nat}
    (right : RowRight n m row) (priorToken : Exec.Bytes) (size : tokens.length = n) :
    RowRight n (m + 1) (runRow priorToken tokens row) := by
  obtain ⟨width, bounded⟩ := right
  refine ⟨?_, fun j length isLength => ?_⟩
  · rw [runRow, List.length_cons, List.length_zipWith, size, width, Nat.min_eq_left (Nat.le_succ n)]
  · cases j with
    | zero =>
      cases isLength
      exact ⟨Nat.zero_le _, Nat.zero_le _⟩
    | succ j =>
      rw [runRow, List.getElem?_cons_succ, List.getElem?_zipWith_eq_some] at isLength
      obtain ⟨token, before, -, isBefore, rfl⟩ := isLength
      obtain ⟨left, above⟩ := bounded j before isBefore
      split_ifs
      · exact ⟨Nat.succ_le_succ left, Nat.succ_le_succ above⟩
      · exact ⟨Nat.zero_le _, Nat.zero_le _⟩

theorem betterMatch_within {m n : Nat} {best candidate : ContiguousMatch} (known : best.Within m n)
    (found : candidate.Within m n) : (betterMatch best candidate).Within m n := by
  rw [betterMatch]
  split_ifs
  · exact found
  · exact known

theorem bestOfRow_within {n m limit : Nat} {row : List Nat} {best : ContiguousMatch}
    (right : RowRight n m row) (inside : m ≤ limit) (known : best.Within limit n) :
    (bestOfRow m row best).Within limit n := by
  obtain ⟨width, bounded⟩ := right
  have run : ∀ (entries : List (Nat × Nat)) (best : ContiguousMatch), best.Within limit n →
      (∀ entry ∈ entries, row[entry.2]? = some entry.1) →
      (entries.foldl (fun best (entry : Nat × Nat) =>
        if entry.1 = 0 then best
        else betterMatch best
          { priorStart := m - entry.1, currentStart := entry.2 - entry.1, length := entry.1 })
        best).Within limit n := by
    intro entries
    induction entries with
    | nil => exact fun _ known _ => known
    | cons entry entries ih =>
      intro best known isEntry
      refine ih _ ?_ fun other mem => isEntry other (List.mem_cons_of_mem _ mem)
      have isRow := isEntry entry List.mem_cons_self
      obtain ⟨left, above⟩ := bounded _ _ isRow
      have column : entry.2 < n + 1 := width ▸ (List.getElem?_eq_some_iff.mp isRow).1
      dsimp only
      split_ifs
      · exact known
      · refine betterMatch_within known ⟨?_, ?_⟩
        · exact (Nat.sub_add_cancel above).le.trans inside
        · exact (Nat.sub_add_cancel left).le.trans (Nat.le_of_lt_succ column)
  exact run _ best known fun entry mem => List.mem_zipIdx_iff_getElem?.mp mem

/-- A match lies in the two lists it was looked for in. -/
theorem longestContiguousMatch_within (prior current : List (AsrWord Score)) :
    (longestContiguousMatch prior current).Within prior.length current.length := by
  have size : (current.map fun word => normalizedToken word.text).length = current.length :=
    List.length_map _
  unfold longestContiguousMatch
  generalize (current.map fun word => normalizedToken word.text) = tokens at size ⊢
  have run : ∀ (words : List (AsrWord Score)) (m : Nat) (row : List Nat) (best : ContiguousMatch),
      RowRight current.length m row → best.Within (m + words.length) current.length →
      (((words.zipIdx (m + 1)).foldl (fun (state : List Nat × ContiguousMatch) entry =>
        let row := runRow (normalizedToken entry.1.text) tokens state.1
        (row, bestOfRow entry.2 row state.2)) (row, best)).2).Within (m + words.length)
        current.length := by
    intro words
    induction words with
    | nil => exact fun _ _ _ _ known => known
    | cons word words ih =>
      intro m row best right known
      have next := runRow_right right (normalizedToken word.text) size
      have shift : m + (word :: words).length = m + 1 + words.length := by
        rw [List.length_cons]
        ring
      rw [shift] at known ⊢
      exact ih (m + 1) _ _ next (bestOfRow_within next (Nat.le_add_right _ _) known)
  have start : RowRight current.length 0 (List.replicate (current.length + 1) 0) := by
    refine ⟨List.length_replicate, fun j length isLength => ?_⟩
    rw [List.getElem?_replicate] at isLength
    split_ifs at isLength
    cases isLength
    exact ⟨Nat.zero_le _, Nat.le_refl _⟩
  have all := run prior 0 _ {} start ⟨Nat.zero_le _, Nat.zero_le _⟩
  rw [Nat.zero_add, Nat.zero_add] at all
  exact all

/-! ## The words of a chunk -/

/-- What is asked of the words of chunk `index`: zero-length ones may be among them. -/
structure ChunkWordsRight (index : Nat) (chunk : AsrChunkPlan) (words : List (AsrWord Score)) :
    Prop where
  ordinal : ∀ word ∈ words, word.chunkOrdinal = index
  ordered : words.Pairwise fun a b => a.startUs ≤ b.startUs
  disjoint : words.Pairwise fun a b =>
    ∀ time, ¬ ((a.startUs ≤ time ∧ time < a.endUs) ∧ (b.startUs ≤ time ∧ time < b.endUs))
  inside : ∀ word ∈ words, 0 ≤ word.startUs ∧ word.endUs ≤ chunk.sourceEndUs - chunk.sourceStartUs

/-- What the words of a chunk are on source time. -/
structure CurrentRight (index : Nat) (chunk : AsrChunkPlan) (current : List (AsrWord Score)) :
    Prop where
  line : Timeline AsrWord.startUs AsrWord.endUs current
  inside : ∀ word ∈ current, chunk.sourceStartUs ≤ word.startUs ∧ word.endUs ≤ chunk.sourceEndUs

theorem globallyTimedWords_right {index : Nat} {chunk : AsrChunkPlan}
    {words : List (AsrWord Score)} (right : ChunkWordsRight index chunk words) :
    CurrentRight index chunk (globallyTimedWords words chunk) := by
  constructor
  · constructor
    · intro word mem
      obtain ⟨source, kept, rfl⟩ := List.mem_map.mp mem
      have positive : source.startUs < source.endUs := by simpa using (List.mem_filter.mp kept).2
      exact Int.add_lt_add_right positive _
    · rw [globallyTimedWords, List.pairwise_map, List.pairwise_filter]
      refine (right.ordered.and right.disjoint).imp fun {a b} both positive positive' => ?_
      -- Two words that share no time and start in order: the first ends before.
      obtain ⟨order, apart⟩ := both
      have positive' : b.startUs < b.endUs := by simpa using positive'
      have before : a.endUs ≤ b.startUs := by
        by_contra reaches
        exact apart b.startUs ⟨⟨order, not_le.mp reaches⟩, le_rfl, positive'⟩
      exact Int.add_le_add_right before _
  · intro word mem
    obtain ⟨source, kept, rfl⟩ := List.mem_map.mp mem
    obtain ⟨start, stop⟩ := right.inside source (List.mem_of_mem_filter kept)
    exact ⟨by simpa [AsrWord.shift] using start, by simpa [AsrWord.shift] using le_sub_iff_add_le.mp stop⟩

/-! ## Seams -/

/-- Of a sorted list, as many words as start before a time do. -/
theorem take_filter_early {current : List (AsrWord Score)}
    (sorted : current.Pairwise fun a b => a.startUs < b.startUs) (time : Int) :
    ∀ word ∈ current.take (current.filter fun word => word.startUs < time).length,
      word.startUs < time := by
  induction current with
  | nil => exact nofun
  | cons first rest ih =>
    obtain ⟨later, sortedRest⟩ := List.pairwise_cons.mp sorted
    rw [List.filter_cons]
    split_ifs with early
    · intro word mem
      rcases List.mem_cons.mp mem with rfl | mem
      · simpa using early
      · exact ih sortedRest word mem
    · -- Nothing starts early where the first word does not.
      have none_ : rest.filter (fun word => word.startUs < time) = [] := by
        refine List.filter_eq_nil_iff.mpr fun word mem => ?_
        have order := later word mem
        simp only [decide_eq_true_eq] at early ⊢
        omega
      rw [none_]
      exact nofun

section Seam

variable {result current : List (AsrWord Score)} {last : AsrWord Score} {index : Nat}
  {chunk : AsrChunkPlan}

theorem overlapMatch_within :
    (overlapMatch result current last index chunk).currentEnd ≤
      (currentOverlap current chunk).length := by
  rw [overlapMatch]
  split_ifs
  · exact (longestContiguousMatch_within _ _).2
  · exact Nat.zero_le _

/-- A word that is left out starts in the overlap, or before the result ends. -/
theorem findSeam_appendFrom (line : Timeline AsrWord.startUs AsrWord.endUs current) :
    ∀ word ∈ current.take (findSeam result current last index chunk).appendFrom,
      word.startUs < chunk.sourceStartUs + chunk.overlapBeforeUs ∨ word.startUs < last.endUs := by
  intro word mem
  rw [findSeam] at mem
  dsimp only at mem
  by_cases anchored : kMinimumAlignedOverlapTokens ≤
      (overlapMatch result current last index chunk).length
  · rw [if_pos anchored] at mem
    exact .inl (take_filter_early line.starts_sorted _ word
      (List.take_subset_take_left _ overlapMatch_within mem))
  · rw [if_neg anchored] at mem
    right
    have prefix_ := List.takeWhile_prefix (l := current) fun word => decide (word.startUs < last.endUs)
    rw [List.prefix_iff_eq_take.mp prefix_ |>.symm] at mem
    simpa using List.mem_takeWhile_imp mem

theorem sameAudio_start {a b c d : Nat} (same : sameAudio result current a b c d = true) :
    ∃ priorLast currentFirst, result[b - 1]? = some priorLast ∧
      current[c]? = some currentFirst ∧ currentFirst.startUs < priorLast.endUs := by
  unfold sameAudio at same
  split at same
  · next priorLast currentFirst _ _ isPriorLast isFirst _ _ =>
    have both := Bool.and_eq_true_iff.mp same
    exact ⟨priorLast, currentFirst, isPriorLast, isFirst, by simpa using both.1⟩
  · cases same

/-- In a timeline the words behind one start when it has ended. -/
theorem after_word (line : Timeline AsrWord.startUs AsrWord.endUs result) {i : Nat}
    {before : AsrWord Score} (isWord : result[i]? = some before) :
    ∀ word ∈ result.drop (i + 1), before.endUs ≤ word.startUs := by
  obtain ⟨inside, rfl⟩ := List.getElem?_eq_some_iff.mp isWord
  have pairs := line.apart.sublist (List.drop_sublist i result)
  rw [List.drop_eq_getElem_cons inside] at pairs
  exact (List.pairwise_cons.mp pairs).1

/-- A word of the result that is dropped as a copy starts in the chunk. -/
theorem findSeam_keptPriorEnd (line : Timeline AsrWord.startUs AsrWord.endUs result)
    (inside : ∀ word ∈ current, chunk.sourceStartUs ≤ word.startUs) :
    ∀ word ∈ result.drop (findSeam result current last index chunk).keptPriorEnd,
      chunk.sourceStartUs ≤ word.startUs := by
  have nothing : ∀ word ∈ result.drop result.length, chunk.sourceStartUs ≤ word.startUs := by
    rw [List.drop_length]
    exact nofun
  rw [findSeam]
  dsimp only
  split_ifs with anchored same
  · obtain ⟨priorLast, currentFirst, isPriorLast, isFirst, reaches⟩ := sameAudio_start same
    generalize (overlapMatch result current last index chunk) = found at anchored isPriorLast ⊢
    have behind : priorBegin result index + found.priorStart + found.length =
        priorBegin result index + found.priorStart + found.length - 1 + 1 := by
      dsimp only [kMinimumAlignedOverlapTokens] at anchored
      omega
    rw [behind]
    intro word mem
    have later := after_word line isPriorLast word mem
    have start := inside currentFirst (List.mem_of_getElem? isFirst)
    omega
  · exact nothing
  · exact nothing

end Seam

/-! ## The fold -/

/-- `w` is word `i` of chunk `c` on source time, its end at most shortened. -/
def FromWord (chunks : List AsrChunkPlan) (family : List (List (AsrWord Score))) (c i : Nat)
    (w : AsrWord Score) : Prop :=
  ∃ chunk words word, chunks[c]? = some chunk ∧ family[c]? = some words ∧ words[i]? = some word ∧
    w = (word.shift chunk.sourceStartUs).endAt w.endUs ∧
    w.endUs ≤ (word.shift chunk.sourceStartUs).endUs

/-- A word of chunk `c` that lies outside the overlaps with the chunks before and after. -/
structure Outside (chunks : List AsrChunkPlan) (c : Nat) (w : AsrWord Score) : Prop where
  before : ∀ prev, 0 < c → chunks[c - 1]? = some prev → prev.sourceEndUs ≤ w.startUs
  after : ∀ next, chunks[c + 1]? = some next → w.endUs ≤ next.sourceStartUs

/-- What the result is behind `k` chunks. -/
structure Reconciled (chunks : List AsrChunkPlan) (family : List (List (AsrWord Score))) (k : Nat)
    (result : List (AsrWord Score)) : Prop where
  line : Timeline AsrWord.startUs AsrWord.endUs result
  origin : ∀ w ∈ result, ∃ c < k, ∃ i, FromWord chunks family c i w
  kept : ∀ c < k, ∀ chunk words, chunks[c]? = some chunk → family[c]? = some words →
    ∀ w ∈ globallyTimedWords words chunk, Outside chunks c w → w ∈ result

section Fold

variable {request : AsrPlanRequest} {chunks : List AsrChunkPlan}
  {family : List (List (AsrWord Score))} {k : Nat} {result : List (AsrWord Score)}
  {chunk : AsrChunkPlan} {words : List (AsrWord Score)}

/-- The starts and ends of the chunks grow. -/
theorem Planned.grows (planned : Planned request chunks) {c d : Nat} {first second : AsrChunkPlan}
    (isFirst : chunks[c]? = some first) (isSecond : chunks[d]? = some second) (le : c ≤ d) :
    first.sourceStartUs ≤ second.sourceStartUs ∧ first.sourceEndUs ≤ second.sourceEndUs := by
  obtain ⟨rfl, -⟩ := planned.chunk c first isFirst
  obtain ⟨rfl, -⟩ := planned.chunk d second isSecond
  have starts : (c : Int) * request.step ≤ d * request.step :=
    mul_le_mul_of_nonneg_right (Int.ofNat_le.mpr le) planned.step.le
  exact ⟨starts, min_le_min_right _ (Int.add_le_add_right starts _)⟩

/-- Every chunk before another is still there. -/
theorem chunk_before {c : Nat} (isChunk : chunks[k]? = some chunk) (le : c ≤ k) :
    ∃ earlier, chunks[c]? = some earlier :=
  ⟨_, List.getElem?_eq_getElem (le.trans_lt (List.getElem?_eq_some_iff.mp isChunk).1)⟩

/-- A word outside the overlap starts behind the overlap and behind all earlier chunks. -/
theorem outside_late (planned : Planned request chunks) (isChunk : chunks[k]? = some chunk)
    (some_ : 0 < k) {w : AsrWord Score} (positive : w.startUs < w.endUs)
    (inside : w.endUs ≤ chunk.sourceEndUs) (outside : Outside chunks k w) :
    chunk.sourceStartUs + chunk.overlapBeforeUs ≤ w.startUs ∧
      ∀ c < k, ∀ earlier, chunks[c]? = some earlier → earlier.sourceEndUs ≤ w.startUs := by
  obtain ⟨prev, isPrev⟩ := chunk_before isChunk (Nat.sub_le k 1)
  have behind := outside.before prev some_ isPrev
  refine ⟨?_, fun c lt earlier isEarlier => ?_⟩
  · obtain ⟨rfl, -⟩ := planned.chunk k chunk isChunk
    obtain ⟨rfl, -⟩ := planned.chunk (k - 1) prev isPrev
    obtain ⟨j, rfl⟩ := Nat.exists_eq_succ_of_ne_zero some_.ne'
    dsimp only [plannedChunk] at behind inside ⊢
    have notLast : ((j + 1 - 1 : Nat) : Int) * request.step + request.chunkDurationUs ≤ w.startUs := by
      -- The chunk before does not end with the track, since the word is behind it.
      rcases min_le_iff.mp behind with ends | ends
      · exact ends
      · have before := inside.trans (min_le_right _ _)
        omega
    have next : ((j + 1 : Nat) : Int) * request.step =
        ((j + 1 - 1 : Nat) : Int) * request.step + request.step := by
      push_cast
      ring
    have overlap : min request.overlapUs (((j + 1 : Nat) : Int) * request.step) ≤
        request.overlapUs := min_le_left _ _
    have width : request.step + request.overlapUs = request.chunkDurationUs := by
      rw [AsrPlanRequest.step]
      ring
    rw [if_neg (Nat.succ_ne_zero j)]
    linarith
  · exact ((planned.grows isEarlier isPrev (Nat.le_sub_one_of_lt lt)).2).trans behind

/-- A word of the result is inside its chunk. -/
theorem FromWord.inside {c i : Nat} {w : AsrWord Score} (from_ : FromWord chunks family c i w)
    (right : ∀ c chunk words, chunks[c]? = some chunk → family[c]? = some words →
      ChunkWordsRight c chunk words) :
    ∃ chunk, chunks[c]? = some chunk ∧ chunk.sourceStartUs ≤ w.startUs ∧
      w.endUs ≤ chunk.sourceEndUs := by
  obtain ⟨chunk, words, word, isChunk, isWords, isWord, same, shortened⟩ := from_
  obtain ⟨start, stop⟩ := (right c chunk words isChunk isWords).inside word
    (List.mem_of_getElem? isWord)
  refine ⟨chunk, isChunk, ?_, shortened.trans (le_sub_iff_add_le.mp stop)⟩
  rw [same]
  exact le_add_of_nonneg_left start

/-- A word of a chunk comes from itself. -/
theorem fromWord_current (isChunk : chunks[k]? = some chunk) (isWords : family[k]? = some words)
    {w : AsrWord Score} (mem : w ∈ globallyTimedWords words chunk) :
    ∃ i, FromWord chunks family k i w := by
  obtain ⟨word, kept, rfl⟩ := List.mem_map.mp mem
  obtain ⟨i, isWord⟩ := List.mem_iff_getElem?.mp (List.mem_of_mem_filter kept)
  exact ⟨i, chunk, words, word, isChunk, isWords, isWord, rfl, le_rfl⟩

/-- A word that is trimmed still comes from its word. -/
theorem FromWord.trim {c i : Nat} {w : AsrWord Score} {seam : Int}
    (from_ : FromWord chunks family c i w) (reaches : seam < w.endUs) :
    FromWord chunks family c i (w.endAt seam) := by
  obtain ⟨chunk, words, word, isChunk, isWords, isWord, same, shortened⟩ := from_
  refine ⟨chunk, words, word, isChunk, isWords, isWord, ?_, reaches.le.trans shortened⟩
  rw [same]
  rfl

/-- A word of the result ends with its chunk at the latest. -/
theorem Reconciled.ends (before : Reconciled chunks family k result)
    (right : ∀ c chunk words, chunks[c]? = some chunk → family[c]? = some words →
      ChunkWordsRight c chunk words) {w : AsrWord Score} (mem : w ∈ result) :
    ∃ c < k, ∃ chunk, chunks[c]? = some chunk ∧ w.endUs ≤ chunk.sourceEndUs := by
  obtain ⟨c, lt, i, from_⟩ := before.origin w mem
  obtain ⟨chunk, isChunk, -, stop⟩ := from_.inside right
  exact ⟨c, lt, chunk, isChunk, stop⟩

/-- A word outside the overlaps that an earlier chunk gave ends where chunk `k` starts. -/
theorem outside_early (planned : Planned request chunks) (isChunk : chunks[k]? = some chunk)
    {c : Nat} (lt : c < k) {w : AsrWord Score} (outside : Outside chunks c w) :
    w.endUs ≤ chunk.sourceStartUs := by
  obtain ⟨next, isNext⟩ := chunk_before isChunk lt
  exact (outside.after next isNext).trans (planned.grows isNext isChunk lt).1

/-- What a chunk with a seam makes of the result. -/
theorem Reconciled.join (planned : Planned request chunks)
    (right : ∀ c chunk words, chunks[c]? = some chunk → family[c]? = some words →
      ChunkWordsRight c chunk words)
    (isChunk : chunks[k]? = some chunk) (isWords : family[k]? = some words)
    (before : Reconciled chunks family k result) (kept : Nat) {left appended : List (AsrWord Score)}
    {first : AsrWord Score} {rest : List (AsrWord Score)} (isAppended : appended = first :: rest)
    (split : globallyTimedWords words chunk = left ++ appended)
    (leftOut : ∀ w ∈ left, ¬ Outside chunks k w)
    (dropped : ∀ w ∈ result.drop kept, chunk.sourceStartUs ≤ w.startUs) :
    Reconciled chunks family (k + 1)
      (Lib.cutAt AsrWord.startUs AsrWord.endUs AsrWord.endAt first.startUs (result.take kept) ++
        appended) := by
  obtain ⟨line, inside⟩ := globallyTimedWords_right (right k chunk words isChunk isWords)
  have appendedLine := line.sublist (split ▸ List.sublist_append_right left appended)
  have keptLine := before.line.sublist (List.take_sublist kept result)
  have firstMem : first ∈ globallyTimedWords words chunk := by simp [split, isAppended]
  obtain ⟨cutLine, stops⟩ := keptLine.cutAt AsrWord.startUs_endAt AsrWord.endUs_endAt first.startUs
  have starts : ∀ w ∈ appended, first.startUs ≤ w.startUs := by
    intro w mem
    rw [isAppended] at mem appendedLine
    rcases List.mem_cons.mp mem with rfl | mem
    · exact le_rfl
    · exact ((List.pairwise_cons.mp appendedLine.starts_sorted).1 w mem).le
  constructor
  case line => exact cutLine.append appendedLine stops starts
  case origin =>
    intro w mem
    rcases List.mem_append.mp mem with mem | mem
    · rcases Lib.mem_cutAt mem with mem | ⟨y, known, reaches, rfl⟩
      · obtain ⟨c, lt, from_⟩ := before.origin w (List.mem_of_mem_take mem)
        exact ⟨c, lt.trans (Nat.lt_succ_self k), from_⟩
      · obtain ⟨c, lt, i, from_⟩ := before.origin y (List.mem_of_mem_take known)
        exact ⟨c, lt.trans (Nat.lt_succ_self k), i, from_.trim reaches⟩
    · refine ⟨k, Nat.lt_succ_self k, fromWord_current isChunk isWords ?_⟩
      rw [split]
      exact List.mem_append_right left mem
  case kept =>
    intro c lt earlier earlierWords isEarlier isEarlierWords w mem outside
    rcases Nat.lt_succ_iff_lt_or_eq.mp lt with lt | rfl
    · -- The word ends before the chunk, so neither the copy rule nor the seam reaches it.
      have known := before.kept c lt earlier earlierWords isEarlier isEarlierWords w mem outside
      have ends := outside_early planned isChunk lt outside
      have positive := before.line.positive w known
      rw [← List.take_append_drop kept result] at known
      rcases List.mem_append.mp known with known | known
      · refine List.mem_append_left _ (keptLine.mem_cutAt_of_le known ?_)
        exact ends.trans (inside first firstMem).1
      · exact absurd (dropped w known) (by omega)
    · obtain rfl : chunk = earlier := Option.some.inj (isChunk.symm.trans isEarlier)
      obtain rfl : words = earlierWords := Option.some.inj (isWords.symm.trans isEarlierWords)
      rw [split] at mem
      rcases List.mem_append.mp mem with mem | mem
      · exact absurd outside (leftOut w mem)
      · exact List.mem_append_right _ mem

/-- A chunk that adds nothing has no word outside the overlaps. -/
theorem Reconciled.skip (isChunk : chunks[k]? = some chunk) (isWords : family[k]? = some words)
    (before : Reconciled chunks family k result)
    (leftOut : ∀ w ∈ globallyTimedWords words chunk, ¬ Outside chunks k w) :
    Reconciled chunks family (k + 1) result := by
  refine ⟨before.line, fun w mem => ?_, fun c lt earlier earlierWords isEarlier isEarlierWords => ?_⟩
  · obtain ⟨c, lt, from_⟩ := before.origin w mem
    exact ⟨c, lt.trans (Nat.lt_succ_self k), from_⟩
  · rcases Nat.lt_succ_iff_lt_or_eq.mp lt with lt | rfl
    · exact before.kept c lt earlier earlierWords isEarlier isEarlierWords
    · obtain rfl : chunk = earlier := Option.some.inj (isChunk.symm.trans isEarlier)
      obtain rfl : words = earlierWords := Option.some.inj (isWords.symm.trans isEarlierWords)
      exact fun w mem outside => absurd outside (leftOut w mem)

/-- The words of the result that lie outside the overlaps stay where a chunk is joined,
and all words of the chunk outside the overlap are there. -/
theorem Reconciled.step (planned : Planned request chunks)
    (right : ∀ c chunk words, chunks[c]? = some chunk → family[c]? = some words →
      ChunkWordsRight c chunk words)
    (isChunk : chunks[k]? = some chunk) (isWords : family[k]? = some words)
    (before : Reconciled chunks family k result) :
    Reconciled chunks family (k + 1) (reconcileChunk result k chunk words) := by
  obtain ⟨line, inside⟩ := globallyTimedWords_right (right k chunk words isChunk isWords)
  rw [reconcileChunk]
  dsimp only
  split
  · next empty =>
    refine before.skip isChunk isWords fun w mem => ?_
    rw [List.isEmpty_iff.mp empty] at mem
    cases mem
  · next nonempty =>
    cases isLast : result.getLast? with
    | none =>
      -- Nothing before: the result is the chunk, joined to nothing with no word left out.
      obtain rfl := List.getLast?_eq_none_iff.mp isLast
      obtain ⟨first, rest, isCurrent⟩ := List.exists_cons_of_ne_nil
        fun none_ => nonempty (List.isEmpty_iff.mpr none_)
      have nothing : ([] : List (AsrWord Score)) ++ globallyTimedWords words chunk = _ := rfl
      exact before.join planned right isChunk isWords 0 isCurrent nothing.symm nofun nofun
    | some last =>
      generalize isSeam : findSeam result (globallyTimedWords words chunk) last k chunk = seam
      have split := List.take_append_drop seam.appendFrom (globallyTimedWords words chunk)
      have leftOut : ∀ w ∈ (globallyTimedWords words chunk).take seam.appendFrom,
          ¬ Outside chunks k w := by
        intro w mem outside
        obtain ⟨c, lt, earlier, isEarlier, stop⟩ :=
          before.ends right (List.mem_of_getLast? isLast)
        have current := List.mem_of_mem_take mem
        obtain ⟨behind, late⟩ := outside_late planned isChunk (Nat.zero_lt_of_lt lt)
          (line.positive w current) (inside w current).2 outside
        have early : w.startUs < chunk.sourceStartUs + chunk.overlapBeforeUs ∨
            w.startUs < last.endUs := findSeam_appendFrom line w (isSeam ▸ mem)
        have later := late c lt earlier isEarlier
        omega
      dsimp only
      rw [isSeam]
      split
      · next none_ =>
        refine before.skip isChunk isWords fun w mem => leftOut w ?_
        rw [← split, none_, List.append_nil] at mem
        exact mem
      · next first rest isAppended =>
        rw [← isAppended]
        refine before.join planned right isChunk isWords seam.keptPriorEnd isAppended split.symm leftOut ?_
        rw [← isSeam]
        exact findSeam_keptPriorEnd before.line fun w mem => (inside w mem).1

theorem Reconciled.run (planned : Planned request chunks)
    (right : ∀ c chunk words, chunks[c]? = some chunk → family[c]? = some words →
      ChunkWordsRight c chunk words)
    (sizes : family.length = chunks.length) (before : Reconciled chunks family k result) :
    Reconciled chunks family (max k chunks.length)
      (reconcileFrom result k (chunks.drop k) (family.drop k)) := by
  induction remaining : chunks.length - k generalizing k result with
  | zero =>
    have past : chunks.length ≤ k := Nat.sub_eq_zero_iff_le.mp remaining
    rw [List.drop_eq_nil_of_le past, max_eq_left past]
    exact before
  | succ n ih =>
    have inChunks : k < chunks.length := by omega
    have inFamily : k < family.length := sizes ▸ inChunks
    rw [List.drop_eq_getElem_cons inChunks, List.drop_eq_getElem_cons inFamily, reconcileFrom]
    have next := ih (before.step planned right (List.getElem?_eq_getElem inChunks)
      (List.getElem?_eq_getElem inFamily)) (by omega)
    rw [max_eq_right inChunks.le]
    rwa [max_eq_right (show k + 1 ≤ chunks.length from inChunks)] at next

end Fold

/-! ## The transcript -/

/-- What the words of a transcript are: `line` has them in order, disjoint and with a
positive length, each is an input word, none is one twice, and the words outside the
overlaps are there. -/
structure Transcript (chunks : List AsrChunkPlan) (family : List (List (AsrWord Score)))
    (result : List (AsrWord Score)) : Prop where
  line : Timeline AsrWord.startUs AsrWord.endUs result
  origin : ∀ w ∈ result, ∃ c i, FromWord chunks family c i w
  once : result.Pairwise fun w w' =>
    ∀ c i, FromWord chunks family c i w → ¬ FromWord chunks family c i w'
  kept : ∀ (c : Nat) chunk words, chunks[c]? = some chunk → family[c]? = some words →
    ∀ word ∈ words, word.startUs < word.endUs →
      Outside chunks c (word.shift chunk.sourceStartUs) → word.shift chunk.sourceStartUs ∈ result

/-- A word's start says which input word it is no second time. -/
theorem FromWord.start_eq {chunks : List AsrChunkPlan} {family : List (List (AsrWord Score))}
    {c i : Nat} {w w' : AsrWord Score} (from_ : FromWord chunks family c i w)
    (from' : FromWord chunks family c i w') : w.startUs = w'.startUs := by
  obtain ⟨chunk, words, word, isChunk, isWords, isWord, same, -⟩ := from_
  obtain ⟨chunk', words', word', isChunk', isWords', isWord', same', -⟩ := from'
  obtain rfl : chunk = chunk' := Option.some.inj (isChunk.symm.trans isChunk')
  obtain rfl : words = words' := Option.some.inj (isWords.symm.trans isWords')
  obtain rfl : word = word' := Option.some.inj (isWord.symm.trans isWord')
  rw [same, same']
  rfl

/-- Over a plan, reconciling words that are in order, disjoint and inside their chunks
loses and doubles nothing. -/
theorem reconcileOverlappingChunks_transcript {request : AsrPlanRequest}
    {chunks : List AsrChunkPlan} {family : List (List (AsrWord Score))}
    (planned : buildAsrChunkPlan request = .ok chunks) (sizes : family.length = chunks.length)
    (right : ∀ c chunk words, chunks[c]? = some chunk → family[c]? = some words →
      ChunkWordsRight c chunk words) :
    ∃ result, reconcileOverlappingChunks family chunks = .ok result ∧
      Transcript chunks family result := by
  refine ⟨reconcileFrom [] 0 chunks family, ?_, ?_⟩
  · rw [reconcileOverlappingChunks, if_neg (not_not.mpr sizes)]
    rfl
  · have start : Reconciled chunks family 0 [] := ⟨.nil, nofun, nofun⟩
    have all := start.run (buildAsrChunkPlan_planned planned) right sizes
    rw [Nat.zero_max, List.drop_zero, List.drop_zero] at all
    constructor
    case line => exact all.line
    case origin =>
      intro w mem
      obtain ⟨c, -, from_⟩ := all.origin w mem
      exact ⟨c, from_⟩
    case once =>
      refine all.line.starts_sorted.imp fun {w w'} less c i from_ from' => ?_
      exact absurd (from_.start_eq from') (ne_of_lt less)
    case kept =>
      intro c chunk words isChunk isWords word mem positive outside
      refine all.kept c (List.getElem?_eq_some_iff.mp isChunk).1 chunk words isChunk isWords _ ?_
        outside
      exact List.mem_map_of_mem (List.mem_filter.mpr ⟨mem, by simpa using positive⟩)

/-- A track of 20 seconds. -/
def sampleRequest : AsrPlanRequest := { totalDurationUs := 20000000, modelId := "model" }

def sampleChunks : List AsrChunkPlan :=
  [plannedChunk sampleRequest 0 0, plannedChunk sampleRequest 1 13000000]

theorem buildAsrChunkPlan_sample : buildAsrChunkPlan sampleRequest = .ok sampleChunks := by
  have plan : plannedFrom sampleRequest 0 0 = sampleChunks := by
    rw [plannedFrom, if_pos (by decide), plannedFrom, if_pos (by decide), plannedFrom,
      if_neg (by decide)]
    rfl
  rw [buildAsrChunkPlan, plan]
  rfl

/-- The second chunk repeats the last word of the first. -/
def sampleFamily : List (List (AsrWord Unit)) :=
  [[{ text := Exec.utf8 "one", startUs := 1000000, endUs := 1500000, confidence := (),
      chunkOrdinal := 0 },
    { text := Exec.utf8 "two", startUs := 13500000, endUs := 14000000, confidence := (),
      chunkOrdinal := 0 }],
   [{ text := Exec.utf8 "two", startUs := 500000, endUs := 1000000, confidence := (),
      chunkOrdinal := 1 },
    { text := Exec.utf8 "three", startUs := 4000000, endUs := 4500000, confidence := (),
      chunkOrdinal := 1 }]]

theorem reconcileOverlappingChunks_sample :
    ∃ result, reconcileOverlappingChunks sampleFamily sampleChunks = .ok result ∧
      Transcript sampleChunks sampleFamily result := by
  refine reconcileOverlappingChunks_transcript buildAsrChunkPlan_sample rfl ?_
  have both : ∀ c < 2, ∀ chunk words, sampleChunks[c]? = some chunk → sampleFamily[c]? = some words →
      ChunkWordsRight c chunk words := by
    intro c lt chunk words isChunk isWords
    interval_cases c <;> cases isChunk <;> cases isWords <;>
      refine ⟨by decide, by decide, ?_, by decide⟩ <;>
      simp <;> omega
  exact fun c chunk words isChunk =>
    both c (List.getElem?_eq_some_iff.mp isChunk).1 chunk words isChunk

end Svp.Audio
