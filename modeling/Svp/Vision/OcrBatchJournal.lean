import Svp.Lib.CutPoints
import Svp.Lib.OrderedMap
import Svp.Lib.Outcome
import Svp.Vision.BatchIndependence
import Svp.Vision.EntityWindows

/-!
# The batch partition recorded in a journal

A resumed build takes its OCR batches from the task ids of the journal.
`ocrBatchesFromTaskIds` reads every id of the form
`task.ocr.frame_batch.samples_<first>_<last>` as 64-bit numbers and accepts them when
they cut the samples into consecutive batches.

* The ids of a partition give that partition back, in any order and among ids of other
  tasks (`ocrBatchesFromTaskIds_recovers`, first part).
* Whatever else is accepted tiles the samples and starts on reuse groups (second part).
* A further batch id hides the partition, and a number of 2^64 or more is thrown.
-/

namespace Svp.Vision

open Lib (OrderedMap Outcome Tiles)

/-! ## Task ids -/

def paddedOrdinal (ordinal : Nat) : String := numberedId "" ordinal

def kBatchIdStart : String := "task.ocr.frame_batch.samples_"

def ocrFrameBatchTaskId (batch : OcrSampleBatch) : String :=
  kBatchIdStart ++ paddedOrdinal batch.firstOrdinal ++ "_" ++
    paddedOrdinal (batch.firstOrdinal + batch.count - 1)

/-- The two groups of digits of `kBatchId`, where the whole id matches it. -/
def matchBatchId (id : String) : Option (List Char × List Char) := do
  let rest ← id.toList.dropPrefix? kBatchIdStart.toList
  match rest.dropWhile Char.isDigit with
  | '_' :: last =>
    let first := rest.takeWhile Char.isDigit
    if first ≠ [] ∧ last ≠ [] ∧ last.all Char.isDigit then some (first, last) else none
  | _ => none

/-! ## Reading a journal -/

/-- The number the digits spell. -/
def spelled (digits : List Char) : Nat := Nat.ofDigitChars 10 digits 0

/-- `std::stoull` on digits. -/
def stoull (digits : List Char) : Outcome Nat :=
  if spelled digits < 2 ^ 64 then .returned (spelled digits) else .thrown "stoull: out of range"

/-- Counts by first ordinal; none where the batch is refused. -/
def recordBatch (byFirst : OrderedMap Nat Nat) (first last : Nat) : Option (OrderedMap Nat Nat) :=
  if last < first ∨ ocrReuseGroupStartsAt first = false ∨ byFirst.contains first = true then none
  else some (byFirst.emplace first ((last - first + 1) % 2 ^ 64))

def recordBatches (byFirst : OrderedMap Nat Nat) :
    List String → Outcome (Option (OrderedMap Nat Nat))
  | [] => .returned (some byFirst)
  | id :: ids =>
    match matchBatchId id with
    | none => recordBatches byFirst ids
    | some (firstDigits, lastDigits) => do
      let first ← stoull firstDigits
      let last ← stoull lastDigits
      match recordBatch byFirst first last with
      | none => return none
      | some byFirst => recordBatches byFirst ids

/-- The entries as consecutive batches from `next` on, and where they end. -/
def cutFrom (next : Nat) : List (Nat × Nat) → Option (List OcrSampleBatch × Nat)
  | [] => some ([], next)
  | (first, count) :: entries =>
    if first ≠ next then none
    else do
      let (batches, stop) ← cutFrom ((first + count) % 2 ^ 64) entries
      return ({ firstOrdinal := first, count } :: batches, stop)

def ocrBatchesFromTaskIds (taskIds : List String) (sampleCount : Nat) :
    Outcome (Option (List OcrSampleBatch)) := do
  let recorded ← recordBatches .empty taskIds
  match recorded with
  | none => return none
  | some byFirst =>
    if byFirst.isEmpty then return none
    else
      match cutFrom 0 byFirst.entries with
      | none => return none
      | some (batches, next) => if next ≠ sampleCount then return none else return some batches

/-! ## What an id says -/

theorem takeWhile_all {α : Type} {p : α → Bool} {front : List α} (all : ∀ a ∈ front, p a = true)
    {stop : α} (stops : p stop = false) (rest : List α) :
    (front ++ stop :: rest).takeWhile p = front ∧
      (front ++ stop :: rest).dropWhile p = stop :: rest := by
  constructor
  · rw [List.takeWhile_append_of_pos all, List.takeWhile_cons_of_neg (by simp [stops]),
      List.append_nil]
  · rw [List.dropWhile_append_of_pos all, List.dropWhile_cons_of_neg (by simp [stops])]

theorem matchBatchId_digits {first last : List Char} (someFirst : first ≠ [])
    (someLast : last ≠ []) (firstDigits : ∀ c ∈ first, c.isDigit = true)
    (lastDigits : ∀ c ∈ last, c.isDigit = true) :
    matchBatchId (kBatchIdStart ++ String.ofList first ++ "_" ++ String.ofList last) =
      some (first, last) := by
  have chars : (kBatchIdStart ++ String.ofList first ++ "_" ++ String.ofList last).toList =
      kBatchIdStart.toList ++ (first ++ '_' :: last) := by
    simp [String.toList_append]
  have dropped : (kBatchIdStart.toList ++ (first ++ '_' :: last)).dropPrefix?
      kBatchIdStart.toList = some (first ++ '_' :: last) :=
    List.dropPrefix?_eq_some_iff.mpr ⟨_, rfl, beq_self_eq_true _⟩
  obtain ⟨taken, left⟩ := takeWhile_all firstDigits (rfl : Char.isDigit '_' = false) last
  rw [matchBatchId, chars, dropped, Option.bind_eq_bind, Option.bind_some]
  rw [left, taken]
  dsimp only
  exact if_pos ⟨someFirst, someLast, List.all_eq_true.mpr lastDigits⟩

theorem paddedOrdinal_digits (ordinal : Nat) :
    ∃ digits, paddedOrdinal ordinal = String.ofList digits ∧ digits ≠ [] ∧
      (∀ c ∈ digits, c.isDigit = true) ∧ spelled digits = ordinal := by
  refine ⟨List.replicate (6 - (Nat.toDigits 10 ordinal).length) '0' ++ Nat.toDigits 10 ordinal,
    ?_, ?_, ?_, ?_⟩
  · exact String.empty_append
  · exact List.append_ne_nil_of_right_ne_nil _ Nat.toDigits_ne_nil
  · intro c mem
    rcases List.mem_append.mp mem with zero | digit
    · rw [List.eq_of_mem_replicate zero]
      rfl
    · exact Nat.isDigit_of_mem_toDigits (by decide) (by decide) digit
  · simp [spelled, Nat.ofDigitChars_append, Nat.ofDigitChars_replicate_zero,
      Nat.ofDigitChars_ten_toDigits]

/-- The numbers a batch id spells. -/
def batchNumbers (id : String) : Option (Nat × Nat) :=
  (matchBatchId id).map fun (first, last) => (spelled first, spelled last)

theorem batchNumbers_taskId (batch : OcrSampleBatch) :
    batchNumbers (ocrFrameBatchTaskId batch) =
      some (batch.firstOrdinal, batch.firstOrdinal + batch.count - 1) := by
  obtain ⟨first, isFirst, someFirst, firstDigits, firstValue⟩ :=
    paddedOrdinal_digits batch.firstOrdinal
  obtain ⟨last, isLast, someLast, lastDigits, lastValue⟩ :=
    paddedOrdinal_digits (batch.firstOrdinal + batch.count - 1)
  rw [ocrFrameBatchTaskId, isFirst, isLast, batchNumbers,
    matchBatchId_digits someFirst someLast firstDigits lastDigits]
  exact congrArg some (Prod.ext firstValue lastValue)

theorem stoull_spelled {digits : List Char} (small : spelled digits < 2 ^ 64) :
    stoull digits = .returned (spelled digits) := if_pos small

/-! ## What a journal records -/

/-- Every number in a batch id fits 64 bits. -/
def SmallNumbers (ids : List String) : Prop :=
  ∀ id ∈ ids, ∀ first last, batchNumbers id = some (first, last) →
    first < 2 ^ 64 ∧ last < 2 ^ 64

theorem recordBatches_eq (byFirst : OrderedMap Nat Nat) {ids : List String}
    (small : SmallNumbers ids) :
    recordBatches byFirst ids = .returned
      ((ids.filterMap batchNumbers).foldlM
        (fun byFirst numbers => recordBatch byFirst numbers.1 numbers.2) byFirst) := by
  induction ids generalizing byFirst with
  | nil => rfl
  | cons id ids ih =>
    have rest : SmallNumbers ids := fun other mem => small other (.tail _ mem)
    rw [recordBatches]
    cases matched : matchBatchId id with
    | none =>
      have unnumbered : batchNumbers id = none := congrArg _ matched
      rw [List.filterMap_cons_none unnumbered]
      exact ih byFirst rest
    | some digits =>
      have numbered : batchNumbers id = some (spelled digits.1, spelled digits.2) :=
        congrArg _ matched
      obtain ⟨smallFirst, smallLast⟩ := small id List.mem_cons_self _ _ numbered
      rw [List.filterMap_cons_some numbered, List.foldlM_cons]
      dsimp only
      rw [stoull_spelled smallFirst, Outcome.returned_bind, stoull_spelled smallLast,
        Outcome.returned_bind]
      cases recordBatch byFirst (spelled digits.1) (spelled digits.2) with
      | none => rfl
      | some byFirst => exact ih byFirst rest

theorem recordBatch_some {byFirst byFirst' : OrderedMap Nat Nat} {first last : Nat}
    (recorded : recordBatch byFirst first last = some byFirst') :
    first ≤ last ∧ ocrReuseGroupStartsAt first = true ∧ byFirst.find? first = none ∧
      byFirst' = byFirst.insert first ((last - first + 1) % 2 ^ 64) := by
  unfold recordBatch at recorded
  split_ifs at recorded with refused
  obtain ⟨ordered, starts, absent⟩ := not_or.mp refused |>.imp_right not_or.mp
  have unset : byFirst.find? first = none := by
    rw [OrderedMap.contains, Option.isSome_iff_ne_none, not_not] at absent
    exact absent
  refine ⟨Nat.not_lt.mp ordered, by simpa using starts, unset, ?_⟩
  rw [← Option.some.inj recorded, OrderedMap.emplace_absent _ unset]

theorem recordBatch_new {byFirst : OrderedMap Nat Nat} {first last : Nat} (ordered : first ≤ last)
    (starts : ocrReuseGroupStartsAt first = true) (absent : byFirst.find? first = none) :
    recordBatch byFirst first last =
      some (byFirst.insert first ((last - first + 1) % 2 ^ 64)) := by
  unfold recordBatch
  rw [if_neg, OrderedMap.emplace_absent _ absent]
  rintro (reversed | inside | present)
  · exact Nat.not_lt.mpr ordered reversed
  · rw [starts] at inside
    cases inside
  · rw [OrderedMap.contains, absent] at present
    cases present

/-- Batches that start on different reuse groups are all recorded. -/
theorem recorded_perm (byFirst : OrderedMap Nat Nat) {numbers : List (Nat × Nat)}
    (ordered : ∀ pair ∈ numbers, pair.1 ≤ pair.2)
    (starts : ∀ pair ∈ numbers, ocrReuseGroupStartsAt pair.1 = true)
    (different : (numbers.map Prod.fst).Nodup)
    (absent : ∀ pair ∈ numbers, byFirst.find? pair.1 = none) :
    ∃ byFirst', numbers.foldlM (fun byFirst pair => recordBatch byFirst pair.1 pair.2) byFirst =
        some byFirst' ∧
      byFirst'.entries.Perm (numbers.map (fun pair => (pair.1, (pair.2 - pair.1 + 1) % 2 ^ 64)) ++
        byFirst.entries) := by
  induction numbers generalizing byFirst with
  | nil => exact ⟨byFirst, rfl, .refl _⟩
  | cons pair numbers ih =>
    obtain ⟨fresh, different⟩ := List.nodup_cons.mp different
    have unset := absent pair List.mem_cons_self
    have recorded := recordBatch_new (ordered pair List.mem_cons_self)
      (starts pair List.mem_cons_self) unset
    obtain ⟨byFirst', folded, same⟩ := ih (byFirst.insert pair.1 ((pair.2 - pair.1 + 1) % 2 ^ 64))
      (fun other mem => ordered other (.tail _ mem))
      (fun other mem => starts other (.tail _ mem)) different (by
        intro other mem
        rw [OrderedMap.find?_insert, if_neg, absent other (.tail _ mem)]
        exact fun key => fresh (key ▸ List.mem_map_of_mem mem))
    refine ⟨byFirst', ?_, same.trans ?_⟩
    · rw [List.foldlM_cons, recorded]
      exact folded
    · have inserted := byFirst.insert_perm pair.1 ((pair.2 - pair.1 + 1) % 2 ^ 64)
      rw [OrderedMap.erase_of_absent (OrderedMap.find?_eq_none.mp unset)] at inserted
      exact (inserted.append_left _).trans List.perm_middle

/-- A recorded batch starts a reuse group and ends within 64 bits; the batch of all 2^64
samples counts none. -/
def Recorded (entry : Nat × Nat) : Prop :=
  ocrReuseGroupStartsAt entry.1 = true ∧
    (0 < entry.2 ∧ entry.1 + entry.2 ≤ 2 ^ 64 ∨ entry = (0, 0))

theorem recorded_entry {first last : Nat} (ordered : first ≤ last) (small : last < 2 ^ 64)
    (starts : ocrReuseGroupStartsAt first = true) :
    Recorded (first, (last - first + 1) % 2 ^ 64) := by
  refine ⟨starts, ?_⟩
  rcases lt_or_ge (last - first + 1) (2 ^ 64) with fits | all
  · rw [Nat.mod_eq_of_lt fits]
    exact .inl ⟨Nat.succ_pos _, by omega⟩
  · obtain ⟨rfl, isLast⟩ : first = 0 ∧ last = 2 ^ 64 - 1 := by omega
    rw [isLast]
    exact .inr rfl

theorem recorded_all {byFirst byFirst' : OrderedMap Nat Nat} {numbers : List (Nat × Nat)}
    (small : ∀ pair ∈ numbers, pair.2 < 2 ^ 64)
    (folded : numbers.foldlM (fun byFirst pair => recordBatch byFirst pair.1 pair.2) byFirst =
      some byFirst')
    (before : ∀ entry ∈ byFirst.entries, Recorded entry) :
    ∀ entry ∈ byFirst'.entries, Recorded entry := by
  induction numbers generalizing byFirst with
  | nil =>
    cases folded
    exact before
  | cons pair numbers ih =>
    rw [List.foldlM_cons] at folded
    obtain ⟨next, recorded, folded⟩ := Option.bind_eq_some_iff.mp folded
    obtain ⟨ordered, starts, -, rfl⟩ := recordBatch_some recorded
    refine ih (fun other mem => small other (.tail _ mem)) folded ?_
    intro entry mem
    rcases OrderedMap.mem_insert.mp mem with rfl | ⟨-, mem⟩
    · exact recorded_entry ordered (small pair List.mem_cons_self) starts
    · exact before entry mem

/-! ## Partitions -/

/-- The batches lie end to end over the samples, and each starts a reuse group. -/
structure BatchPartition (sampleCount : Nat) (batches : List OcrSampleBatch) : Prop where
  tiles : Tiles OcrSampleBatch.firstOrdinal (fun batch => batch.firstOrdinal + batch.count) 0
    batches sampleCount
  counted : ∀ batch ∈ batches, 0 < batch.count
  starts : ∀ batch ∈ batches, ocrReuseGroupStartsAt batch.firstOrdinal = true

theorem batchesFrom_tiles {perBatch : Nat} (some_ : 0 < perBatch) (left first : Nat) :
    Tiles OcrSampleBatch.firstOrdinal (fun batch => batch.firstOrdinal + batch.count) first
      (batchesFrom perBatch left first) (first + left) ∧
    ∀ batch ∈ batchesFrom perBatch left first, 0 < batch.count := by
  induction left, first using batchesFrom.induct perBatch with
  | case1 first =>
    rw [batchesFrom]
    exact ⟨rfl, List.forall_mem_nil _⟩
  | case2 left first count ih =>
    have counted : 0 < count := lt_min some_ (Nat.succ_pos _)
    have within : count ≤ left + 1 := Nat.min_le_right _ _
    rw [batchesFrom]
    refine ⟨⟨rfl, Nat.le_add_right _ _, ?_⟩, List.forall_mem_cons.mpr ⟨counted, ih.2⟩⟩
    have stop : first + count + (left - (count - 1)) = first + (left + 1) := by omega
    exact stop ▸ ih.1

theorem partitionOcrSamples_partition {sampleCount : Nat} {policy : OcrBatchPolicy}
    {batches : List OcrSampleBatch} (ok : partitionOcrSamples sampleCount policy = .ok batches) :
    BatchPartition sampleCount batches := by
  unfold partitionOcrSamples at ok
  cases counted : ocrBatchSampleCount policy with
  | error error =>
    rw [counted] at ok
    cases ok
  | ok perBatch =>
    rw [counted] at ok
    cases ok
    obtain ⟨aligned, some_⟩ := ocrBatchSampleCount_aligned counted
    obtain ⟨tiles, counts⟩ := batchesFrom_tiles some_ sampleCount 0
    rw [Nat.zero_add] at tiles
    refine ⟨tiles, counts, fun batch mem => ?_⟩
    exact beq_iff_eq.mpr (batchesFrom_starts aligned sampleCount 0 rfl batch mem)

/-- What the map of a partition's batches holds. -/
def batchEntry (batch : OcrSampleBatch) : Nat × Nat := (batch.firstOrdinal, batch.count)

/-- Batches laid end to end within 64 bits are cut as they are. -/
theorem cutFrom_tiles {first last : Nat} {batches : List OcrSampleBatch}
    (tiles : Tiles OcrSampleBatch.firstOrdinal (fun batch => batch.firstOrdinal + batch.count)
      first batches last) (small : last < 2 ^ 64) :
    cutFrom first (batches.map batchEntry) = some (batches, last) := by
  induction batches generalizing first with
  | nil =>
    cases tiles
    rfl
  | cons batch batches ih =>
    obtain ⟨rfl, -, tiles⟩ := tiles
    rw [List.map_cons, batchEntry, cutFrom, if_neg (not_not.mpr rfl),
      Nat.mod_eq_of_lt (tiles.le.trans_lt small), ih tiles]
    rfl

/-- Recorded entries in the order of their keys are cut into batches laid end to end: an
end that wraps around meets no further entry. -/
theorem tiles_cutFrom {next stop : Nat} {entries : List (Nat × Nat)}
    {batches : List OcrSampleBatch} (recorded : ∀ entry ∈ entries, Recorded entry)
    (sorted : (entries.map Prod.fst).Pairwise (· < ·))
    (cut : cutFrom next entries = some (batches, stop)) (some_ : 0 < stop) :
    batches.map batchEntry = entries ∧ (∀ batch ∈ batches, 0 < batch.count) ∧
      Tiles OcrSampleBatch.firstOrdinal (fun batch => batch.firstOrdinal + batch.count) next
        batches stop := by
  induction entries generalizing next batches with
  | nil =>
    cases cut
    exact ⟨rfl, nofun, rfl⟩
  | cons entry entries ih =>
    obtain ⟨first, count⟩ := entry
    rw [cutFrom] at cut
    split_ifs at cut with apart
    obtain rfl := not_not.mp apart
    obtain ⟨⟨rest, stop'⟩, cutRest, same⟩ := Option.bind_eq_some_iff.mp cut
    cases same
    obtain ⟨above, sorted⟩ := List.pairwise_cons.mp sorted
    -- an end of zero would be followed by a key that is not above `first`
    have ends : (first + count) % 2 ^ 64 ≠ 0 := by
      intro wrapped
      rw [wrapped] at cutRest
      cases entries with
      | nil =>
        cases cutRest
        exact lt_irrefl 0 some_
      | cons other entries =>
        rw [cutFrom] at cutRest
        split_ifs at cutRest with apart'
        have isZero := not_not.mp apart'
        have larger := above other.1 List.mem_cons_self
        rw [isZero] at larger
        exact Nat.not_lt_zero _ larger
    obtain ⟨-, ⟨counted, within⟩ | whole⟩ := recorded (first, count) List.mem_cons_self
    · have fits : first + count < 2 ^ 64 := by
        refine lt_of_le_of_ne within fun full => ends ?_
        exact (congrArg (· % 2 ^ 64) full).trans (Nat.mod_self _)
      rw [Nat.mod_eq_of_lt fits] at cutRest
      obtain ⟨same, counts, tiles⟩ :=
        ih (fun other mem => recorded other (.tail _ mem)) sorted cutRest
      exact ⟨congrArg _ same, List.forall_mem_cons.mpr ⟨counted, counts⟩, rfl,
        Nat.le_add_right _ _, tiles⟩
    · cases whole
      exact absurd rfl ends

/-! ## Recovery -/

/-- An accepted journal is a partition of its samples. -/
theorem ocrBatchesFromTaskIds_partition {ids : List String} {sampleCount : Nat}
    (some_ : 0 < sampleCount) (small : SmallNumbers ids) :
    ∃ found, ocrBatchesFromTaskIds ids sampleCount = .returned found ∧
      ∀ batches, found = some batches → BatchPartition sampleCount batches := by
  unfold ocrBatchesFromTaskIds
  rw [recordBatches_eq _ small, Outcome.returned_bind]
  cases folded : (ids.filterMap batchNumbers).foldlM
      (fun byFirst numbers => recordBatch byFirst numbers.1 numbers.2) OrderedMap.empty with
  | none => exact ⟨none, rfl, nofun⟩
  | some byFirst =>
    dsimp only
    split
    · exact ⟨none, rfl, nofun⟩
    · cases cut : cutFrom 0 byFirst.entries with
      | none => exact ⟨none, rfl, nofun⟩
      | some found =>
        obtain ⟨batches, next⟩ := found
        dsimp only
        split_ifs with short
        · exact ⟨none, rfl, nofun⟩
        · obtain rfl := not_not.mp short
          refine ⟨some batches, rfl, ?_⟩
          rintro _ ⟨⟩
          have recorded := recorded_all (fun pair mem => by
            obtain ⟨id, among, numbered⟩ := List.mem_filterMap.mp mem
            exact (small id among pair.1 pair.2 numbered).2) folded nofun
          obtain ⟨same, counts, tiles⟩ := tiles_cutFrom recorded byFirst.sorted cut some_
          refine ⟨tiles, counts, fun batch mem => ?_⟩
          exact (recorded (batchEntry batch) (same ▸ List.mem_map_of_mem mem)).1

/-- The first and the last ordinal of a batch. -/
def batchEnds (batch : OcrSampleBatch) : Nat × Nat :=
  (batch.firstOrdinal, batch.firstOrdinal + batch.count - 1)

/-- The numbers in a journal are those of the batches whose ids it holds. -/
theorem journal_numbers {ids others : List String} {batches : List OcrSampleBatch}
    (foreign : ∀ id ∈ others, matchBatchId id = none)
    (journal : ids.Perm (batches.map ocrFrameBatchTaskId ++ others)) :
    (ids.filterMap batchNumbers).Perm (batches.map batchEnds) := by
  have named : (batches.map ocrFrameBatchTaskId).filterMap batchNumbers =
      batches.map batchEnds := by
    rw [List.filterMap_map, ← List.filterMap_eq_map]
    refine List.filterMap_congr fun batch _ => ?_
    rw [Function.comp_apply, batchNumbers_taskId, Function.comp_apply, batchEnds]
  have unnamed : others.filterMap batchNumbers = [] :=
    List.filterMap_eq_nil_iff.mpr fun id mem => congrArg _ (foreign id mem)
  have numbers := journal.filterMap batchNumbers
  rwa [List.filterMap_append, named, unnamed, List.append_nil] at numbers

/-- The task ids of a partition, with ids of other tasks around them, give it back. -/
theorem ocrBatchesFromTaskIds_ids {ids others : List String} {sampleCount : Nat}
    {batches : List OcrSampleBatch} (some_ : 0 < sampleCount) (small : sampleCount < 2 ^ 64)
    (partition : BatchPartition sampleCount batches)
    (foreign : ∀ id ∈ others, matchBatchId id = none)
    (journal : ids.Perm (batches.map ocrFrameBatchTaskId ++ others)) :
    ocrBatchesFromTaskIds ids sampleCount = .returned (some batches) := by
  have numbers := journal_numbers foreign journal
  have within : ∀ batch ∈ batches, 0 < batch.count ∧ batch.firstOrdinal + batch.count < 2 ^ 64 :=
    fun batch mem => ⟨partition.counted batch mem, (partition.tiles.mem mem).2.trans_lt small⟩
  have ends : ∀ pair ∈ ids.filterMap batchNumbers, ∃ batch ∈ batches, batchEnds batch = pair :=
    fun pair mem => List.mem_map.mp (numbers.subset mem)
  have smallNumbers : SmallNumbers ids := by
    intro id mem first last numbered
    obtain ⟨batch, among, same⟩ := ends (first, last) (List.mem_filterMap.mpr ⟨id, mem, numbered⟩)
    cases same
    obtain ⟨counted, fits⟩ := within batch among
    exact ⟨(Nat.le_add_right _ _).trans_lt fits, (Nat.sub_le _ _).trans_lt fits⟩
  have ordered : ∀ pair ∈ ids.filterMap batchNumbers, pair.1 ≤ pair.2 := by
    intro pair mem
    obtain ⟨batch, among, rfl⟩ := ends pair mem
    exact Nat.le_sub_of_add_le (Nat.add_le_add_left (within batch among).1 _)
  have starts : ∀ pair ∈ ids.filterMap batchNumbers, ocrReuseGroupStartsAt pair.1 = true := by
    intro pair mem
    obtain ⟨batch, among, rfl⟩ := ends pair mem
    exact partition.starts batch among
  have firsts := partition.tiles.sorted fun batch mem =>
    Nat.lt_add_of_pos_right (partition.counted batch mem)
  have different : ((ids.filterMap batchNumbers).map Prod.fst).Nodup := by
    have same := numbers.map Prod.fst
    rw [List.map_map] at same
    exact same.nodup_iff.mpr (firsts.imp ne_of_lt)
  obtain ⟨byFirst, folded, recorded⟩ :=
    recorded_perm OrderedMap.empty ordered starts different fun _ _ => rfl
  -- the map lists the batches in the order of the partition
  have entries : byFirst.entries = batches.map batchEntry := by
    have counts : batches.map (fun batch =>
        (batch.firstOrdinal, ((batchEnds batch).2 - batch.firstOrdinal + 1) % 2 ^ 64)) =
        batches.map batchEntry := by
      refine List.map_congr_left fun batch mem => Prod.ext rfl ?_
      obtain ⟨counted, fits⟩ := within batch mem
      dsimp only [batchEnds, batchEntry]
      rw [Nat.add_sub_assoc counted, Nat.add_sub_cancel_left, Nat.sub_add_cancel counted,
        Nat.mod_eq_of_lt ((Nat.le_add_left _ _).trans_lt fits)]
    have same := numbers.map fun pair => (pair.1, (pair.2 - pair.1 + 1) % 2 ^ 64)
    rw [List.map_map] at same
    rw [OrderedMap.entries_empty, List.append_nil] at recorded
    refine (recorded.trans (same.trans (.of_eq counts))).eq_of_pairwise
      (fun a b _ _ below above => absurd (lt_trans below above) (lt_irrefl a.1))
      (List.pairwise_map.mp byFirst.sorted) (List.pairwise_map.mpr (List.pairwise_map.mp firsts))
  have nonempty : byFirst.isEmpty = false := by
    refine Bool.eq_false_iff.mpr fun empty => ?_
    rw [OrderedMap.isEmpty_iff.mp empty] at entries
    have none_ := List.map_eq_nil_iff.mp entries.symm
    have tiles := partition.tiles
    rw [none_] at tiles
    exact some_.ne tiles
  unfold ocrBatchesFromTaskIds
  rw [recordBatches_eq _ smallNumbers, Outcome.returned_bind, folded]
  dsimp only
  rw [nonempty, entries, cutFrom_tiles partition.tiles small]
  simp

/-- One reuse group is one batch under every valid policy. -/
theorem partitionOcrSamples_group {policy : OcrBatchPolicy}
    (valid : validateOcrBatchPolicy policy = .ok ()) :
    partitionOcrSamples kOcrReuseGroupSamples policy =
      .ok [{ firstOrdinal := 0, count := kOcrReuseGroupSamples }] := by
  have counted : ∃ perBatch, ocrBatchSampleCount policy = .ok perBatch := by
    unfold ocrBatchSampleCount
    rw [valid]
    dsimp only [bind, Except.bind]
    split_ifs
    · exact ⟨_, rfl⟩
    · exact ⟨_, rfl⟩
  obtain ⟨perBatch, counted⟩ := counted
  obtain ⟨aligned, some_⟩ := ocrBatchSampleCount_aligned counted
  have whole : kOcrReuseGroupSamples ≤ perBatch :=
    Nat.le_of_dvd some_ (Nat.dvd_of_mod_eq_zero aligned)
  have cut : batchesFrom perBatch (2 + 1) 0 = [{ firstOrdinal := 0, count := 2 + 1 }] := by
    rw [batchesFrom, Nat.min_eq_right (show 2 + 1 ≤ perBatch from whole)]
    rw [batchesFrom]
  unfold partitionOcrSamples
  rw [counted]
  exact congrArg Except.ok cut

/-- A partition is recovered from its task ids in any order and among ids of other tasks;
and a journal whose batch ids hold 64-bit numbers gives nothing or batches that tile the
samples from reuse group to reuse group. -/
theorem ocrBatchesFromTaskIds_recovers {sampleCount : Nat} (some_ : 0 < sampleCount)
    (small : sampleCount < 2 ^ 64) :
    (∀ policy batches ids others, partitionOcrSamples sampleCount policy = .ok batches →
      (∀ id ∈ others, matchBatchId id = none) →
      ids.Perm (batches.map ocrFrameBatchTaskId ++ others) →
      ocrBatchesFromTaskIds ids sampleCount = .returned (some batches)) ∧
    ∀ ids, SmallNumbers ids →
      ∃ found, ocrBatchesFromTaskIds ids sampleCount = .returned found ∧
        ∀ batches, found = some batches → BatchPartition sampleCount batches :=
  ⟨fun _ _ _ _ planned foreign journal =>
      ocrBatchesFromTaskIds_ids some_ small (partitionOcrSamples_partition planned) foreign journal,
    fun _ numbers => ocrBatchesFromTaskIds_partition some_ numbers⟩

def halfSecondPolicy : OcrBatchPolicy where
  targetTaskSeconds := 10
  estimatedSecondsPerSample := 1 / 2

theorem halfSecondPolicy_valid : validateOcrBatchPolicy halfSecondPolicy = .ok () := by
  unfold validateOcrBatchPolicy
  rw [if_neg (by norm_num [halfSecondPolicy]), if_neg (by norm_num [halfSecondPolicy])]
  rfl

theorem ocrBatchesFromTaskIds_recovers_sample :
    ocrBatchesFromTaskIds
      ["task.color.vstream_000", ocrFrameBatchTaskId { firstOrdinal := 0, count := 3 }] 3 =
        .returned (some [{ firstOrdinal := 0, count := 3 }]) :=
  (@ocrBatchesFromTaskIds_recovers 3 (by decide) (by decide)).1
    halfSecondPolicy _ _ ["task.color.vstream_000"]
    (partitionOcrSamples_group halfSecondPolicy_valid) (by decide) (by decide)

/-- No samples give nothing instead of no batches, a further batch id hides the partition,
and a number of more than 64 bits is thrown. -/
theorem ocrBatchesFromTaskIds_exceptions :
    (∃ batches, partitionOcrSamples 0 halfSecondPolicy = .ok batches ∧
      ocrBatchesFromTaskIds (batches.map ocrFrameBatchTaskId) 0 ≠ .returned (some batches)) ∧
    (∃ batches, partitionOcrSamples 3 halfSecondPolicy = .ok batches ∧
      ocrBatchesFromTaskIds
        (batches.map ocrFrameBatchTaskId ++ ["task.ocr.frame_batch.samples_000003_000005"]) 3 ≠
          .returned (some batches)) ∧
    ocrBatchesFromTaskIds ["task.ocr.frame_batch.samples_0_18446744073709551616"] 3 =
      .thrown "stoull: out of range" := by
  refine ⟨?_, ⟨_, partitionOcrSamples_group halfSecondPolicy_valid, by decide⟩, by decide⟩
  have counted := partitionOcrSamples_group halfSecondPolicy_valid
  unfold partitionOcrSamples at counted ⊢
  cases perBatch : ocrBatchSampleCount halfSecondPolicy with
  | error error =>
    rw [perBatch] at counted
    cases counted
  | ok perBatch =>
    refine ⟨_, rfl, ?_⟩
    rw [batchesFrom]
    decide

end Svp.Vision
