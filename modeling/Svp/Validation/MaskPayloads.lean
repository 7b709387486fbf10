import Svp.Vision.MaskRle

/-!
# Mask payloads, decoded twice

The validator's `decodeRle` reads a mask payload to its end and `decodeMaskRle` until it
has all pixels. Both take ten bytes and 64 bits of a number. A payload of the language is
a list of complete numbers whose sum is the pixel count (`InLanguage`); the two decoders
accept just these when the payload is plain: `mask_rle_one_language_iff`.
-/

namespace Svp.Validation

open Lib (Outcome Leb128Number leb128First leb128Numbers)
open Lib.Outcome
open Vision (readLeb128 readLeb128_shorter readLeb128_first decodeMaskRle encodeMaskRle pixelCount
  word wordSum paint afterCount Wraps toNat_word)

/-! ## The program -/

/-- The inner loop of `decode_rle`. -/
def readRun : (payload : List UInt8) → (run : UInt64) → (shift : Nat) →
    Option (UInt64 × List UInt8)
  | [], _, _ => none
  | byte :: rest, run, shift =>
    if 63 < shift then none
    else
      let run := run ||| ((byte &&& 0x7F).toUInt64 <<< shift.toUInt64)
      if byte &&& 0x80 = 0 then some (run, rest) else readRun rest run (shift + 7)

/-- It reads what `read_leb128` reads. -/
theorem readRun_eq {payload : List UInt8} {run : UInt64} {shift : Nat} (few : shift ≤ 63) :
    readRun payload run shift = readLeb128 payload run shift := by
  induction payload generalizing run shift with
  | nil => rfl
  | cons byte rest ih =>
    rw [readRun, readLeb128, if_neg few.not_gt]
    dsimp only
    split
    · rfl
    · split
      · next tenth =>
        cases rest with
        | nil => rfl
        | cons byte' rest' => rw [readRun, if_pos (by linarith)]
      · exact ih (by linarith)

/-- The outer loop. -/
def decodeRunsFrom (count : Nat) (payload : List UInt8) (current : UInt8) (pixels : List UInt8) :
    Option (List UInt8) :=
  if payload ≠ [] then
    match _read : readRun payload 0 0 with
    | none => none
    | some (run, rest) =>
      if count - pixels.length < run.toNat then none
      else decodeRunsFrom count rest (if current = 0 then 1 else 0)
        (pixels ++ List.replicate run.toNat current)
  else if pixels.length ≠ count then none
  else some pixels
termination_by payload.length
decreasing_by exact readLeb128_shorter ((readRun_eq (Nat.zero_le 63)).symm.trans _read)

def decodeRle (payload : List UInt8) (count : Nat) : Option (List UInt8) :=
  decodeRunsFrom count payload 0 []

/-! ## The language -/

/-- Complete numbers below 2^64 whose sum is the pixel count. -/
structure InLanguage (payload : List UInt8) (count : Nat) : Prop where
  complete : (leb128Numbers payload).2
  below : ∀ number ∈ (leb128Numbers payload).1, number.value < 2 ^ 64
  sum : ((leb128Numbers payload).1.map Leb128Number.value).sum = count

/-- Both decoders accept just the payloads of the language, with the same pixels, and no
sum of runs wraps. -/
structure OneLanguage (payload : List UInt8) (width height : Int32) : Prop where
  ends : ∀ message, decodeMaskRle payload width height ≠ thrown message
  mask_iff : (∃ mask, mask ≠ [] ∧ decodeMaskRle payload width height = returned mask) ↔
    InLanguage payload (pixelCount width height)
  pixels_iff : (decodeRle payload (pixelCount width height)).isSome ↔
    InLanguage payload (pixelCount width height)
  same : ∀ mask pixels, mask ≠ [] → decodeMaskRle payload width height = returned mask →
    decodeRle payload (pixelCount width height) = some pixels → mask = pixels

/-- No number of the language is padded past ten bytes, and where numbers of at most ten
bytes, as 64-bit words, sum up to the pixel count, no number of the payload is larger than
that and none but zeros follow. -/
structure PlainPayload (payload : List UInt8) (count : Nat) : Prop where
  short : InLanguage payload count → ∀ number ∈ (leb128Numbers payload).1, number.size ≤ 10
  after : ∀ later, afterCount count 0 (leb128Numbers payload).1 = some later →
    (leb128Numbers payload).2 ∧ (∀ number ∈ (leb128Numbers payload).1, number.value < 2 ^ 64) ∧
      ∀ number ∈ later, number.value = 0
  narrow : ¬ Wraps count 0 (leb128Numbers payload).1

section Decoder

variable {payload : List UInt8} {count : Nat} {current : UInt8} {pixels : List UInt8}

/-- What the validator does with a payload. -/
theorem decodeRunsFrom_eq (known : current = 0 ∨ current = 1) (inside : pixels.length ≤ count) :
    decodeRunsFrom count payload current pixels =
      if (leb128Numbers payload).2 ∧ (∀ number ∈ (leb128Numbers payload).1, number.size ≤ 10) ∧
          pixels.length + wordSum (leb128Numbers payload).1 = count then
        some (pixels ++ paint current (leb128Numbers payload).1)
      else none := by
  induction left : payload.length using Nat.strong_induction_on
    generalizing payload current pixels with
  | _ length ih =>
    rw [decodeRunsFrom]
    split
    · next filled =>
      have found := readLeb128_first payload
      rw [← readRun_eq (Nat.zero_le 63)] at found
      cases first : leb128First 0 0 payload with
      | none =>
        rw [first] at found
        rw [Lib.leb128Numbers_none first, decide_eq_false filled]
        split
        · rfl
        · next read => rw [found] at read; cases read
      | some numberAndRest =>
        obtain ⟨number, rest⟩ := numberAndRest
        rw [first] at found
        dsimp only at found
        rw [Lib.leb128Numbers_some first]
        rcases le_or_gt number.size 10 with short | long
        · rw [if_pos short] at found
          split
          · next read => rw [found] at read; cases read
          · next run later read =>
            rw [found] at read
            cases read
            have flipped : (if current = 0 then 1 else 0) = 1 - current ∧
                (1 - current = 0 ∨ 1 - current = 1) := by
              rcases known with rfl | rfl
              · exact ⟨rfl, .inr rfl⟩
              · exact ⟨rfl, .inl rfl⟩
            have shorter := (Lib.leb128First_some first).2.1
            rw [toNat_word, flipped.1]
            split
            · next past =>
              refine (if_neg ?_).symm
              rintro ⟨-, -, sum⟩
              rw [Vision.wordSum_cons, ← add_assoc] at sum
              have fits : pixels.length + word number ≤ count := sum ▸ Nat.le_add_right _ _
              exact (Nat.le_sub_of_add_le' fits).not_gt past
            · next fits =>
              have grown : (pixels ++ List.replicate (word number) current).length =
                  pixels.length + word number := by
                rw [List.length_append, List.length_replicate]
              have run := @ih rest.length (left ▸ shorter) rest (1 - current)
                (pixels ++ List.replicate (word number) current) flipped.2
                (grown.trans_le (Nat.add_le_of_le_sub' inside (not_lt.mp fits))) rfl
              rw [run, grown]
              simp only [List.forall_mem_cons, short, true_and, Vision.wordSum_cons, paint,
                add_assoc, List.append_assoc]
        · rw [if_neg long.not_ge] at found
          split
          · refine (if_neg ?_).symm
            rintro ⟨-, short, -⟩
            exact long.not_ge (short number List.mem_cons_self)
          · next read => rw [found] at read; cases read
    · next empty =>
      obtain rfl := not_not.mp empty
      have nothing : leb128Numbers [] = ([], true) := rfl
      rw [nothing, paint, List.append_nil]
      split
      · next other =>
        refine (if_neg ?_).symm
        exact fun all => other all.2.2
      · next full => exact (if_pos ⟨rfl, List.forall_mem_nil _, not_not.mp full⟩).symm

theorem decodeRle_eq (payload : List UInt8) (count : Nat) :
    decodeRle payload count =
      if (leb128Numbers payload).2 ∧ (∀ number ∈ (leb128Numbers payload).1, number.size ≤ 10) ∧
          wordSum (leb128Numbers payload).1 = count then
        some (paint 0 (leb128Numbers payload).1)
      else none := by
  have run := @decodeRunsFrom_eq payload count 0 [] (.inl rfl) (Nat.zero_le count)
  rw [decodeRle]
  simpa only [List.length_nil, zero_add, List.nil_append] using run

theorem decodeRle_isSome : (decodeRle payload count).isSome ↔
    (leb128Numbers payload).2 ∧ (∀ number ∈ (leb128Numbers payload).1, number.size ≤ 10) ∧
      wordSum (leb128Numbers payload).1 = count := by
  rw [decodeRle_eq]
  split
  · next all => exact iff_of_true rfl all
  · next other => exact iff_of_false nofun other

/-! ## One language -/

theorem wordSum_of_below {numbers : List Leb128Number}
    (below : ∀ number ∈ numbers, number.value < 2 ^ 64) :
    wordSum numbers = (numbers.map Leb128Number.value).sum := by
  have each : ∀ number ∈ numbers, word number = number.value := fun number mem =>
    Nat.mod_eq_of_lt (below number mem)
  rw [wordSum, List.map_congr_left each]

theorem zero_of_wordSum {numbers : List Leb128Number}
    (below : ∀ number ∈ numbers, number.value < 2 ^ 64) (zero : wordSum numbers = 0) :
    ∀ number ∈ numbers, number.value = 0 := by
  rw [wordSum_of_below below, List.sum_eq_zero_iff] at zero
  exact fun number mem => zero _ (List.mem_map_of_mem mem)

theorem wordSum_of_zero {numbers : List Leb128Number}
    (zero : ∀ number ∈ numbers, number.value = 0) : wordSum numbers = 0 := by
  rw [wordSum, List.sum_eq_zero_iff]
  intro words mem
  obtain ⟨number, isNumber, rfl⟩ := List.mem_map.mp mem
  rw [word, zero number isNumber, Nat.zero_mod]

/-- The validator's decoder alone. -/
theorem decodeRle_language_iff (payload : List UInt8) (count : Nat) :
    ((decodeRle payload count).isSome ↔ InLanguage payload count) ↔
      (InLanguage payload count → ∀ number ∈ (leb128Numbers payload).1, number.size ≤ 10) ∧
        ((leb128Numbers payload).2 → (∀ number ∈ (leb128Numbers payload).1, number.size ≤ 10) →
          wordSum (leb128Numbers payload).1 = count →
          ∀ number ∈ (leb128Numbers payload).1, number.value < 2 ^ 64) := by
  rw [decodeRle_isSome]
  constructor
  · intro same
    exact ⟨fun language => (same.mpr language).2.1, fun complete short sum =>
      (same.mp ⟨complete, short, sum⟩).below⟩
  · rintro ⟨padded, large⟩
    constructor
    · rintro ⟨complete, short, sum⟩
      have below := large complete short sum
      exact ⟨complete, below, wordSum_of_below below ▸ sum⟩
    · intro language
      exact ⟨language.complete, padded language,
        (wordSum_of_below language.below).trans language.sum⟩

section Raster

variable {width height : Int32}

/-- `decode_mask_rle` gives a mask when the numbers reach the pixel count. -/
theorem decodeMaskRle_accepts (wide : 0 < width.toInt) (high : 0 < height.toInt)
    (narrow : ¬ Wraps (pixelCount width height) 0 (leb128Numbers payload).1) :
    (∃ mask, mask ≠ [] ∧ decodeMaskRle payload width height = returned mask) ↔
      (afterCount (pixelCount width height) 0 (leb128Numbers payload).1).isSome := by
  have decoded := (Vision.decodeMaskRle_eq wide high payload).2 narrow
  rw [decoded]
  split
  · next reached =>
    refine iff_of_true ⟨_, ?_, rfl⟩ reached
    obtain ⟨later, split⟩ := Option.isSome_iff_exists.mp reached
    obtain ⟨first, numbers, -, sum⟩ := Vision.afterCount_split split
    rw [zero_add] at sum
    refine List.ne_nil_of_length_pos ?_
    rw [List.length_take, Vision.length_paint, numbers, Vision.wordSum_append, sum]
    exact lt_min (Vision.pixelCount_bounds wide high).1
      ((Vision.pixelCount_bounds wide high).1.trans_le (Nat.le_add_right _ _))
  · next stopped =>
    refine iff_of_false ?_ stopped
    rintro ⟨mask, some, returns⟩
    cases returns
    exact some rfl

theorem plain_of_oneLanguage (wide : 0 < width.toInt) (high : 0 < height.toInt)
    (one : OneLanguage payload width height) : PlainPayload payload (pixelCount width height) := by
  have narrow : ¬ Wraps (pixelCount width height) 0 (leb128Numbers payload).1 := fun wraps =>
    one.ends _ ((Vision.decodeMaskRle_eq wide high payload).1 wraps)
  refine ⟨fun language => (decodeRle_isSome.mp (one.pixels_iff.mpr language)).2.1,
    fun later reached => ?_, narrow⟩
  have accepted := (decodeMaskRle_accepts wide high narrow).mpr (reached ▸ rfl)
  have language := one.mask_iff.mp accepted
  obtain ⟨first, numbers, -, sum⟩ := Vision.afterCount_split reached
  have whole := (wordSum_of_below language.below).trans language.sum
  rw [numbers, Vision.wordSum_append] at whole
  refine ⟨language.complete, language.below, zero_of_wordSum (fun number mem => ?_) (by linarith)⟩
  exact language.below number (numbers ▸ List.mem_append_right first mem)

/-- The words of a plain payload that reach the pixel count are the whole payload. -/
theorem inLanguage_of_reached (plain : PlainPayload payload count) {later : List Leb128Number}
    (reached : afterCount count 0 (leb128Numbers payload).1 = some later) :
    InLanguage payload count := by
  obtain ⟨complete, below, zero⟩ := plain.after later reached
  obtain ⟨first, numbers, -, sum⟩ := Vision.afterCount_split reached
  refine ⟨complete, below, ?_⟩
  rw [← wordSum_of_below below, numbers, Vision.wordSum_append, wordSum_of_zero zero]
  linarith

theorem reached_of_words (short : ∀ number ∈ (leb128Numbers payload).1, number.size ≤ 10)
    (sum : wordSum (leb128Numbers payload).1 = count) :
    (afterCount count 0 (leb128Numbers payload).1).isSome := by
  have whole := Vision.afterCount_isSome [] short ((zero_add _).trans sum)
  rwa [List.append_nil] at whole

theorem oneLanguage_of_plain (wide : 0 < width.toInt) (high : 0 < height.toInt)
    (plain : PlainPayload payload (pixelCount width height)) :
    OneLanguage payload width height := by
  have decoded := (Vision.decodeMaskRle_eq wide high payload).2 plain.narrow
  have words : InLanguage payload (pixelCount width height) →
      wordSum (leb128Numbers payload).1 = pixelCount width height := fun language =>
    (wordSum_of_below language.below).trans language.sum
  refine ⟨fun message => ?_, ?_, ?_, fun mask pixels some returns accepts => ?_⟩
  · rw [decoded]
    split <;> exact nofun
  · rw [decodeMaskRle_accepts wide high plain.narrow]
    constructor
    · intro reached
      obtain ⟨later, reached⟩ := Option.isSome_iff_exists.mp reached
      exact inLanguage_of_reached plain reached
    · exact fun language => reached_of_words (plain.short language) (words language)
  · rw [decodeRle_isSome]
    constructor
    · rintro ⟨-, short, sum⟩
      obtain ⟨later, reached⟩ := Option.isSome_iff_exists.mp (reached_of_words short sum)
      exact inLanguage_of_reached plain reached
    · exact fun language => ⟨language.complete, plain.short language, words language⟩
  · have all := decodeRle_isSome.mp (Option.isSome_iff_exists.mpr ⟨_, accepts⟩)
    rw [decodeRle_eq, if_pos all] at accepts
    cases accepts
    rw [decoded, if_pos (reached_of_words all.2.1 all.2.2)] at returns
    cases returns
    exact List.take_of_length_le ((Vision.length_paint _ _).trans all.2.2).le

end Raster

end Decoder

/-! ## Round trips -/

/-- Both decoders give back what was encoded. -/
theorem mask_roundTrip {width height : Int32} {mask : List UInt8}
    (size : mask.length = width.toInt.toNat * height.toInt.toNat)
    (binary : ∀ pixel ∈ mask, pixel = 0 ∨ pixel = 1) :
    decodeMaskRle (encodeMaskRle mask width.toInt height.toInt) width height = returned mask ∧
      decodeRle (encodeMaskRle mask width.toInt height.toInt) mask.length = some mask := by
  rcases le_or_gt width.toInt 0 with narrow | wide
  · have empty : mask = [] := by
      rw [Int.toNat_of_nonpos narrow, zero_mul] at size
      exact List.length_eq_zero_iff.mp size
    rw [empty, encodeMaskRle, if_pos (.inl narrow), decodeMaskRle, if_pos (.inr (.inr rfl)),
      decodeRle_eq]
    exact ⟨rfl, rfl⟩
  · rcases le_or_gt height.toInt 0 with low | high
    · have empty : mask = [] := by
        rw [Int.toNat_of_nonpos low, mul_zero] at size
        exact List.length_eq_zero_iff.mp size
      rw [empty, encodeMaskRle, if_pos (.inr low), decodeMaskRle, if_pos (.inr (.inr rfl)),
        decodeRle_eq]
      exact ⟨rfl, rfl⟩
    · have count : mask.length = pixelCount width height := by
        rw [size, pixelCount, Int.toNat_mul wide.le high.le]
      have few := (Vision.pixelCount_bounds wide high).2
      have accepted : ¬ (width.toInt ≤ 0 ∨ height.toInt ≤ 0) :=
        not_or.mpr ⟨wide.not_ge, high.not_ge⟩
      have encoded : encodeMaskRle mask width.toInt height.toInt = Vision.maskRuns mask 0 0 := by
        rw [encodeMaskRle, if_neg accepted]
        exact congrArg (Vision.maskRuns · 0 0) (List.take_of_length_le count.le)
      obtain ⟨numbers, read, short, painted⟩ := Vision.maskRuns_numbers binary (.inl rfl)
        (by rw [zero_add, count]; exact few.trans (by norm_num))
      rw [List.replicate_zero, List.nil_append] at painted
      have sum : wordSum numbers = pixelCount width height := by
        rw [← Vision.length_paint 0, painted, count]
      have narrow : ¬ Wraps (pixelCount width height) 0 numbers :=
        Vision.not_wraps_of_le (few.trans (by norm_num)) ((zero_add _).trans sum).le
      have reached := Vision.afterCount_isSome [] short ((zero_add _).trans sum)
      rw [List.append_nil] at reached
      have decoded := (Vision.decodeMaskRle_eq wide high (Vision.maskRuns mask 0 0)).2
      rw [read] at decoded
      rw [encoded, decodeRle_eq, read, decoded narrow, if_pos reached, painted,
        if_pos ⟨rfl, short, sum.trans count.symm⟩, List.take_of_length_le count.le]
      exact ⟨rfl, rfl⟩

/-- The round trips, and when the two decoders read one language. -/
theorem mask_rle_one_language_iff (width height : Int32) (mask payload : List UInt8) (count : Nat) :
    (mask.length = width.toInt.toNat * height.toInt.toNat →
      (∀ pixel ∈ mask, pixel = 0 ∨ pixel = 1) →
      decodeMaskRle (encodeMaskRle mask width.toInt height.toInt) width height = returned mask ∧
        decodeRle (encodeMaskRle mask width.toInt height.toInt) mask.length = some mask) ∧
    (((decodeRle payload count).isSome ↔ InLanguage payload count) ↔
      (InLanguage payload count → ∀ number ∈ (leb128Numbers payload).1, number.size ≤ 10) ∧
        ((leb128Numbers payload).2 →
          (∀ number ∈ (leb128Numbers payload).1, number.size ≤ 10) →
          wordSum (leb128Numbers payload).1 = count →
          ∀ number ∈ (leb128Numbers payload).1, number.value < 2 ^ 64)) ∧
    (0 < width.toInt → 0 < height.toInt →
      (OneLanguage payload width height ↔ PlainPayload payload (pixelCount width height))) :=
  ⟨mask_roundTrip, decodeRle_language_iff payload count,
    fun wide high => ⟨plain_of_oneLanguage wide high, oneLanguage_of_plain wide high⟩⟩

/-- A mask of four pixels and its payload. -/
theorem mask_rle_one_language_sample :
    (decodeMaskRle (encodeMaskRle [1, 1, 0, 1] 2 2) 2 2 = returned [1, 1, 0, 1] ∧
      decodeRle (encodeMaskRle [1, 1, 0, 1] 2 2) 4 = some [1, 1, 0, 1]) ∧
    OneLanguage [0, 2, 1, 1] 2 2 := by
  have both := mask_rle_one_language_iff 2 2 [1, 1, 0, 1] [0, 2, 1, 1] 4
  refine ⟨both.1 (by decide) (by decide +kernel), (both.2.2 (by decide) (by decide)).mpr
      ⟨fun _ => by decide, fun later reached => ?_, by decide⟩⟩
  have none_ : afterCount (pixelCount 2 2) 0 (leb128Numbers [0, 2, 1, 1]).1 = some [] := by decide
  obtain rfl : [] = later := Option.some.inj (none_.symm.trans reached)
  exact ⟨by decide, by decide, nofun⟩

/-- A pixel and half a number: only one decoder accepts. Ten bytes whose last has a high
bit, and a pixel: both accept. A padded number: both refuse. A run of 2^64 - 1 after a
pixel: the vector overflows. -/
theorem mask_rle_two_languages :
    (decodeMaskRle [1, 255] 1 1 = returned [0] ∧ decodeRle [1, 255] 1 = none ∧
      ¬ InLanguage [1, 255] 1) ∧
    (decodeRle [128, 128, 128, 128, 128, 128, 128, 128, 128, 2, 1] 1 = some [1] ∧
      ¬ InLanguage [128, 128, 128, 128, 128, 128, 128, 128, 128, 2, 1] 1) ∧
    (decodeRle [129, 128, 128, 128, 128, 128, 128, 128, 128, 128, 0] 1 = none ∧
      InLanguage [129, 128, 128, 128, 128, 128, 128, 128, 128, 128, 0] 1) ∧
    decodeMaskRle [1, 255, 255, 255, 255, 255, 255, 255, 255, 255, 1] 2 1 =
      thrown "vector::_M_realloc_append" := by
  refine ⟨⟨?_, ?_, ?_⟩, ⟨?_, ?_⟩, ⟨?_, ?_⟩, ?_⟩
  · rw [(Vision.decodeMaskRle_eq (by decide) (by decide) [1, 255]).2 (by decide)]
    decide
  · rw [decodeRle_eq]
    decide
  · exact fun language => absurd language.complete (by decide)
  · rw [decodeRle_eq]
    decide
  · exact fun language => absurd language.below (by decide)
  · rw [decodeRle_eq]
    decide
  · exact ⟨by decide, by decide, by decide⟩
  · exact (Vision.decodeMaskRle_eq (by decide) (by decide) _).1 (by decide)

end Svp.Validation
