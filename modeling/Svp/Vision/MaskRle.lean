import Svp.Lib.Leb128
import Svp.Lib.Outcome
import Svp.Vision.EntityWindows

/-!
# Mask RLE

`decodeMaskRle` reads runs, background first, until it has all pixels. What it does with
a payload depends on the numbers the payload consists of: `decodeMaskRle_eq`.
-/

namespace Svp.Vision

open Lib (Outcome Leb128Number leb128First leb128Numbers)
open Lib.Outcome

/-! ## The program -/

/-- `read_leb128` from an offset on, and what it leaves. -/
def readLeb128 : (data : List UInt8) → (result : UInt64) → (shift : Nat) →
    Option (UInt64 × List UInt8)
  | [], _, _ => none
  | byte :: rest, result, shift =>
    let result := result ||| ((byte &&& 0x7F).toUInt64 <<< shift.toUInt64)
    if byte &&& 0x80 = 0 then some (result, rest)
    else if 64 ≤ shift + 7 then none
    else readLeb128 rest result (shift + 7)

theorem readLeb128_shorter {data rest : List UInt8} {result value : UInt64} {shift : Nat}
    (read : readLeb128 data result shift = some (value, rest)) : rest.length < data.length := by
  induction data generalizing result shift with
  | nil => cases read
  | cons byte later ih =>
    rw [readLeb128] at read
    split at read
    · cases read
      exact Nat.lt_succ_self _
    · split at read
      · cases read
      · exact (ih read).trans (Nat.lt_succ_self _)

/-- `std::vector<std::uint8_t>::max_size()`. -/
def maxPixels : Nat := 2 ^ 63 - 1

/-- The loop of `decode_mask_rle`. The empty vector is its error value; `push_back` throws
when the vector is full. -/
def decodeRuns (total : UInt64) (data : List UInt8) (decoded : UInt64) (currentVal : UInt8)
    (mask : List UInt8) : Outcome (List UInt8) :=
  if data ≠ [] ∧ decoded < total then
    match _read : readLeb128 data 0 0 with
    | none => returned []
    | some (run, rest) =>
      if total < decoded + run then returned []
      else if maxPixels < mask.length + run.toNat then thrown "vector::_M_realloc_append"
      else decodeRuns total rest (decoded + run) (1 - currentVal)
        (mask ++ List.replicate run.toNat currentVal)
  else if decoded ≠ total then returned []
  else returned mask
termination_by data.length
decreasing_by exact readLeb128_shorter _read

def decodeMaskRle (rleData : List UInt8) (width height : Int32) : Outcome (List UInt8) :=
  if width ≤ 0 ∨ height ≤ 0 ∨ rleData = [] then returned []
  else
    let total := (width.toInt * height.toInt).toNat.toUInt64
    decodeRuns total rleData 0 0 []

/-! ## Numbers of 64 bits -/

/-- What is left of a number in 64 bits. -/
def word (number : Leb128Number) : Nat := number.value % 2 ^ 64

theorem continues_iff (byte : UInt8) : byte &&& 0x80 = 0 ↔ byte < 128 := by
  have all : ∀ i : Fin 256, (UInt8.ofNat i &&& 0x80 = 0 ↔ UInt8.ofNat i < 128) := by decide +kernel
  have here := all ⟨byte.toNat, byte.toNat_lt⟩
  rwa [UInt8.ofNat_toNat] at here

/-- Seven bits more above those read. -/
theorem or_shift_toNat {result : UInt64} (byte : UInt8) {size value : Nat} (few : size ≤ 9)
    (read : result.toNat = value) (below : value < 128 ^ size) :
    (result ||| ((byte &&& 0x7F).toUInt64 <<< (7 * size).toUInt64)).toNat =
      (value + byte.toNat % 128 * 128 ^ size) % 2 ^ 64 := by
  have power : (128 : Nat) ^ size = 2 ^ (7 * size) := (pow_mul 2 7 size).symm
  have payload : (byte &&& 0x7F).toNat = byte.toNat % 128 := by
    rw [UInt8.toNat_and]
    exact Nat.and_two_pow_sub_one_eq_mod _ 7
  have shift : (7 * size).toUInt64.toNat % 64 = 7 * size := by
    rw [Nat.toUInt64, UInt64.toNat_ofNat']
    omega
  rw [power] at below ⊢
  have small : value < 2 ^ 64 :=
    below.trans_le (Nat.pow_le_pow_right two_pos (by linarith))
  have apart : value ||| byte.toNat % 128 * 2 ^ (7 * size) =
      value + byte.toNat % 128 * 2 ^ (7 * size) := by
    rw [Nat.or_comm, mul_comm, ← Nat.two_pow_add_eq_or_of_lt below, add_comm]
  rw [UInt64.toNat_or, UInt64.toNat_shiftLeft, shift, UInt8.toNat_toUInt64, payload, read,
    Nat.shiftLeft_eq, ← apart, Nat.or_mod_two_pow, Nat.mod_eq_of_lt small]

/-- A decoder takes a number of at most ten bytes, and 64 bits of it. -/
theorem readLeb128_eq {data : List UInt8} {result : UInt64} {size value : Nat} (few : size ≤ 9)
    (read : result.toNat = value) (below : value < 128 ^ size) :
    readLeb128 data result (7 * size) =
      match leb128First value size data with
      | none => none
      | some (number, rest) =>
        if number.size ≤ 10 then some ((word number).toUInt64, rest) else none := by
  induction data generalizing result size value with
  | nil => rfl
  | cons byte later ih =>
    have taken := or_shift_toNat byte few read below
    have next : value + byte.toNat % 128 * 128 ^ size < 128 ^ (size + 1) := by
      have seven : byte.toNat % 128 ≤ 127 := Nat.le_of_lt_succ (Nat.mod_lt _ (by norm_num))
      have product := Nat.mul_le_mul_right (128 ^ size) seven
      rw [pow_succ]
      linarith
    rw [readLeb128, leb128First]
    simp only [continues_iff]
    split
    · dsimp only
      rw [if_pos (Nat.succ_le_succ few), word, ← taken, Nat.toUInt64, UInt64.ofNat_toNat]
    · split
      · next tenth =>
        -- a tenth byte that is not the last one
        cases first : leb128First (value + byte.toNat % 128 * 128 ^ size) (size + 1) later with
        | none => rfl
        | some found =>
          have longer := (Lib.leb128First_some first).2.2
          exact (if_neg (by omega)).symm
      · next early =>
        have fewer : size + 1 ≤ 9 := by omega
        refine ih fewer (taken.trans (Nat.mod_eq_of_lt ?_)) next
        exact next.trans_le ((Nat.pow_le_pow_right (by norm_num) fewer).trans (by norm_num))

/-! ## Runs -/

/-- The pixels of runs of that many words. -/
def paint : UInt8 → List Leb128Number → List UInt8
  | _, [] => []
  | current, number :: rest => List.replicate (word number) current ++ paint (1 - current) rest

/-- What follows the numbers, of at most ten bytes each, that make up the pixel count. -/
def afterCount (total : Nat) : Nat → List Leb128Number → Option (List Leb128Number)
  | decoded, [] => if decoded = total then some [] else none
  | decoded, number :: rest =>
    if decoded = total then some (number :: rest)
    else if number.size ≤ 10 ∧ decoded + word number ≤ total then
      afterCount total (decoded + word number) rest
    else none

/-- Whether a run on the way to the pixel count takes the sum past 64 bits. -/
def Wraps (total : Nat) : Nat → List Leb128Number → Prop
  | _, [] => False
  | decoded, number :: rest =>
    decoded < total ∧ number.size ≤ 10 ∧
      (2 ^ 64 ≤ decoded + word number ∨
        decoded + word number ≤ total ∧ Wraps total (decoded + word number) rest)

instance : ∀ total decoded numbers, Decidable (Wraps total decoded numbers)
  | _, _, [] => .isFalse id
  | total, decoded, number :: rest =>
    have : Decidable (Wraps total (decoded + word number) rest) :=
      instDecidableWraps total (decoded + word number) rest
    inferInstanceAs (Decidable (_ ∧ _ ∧ (_ ∨ _ ∧ Wraps total (decoded + word number) rest)))

def wordSum (numbers : List Leb128Number) : Nat := (numbers.map word).sum

theorem not_wraps_self (total : Nat) (numbers : List Leb128Number) :
    ¬ Wraps total total numbers := by
  cases numbers with
  | nil => exact id
  | cons number rest => exact fun wraps => wraps.1.false

theorem afterCount_self (total : Nat) (numbers : List Leb128Number) :
    afterCount total total numbers = some numbers := by
  cases numbers with
  | nil => exact if_pos rfl
  | cons number rest => exact if_pos rfl

theorem length_paint (current : UInt8) (numbers : List Leb128Number) :
    (paint current numbers).length = wordSum numbers := by
  induction numbers generalizing current with
  | nil => rfl
  | cons number rest ih =>
    rw [paint, List.length_append, List.length_replicate, ih, wordSum, wordSum, List.map_cons,
      List.sum_cons]

section Decoder

variable {total decoded : UInt64} {data rest : List UInt8} {number : Leb128Number}
  {current : UInt8} {mask : List UInt8}

theorem readLeb128_first (data : List UInt8) :
    readLeb128 data 0 0 =
      match leb128First 0 0 data with
      | none => none
      | some (number, rest) =>
        if number.size ≤ 10 then some ((word number).toUInt64, rest) else none :=
  readLeb128_eq (Nat.zero_le 9) rfl Nat.one_pos

theorem toNat_word (number : Leb128Number) : (word number).toUInt64.toNat = word number := by
  rw [Nat.toUInt64, UInt64.toNat_ofNat', word, Nat.mod_mod]

theorem decodeRuns_reached : decodeRuns total data total current mask = returned mask := by
  rw [decodeRuns, if_neg fun more => (UInt64.lt_irrefl total) more.2, if_neg fun other => other rfl]

theorem decodeRuns_stopped (below : decoded < total) (stopped : readLeb128 data 0 0 = none) :
    decodeRuns total data decoded current mask = returned [] := by
  rw [decodeRuns]
  split
  · split
    · rfl
    · next read => rw [stopped] at read; cases read
  · rw [if_pos (UInt64.ne_of_lt below)]

theorem decodeRuns_number (below : decoded < total) (first : leb128First 0 0 data = some (number, rest))
    (short : number.size ≤ 10) :
    decodeRuns total data decoded current mask =
      if total < decoded + (word number).toUInt64 then returned []
      else if maxPixels < mask.length + word number then thrown "vector::_M_realloc_append"
      else decodeRuns total rest (decoded + (word number).toUInt64) (1 - current)
        (mask ++ List.replicate (word number) current) := by
  have found := readLeb128_first data
  rw [first] at found
  dsimp only at found
  rw [if_pos short] at found
  have filled : data ≠ [] := by
    rintro rfl
    cases first
  rw [decodeRuns, if_pos ⟨filled, below⟩]
  split
  · next read => rw [found] at read; cases read
  · next run later read =>
    rw [found] at read
    cases read
    rw [toNat_word]

/-- The bytes from an offset on, as `decode_mask_rle` reads them. -/
theorem decodeRuns_eq (few : total.toNat < 2 ^ 62) (size : mask.length = decoded.toNat)
    (inside : decoded.toNat ≤ total.toNat) :
    (Wraps total.toNat decoded.toNat (leb128Numbers data).1 →
      decodeRuns total data decoded current mask = thrown "vector::_M_realloc_append") ∧
    (¬ Wraps total.toNat decoded.toNat (leb128Numbers data).1 →
      decodeRuns total data decoded current mask =
        if (afterCount total.toNat decoded.toNat (leb128Numbers data).1).isSome then
          returned ((mask ++ paint current (leb128Numbers data).1).take total.toNat)
        else returned []) := by
  induction left : data.length using Nat.strong_induction_on
    generalizing data decoded current mask with
  | _ length ih =>
    rcases eq_or_lt_of_le inside with reached | below
    · obtain rfl := UInt64.toNat_inj.mp reached
      have all : (mask ++ paint current (leb128Numbers data).1).take decoded.toNat = mask := by
        rw [← size, List.take_left]
      rw [decodeRuns_reached, all, afterCount_self]
      exact ⟨fun wraps => absurd wraps (not_wraps_self _ _), fun _ => rfl⟩
    · have more := UInt64.lt_iff_toNat_lt.mpr below
      have found := readLeb128_first data
      cases first : leb128First 0 0 data with
      | none =>
        rw [first] at found
        rw [Lib.leb128Numbers_none first, decodeRuns_stopped more found, afterCount,
          if_neg below.ne]
        exact ⟨False.elim, fun _ => rfl⟩
      | some numberAndRest =>
        obtain ⟨number, rest⟩ := numberAndRest
        rw [Lib.leb128Numbers_some first]
        rcases le_or_gt number.size 10 with short | long
        · have shorter := (Lib.leb128First_some first).2.1
          have sum := UInt64.toNat_add decoded (word number).toUInt64
          rw [toNat_word] at sum
          rw [decodeRuns_number more first short, Wraps, afterCount, if_neg below.ne, size]
          simp only [UInt64.lt_iff_toNat_lt, sum, below, short, true_and]
          rcases le_or_gt (2 ^ 64) (decoded.toNat + word number) with wide | narrow
          · have wrapped : (decoded.toNat + word number) % 2 ^ 64 < total.toNat := by
              have run : word number < 2 ^ 64 := Nat.mod_lt _ (by norm_num)
              omega
            have large : maxPixels < decoded.toNat + word number :=
              lt_of_lt_of_le (by decide) wide
            rw [if_neg wrapped.not_gt, if_pos large]
            exact ⟨fun _ => rfl, fun exact_ => absurd (.inl wide) exact_⟩
          · rw [Nat.mod_eq_of_lt narrow]
            rcases le_or_gt (decoded.toNat + word number) total.toNat with fits | past
            · have small : ¬ maxPixels < decoded.toNat + word number := by
                rw [maxPixels, not_lt]
                omega
              have next : (decoded + (word number).toUInt64).toNat = decoded.toNat + word number :=
                sum.trans (Nat.mod_eq_of_lt narrow)
              have grown : (mask ++ List.replicate (word number) current).length =
                  (decoded + (word number).toUInt64).toNat := by
                rw [List.length_append, List.length_replicate, size, next]
              have run := @ih rest.length (left ▸ shorter) _ rest (1 - current) _ grown
                (next ▸ fits) rfl
              rw [next, List.append_assoc] at run
              rw [if_neg fits.not_gt, if_neg small, if_pos fits, paint]
              refine ⟨?_, fun exact_ => run.2 fun wraps => exact_ (.inr ⟨fits, wraps⟩)⟩
              rintro (wide | ⟨-, wraps⟩)
              · exact absurd wide narrow.not_ge
              · exact run.1 wraps
            · rw [if_pos past, if_neg past.not_ge]
              refine ⟨?_, fun _ => rfl⟩
              rintro (wide | ⟨fits, -⟩)
              · exact absurd wide narrow.not_ge
              · exact absurd fits past.not_ge
        · rw [first] at found
          dsimp only at found
          rw [if_neg long.not_ge] at found
          have stuck : ¬ (number.size ≤ 10 ∧ decoded.toNat + word number ≤ total.toNat) :=
            fun fits => long.not_ge fits.1
          rw [decodeRuns_stopped more found, Wraps, afterCount, if_neg below.ne, if_neg stuck]
          exact ⟨fun wraps => absurd wraps.2.1 long.not_ge, fun _ => rfl⟩

/-- The pixel count of a raster. -/
def pixelCount (width height : Int32) : Nat := (width.toInt * height.toInt).toNat

variable {width height : Int32}

theorem pixelCount_bounds (wide : 0 < width.toInt) (high : 0 < height.toInt) :
    0 < pixelCount width height ∧ pixelCount width height < 2 ^ 62 := by
  have large : width.toInt * height.toInt < 2 ^ 31 * 2 ^ 31 :=
    mul_lt_mul'' width.toInt_lt height.toInt_lt wide.le high.le
  have positive := mul_pos wide high
  rw [pixelCount]
  omega

/-- What `decode_mask_rle` does with a payload. -/
theorem decodeMaskRle_eq (wide : 0 < width.toInt) (high : 0 < height.toInt) (payload : List UInt8) :
    let total := pixelCount width height
    let numbers := (leb128Numbers payload).1
    (Wraps total 0 numbers →
      decodeMaskRle payload width height = thrown "vector::_M_realloc_append") ∧
    (¬ Wraps total 0 numbers →
      decodeMaskRle payload width height =
        if (afterCount total 0 numbers).isSome then returned ((paint 0 numbers).take total)
        else returned []) := by
  obtain ⟨positive, few⟩ := pixelCount_bounds wide high
  have same : (pixelCount width height).toUInt64.toNat = pixelCount width height := by
    rw [Nat.toUInt64, UInt64.toNat_ofNat', Nat.mod_eq_of_lt (few.trans (by norm_num))]
  rcases eq_or_ne payload [] with rfl | filled
  · refine ⟨False.elim, fun _ => ?_⟩
    rw [decodeMaskRle, if_pos (.inr (.inr rfl))]
    exact (if_neg (by
      rw [show (leb128Numbers []).1 = [] from rfl, afterCount, if_neg positive.ne]
      exact nofun)).symm
  · have accepted : ¬ (width ≤ 0 ∨ height ≤ 0 ∨ payload = []) := by
      rintro (narrow | low | empty)
      · exact wide.not_ge (Int32.le_iff_toInt_le.mp narrow)
      · exact high.not_ge (Int32.le_iff_toInt_le.mp low)
      · exact filled empty
    have run := @decodeRuns_eq (pixelCount width height).toUInt64 0 payload 0 []
      (same.trans_lt few) rfl (Nat.zero_le _)
    rw [same] at run
    rw [decodeMaskRle, if_neg accepted]
    exact run

/-! ## Splitting at the pixel count -/

theorem wordSum_append (first second : List Leb128Number) :
    wordSum (first ++ second) = wordSum first + wordSum second := by
  rw [wordSum, List.map_append, List.sum_append]
  rfl

theorem wordSum_cons (number : Leb128Number) (rest : List Leb128Number) :
    wordSum (number :: rest) = word number + wordSum rest := rfl

variable {count before_ : Nat} {numbers : List Leb128Number}

theorem afterCount_split {later : List Leb128Number}
    (reached : afterCount count before_ numbers = some later) :
    ∃ first, numbers = first ++ later ∧ (∀ number ∈ first, number.size ≤ 10) ∧
      before_ + wordSum first = count := by
  induction numbers generalizing before_ with
  | nil =>
    rw [afterCount] at reached
    split at reached
    · next here =>
      cases reached
      exact ⟨[], rfl, nofun, here⟩
    · cases reached
  | cons number rest ih =>
    rw [afterCount] at reached
    split at reached
    · next here =>
      cases reached
      exact ⟨[], rfl, nofun, here⟩
    · split at reached
      · next fits =>
        obtain ⟨first, rfl, short, sum⟩ := ih reached
        refine ⟨number :: first, rfl, List.forall_mem_cons.mpr ⟨fits.1, short⟩, ?_⟩
        rw [wordSum_cons, ← add_assoc, sum]
      · cases reached

/-- Numbers of at most ten bytes that make up the pixel count reach it. -/
theorem afterCount_isSome (later : List Leb128Number) {first : List Leb128Number}
    (short : ∀ number ∈ first, number.size ≤ 10)
    (sum : before_ + wordSum first = count) :
    (afterCount count before_ (first ++ later)).isSome := by
  induction first generalizing before_ with
  | nil =>
    obtain rfl : before_ = count := sum
    rw [afterCount_self]
    rfl
  | cons number rest ih =>
    rw [List.cons_append, afterCount]
    split
    · rfl
    · rw [wordSum_cons, ← add_assoc] at sum
      have fits : before_ + word number ≤ count := sum ▸ Nat.le_add_right _ _
      rw [if_pos ⟨short number List.mem_cons_self, fits⟩]
      exact ih (fun other mem => short other (List.mem_cons_of_mem number mem)) sum

/-- Runs within the pixel count do not wrap. -/
theorem not_wraps_of_le (few : count < 2 ^ 64) (sum : before_ + wordSum numbers ≤ count) :
    ¬ Wraps count before_ numbers := by
  induction numbers generalizing before_ with
  | nil => exact id
  | cons number rest ih =>
    rw [wordSum_cons, ← add_assoc] at sum
    rintro ⟨-, -, wide | ⟨-, wraps⟩⟩
    · exact (wide.trans (Nat.le_add_right _ _)).not_gt (sum.trans_lt few)
    · exact ih sum wraps

end Decoder

/-! ## The encoder -/

section Encoder

theorem leb128First_last {v value size : Nat} {rest : List UInt8} (small : v < 128) :
    leb128First value size (UInt8.ofNat v :: rest) = some (⟨value + v * 128 ^ size, size + 1⟩, rest) := by
  have byte : (UInt8.ofNat v).toNat = v := by
    rw [UInt8.toNat_ofNat', Nat.mod_eq_of_lt (small.trans (by norm_num))]
  have last : UInt8.ofNat v < 128 := by
    rw [UInt8.lt_iff_toNat_lt, byte]
    exact small
  rw [leb128First, byte, Nat.mod_eq_of_lt small]
  exact if_pos last

theorem leb128First_more {v value size : Nat} {rest : List UInt8} :
    leb128First value size (UInt8.ofNat (v % 128 + 128) :: rest) =
      leb128First (value + v % 128 * 128 ^ size) (size + 1) rest := by
  have seven : v % 128 < 128 := Nat.mod_lt _ (by norm_num)
  have byte : (UInt8.ofNat (v % 128 + 128)).toNat = v % 128 + 128 := by
    rw [UInt8.toNat_ofNat', Nat.mod_eq_of_lt (by omega)]
  have more : ¬ UInt8.ofNat (v % 128 + 128) < 128 := by
    rw [UInt8.lt_iff_toNat_lt, byte]
    exact (Nat.le_add_left _ _).not_gt
  rw [leb128First, byte, Nat.add_mod_right, Nat.mod_mod]
  exact if_neg more

/-- A number that was written is read back. -/
theorem leb128First_write {rounds k v value size : Nat} {rest : List UInt8} (enough : k ≤ rounds)
    (small : v < 128 ^ (k + 1)) :
    ∃ n ≤ k + 1, leb128First value size (writeLeb128 rounds v ++ rest) =
      some (⟨value + v * 128 ^ size, size + n⟩, rest) := by
  induction rounds generalizing k v value size with
  | zero =>
    obtain rfl := Nat.le_zero.mp enough
    exact ⟨1, le_rfl, leb128First_last (by simpa using small)⟩
  | succ rounds ih =>
    rw [writeLeb128]
    split
    · next low =>
      have one : v < 128 := (Nat.div_eq_zero_iff_lt (by norm_num)).mp low
      exact ⟨1, Nat.le_add_left 1 k, leb128First_last one⟩
    · next high =>
      cases k with
      | zero => exact absurd (Nat.div_eq_of_lt (by simpa using small)) high
      | succ k =>
        have less : v / 128 < 128 ^ (k + 1) := Nat.div_lt_of_lt_mul (by rwa [← pow_succ'])
        obtain ⟨n, few, read⟩ := @ih k (v / 128) (value + v % 128 * 128 ^ size) (size + 1)
          (Nat.le_of_succ_le_succ enough) less
        refine ⟨n + 1, Nat.succ_le_succ few, ?_⟩
        have sum : value + v % 128 * 128 ^ size + v / 128 * 128 ^ (size + 1) =
            value + v * 128 ^ size := by
          conv_rhs => rw [← Nat.mod_add_div v 128]
          rw [pow_succ]
          ring
        rw [List.cons_append, leb128First_more, read, sum, add_assoc, add_comm 1 n]

/-- A run takes at most ten bytes. -/
theorem leb128First_run {run : Nat} (small : run < 2 ^ 64) (rest : List UInt8) :
    ∃ n ≤ 10, leb128First 0 0 (writeLeb128 64 run ++ rest) = some (⟨run, n⟩, rest) := by
  have below : run < 128 ^ (9 + 1) := small.trans (by norm_num)
  obtain ⟨n, few, read⟩ := @leb128First_write 64 9 run 0 0 rest (by norm_num) below
  rw [zero_add, zero_add, pow_zero, mul_one] at read
  exact ⟨n, few, read⟩

/-- The runs of a mask paint it. -/
theorem maskRuns_numbers {mask : List UInt8} {current : UInt8} {run : Nat}
    (binary : ∀ pixel ∈ mask, pixel = 0 ∨ pixel = 1) (known : current = 0 ∨ current = 1)
    (small : run + mask.length < 2 ^ 64) :
    ∃ numbers, leb128Numbers (maskRuns mask current run) = (numbers, true) ∧
      (∀ number ∈ numbers, number.size ≤ 10) ∧
      paint current numbers = List.replicate run current ++ mask := by
  induction mask generalizing current run with
  | nil =>
    rw [List.length_nil, add_zero] at small
    obtain ⟨n, few, read⟩ := leb128First_run small []
    rw [List.append_nil] at read
    refine ⟨[⟨run, n⟩], ?_, List.forall_mem_singleton.mpr few, ?_⟩
    · rw [maskRuns, Lib.leb128Numbers_some read]
      rfl
    · rw [paint, paint, word, Nat.mod_eq_of_lt small]
  | cons pixel rest ih =>
    have others : ∀ pixel ∈ rest, pixel = 0 ∨ pixel = 1 := fun other mem =>
      binary other (List.mem_cons_of_mem pixel mem)
    rw [List.length_cons] at small
    rw [maskRuns]
    split
    · next same =>
      obtain ⟨numbers, read, short, painted⟩ := @ih current (run + 1) others known
        (by linarith)
      refine ⟨numbers, read, short, painted.trans ?_⟩
      rw [List.replicate_succ', List.append_assoc, List.singleton_append, same]
    · next other =>
      have flipped : 1 - current = pixel ∧ (1 - current = 0 ∨ 1 - current = 1) := by
        rcases known with rfl | rfl
        · exact ⟨((binary pixel List.mem_cons_self).resolve_left other).symm, .inr rfl⟩
        · exact ⟨((binary pixel List.mem_cons_self).resolve_right other).symm, .inl rfl⟩
      obtain ⟨n, few, read⟩ := leb128First_run (by linarith : run < 2 ^ 64)
        (maskRuns rest (1 - current) 1)
      obtain ⟨numbers, later, short, painted⟩ := @ih (1 - current) 1 others flipped.2
        (by linarith)
      refine ⟨⟨run, n⟩ :: numbers, ?_, List.forall_mem_cons.mpr ⟨few, short⟩, ?_⟩
      · rw [Lib.leb128Numbers_some read, later]
      · rw [paint, painted, word, Nat.mod_eq_of_lt (by linarith : run < 2 ^ 64), flipped.1]
        rfl

end Encoder

end Svp.Vision
