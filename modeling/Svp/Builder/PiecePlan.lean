import Svp.Exec.Error
import Svp.Lib.CutPoints

/-!
# Pieces of a split resize

A split resize cuts the source's video at clean keyframes about `kPieceSeconds` apart.
Presentation times are 64-bit and their differences are taken in 64 bits too; the products
are formed in 128. `planPieces` fails where one of these overflows. Its plan is right exactly
where no difference of two times overflows, and the last packet is no cut at the largest time
(`planPieces_correct_iff`).
-/

namespace Svp.Builder

open Exec (bind_eq_ok)
open Lib (spans Tiles tiles_spans)

structure SourcePacket where
  pts : Option Int64
  keyframe : Bool
  hidden : Bool
deriving DecidableEq

structure PacketTable where
  numerator : Int64
  denominator : Int64
  packets : List SourcePacket

def kPieceSeconds : Int := 30

def kInt64Max : Int := 2 ^ 63 - 1

structure PiecePlanResult where
  plan : Option (List Nat) := none
  whyNot : String := ""
deriving DecidableEq

/-- An operation whose result does not fit. -/
inductive Overflow
  | int64
  | int128
deriving DecidableEq

def int64 (value : Int) : Except Overflow Int :=
  if -2 ^ 63 ≤ value ∧ value < 2 ^ 63 then .ok value else .error .int64

def int128 (value : Int) : Except Overflow Int :=
  if -2 ^ 127 ≤ value ∧ value < 2 ^ 127 then .ok value else .error .int128

/-! ## The plan -/

def SourcePacket.time (packet : SourcePacket) : Int := packet.pts.elim 0 Int64.toInt

def timeAt (packets : List SourcePacket) (i : Nat) : Int := packets[i]?.elim 0 SourcePacket.time

def keyframeAt (packets : List SourcePacket) (i : Nat) : Bool := packets[i]?.any SourcePacket.keyframe

/-- The earliest presentation time of the packets from `i` on. -/
def laterMin (packets : List SourcePacket) (i : Nat) : Int :=
  (packets.drop i).foldr (fun packet later => min later packet.time) kInt64Max

def cleanCut (packets : List SourcePacket) (i : Nat) (earlierMax : Int) (anyEarlier : Bool) : Bool :=
  keyframeAt packets i && (!anyEarlier || decide (earlierMax < timeAt packets i)) &&
    decide (timeAt packets i < laterMin packets (i + 1))

/-- The first packet that keeps the source from being split. -/
def packetFault : List SourcePacket → Option String
  | [] => none
  | packet :: rest =>
    if packet.pts = none then some "the video's packets have no presentation times"
    else if packet.hidden then some "the video has packets that are never shown or are corrupt"
    else packetFault rest

/-- Where the `next`-th cut is due. -/
def dueTime (den next : Int) : Except Overflow Int := do
  let seconds ← int128 (next * kPieceSeconds)
  int128 (seconds * den)

theorem int64_eq_ok {value result : Int} :
    int64 value = .ok result ↔ (-2 ^ 63 ≤ value ∧ value < 2 ^ 63) ∧ value = result := by
  rw [int64]
  split
  · next fits => rw [Except.ok.injEq, and_iff_right fits]
  · next large => exact iff_of_false (fun ok => nomatch ok) fun both => large both.1

theorem int128_eq_ok {value result : Int} :
    int128 value = .ok result ↔ (-2 ^ 127 ≤ value ∧ value < 2 ^ 127) ∧ value = result := by
  rw [int128]
  split
  · next fits => rw [Except.ok.injEq, and_iff_right fits]
  · next large => exact iff_of_false (fun ok => nomatch ok) fun both => large both.1

theorem dueTime_eq_of_ok {den next due : Int} (ok : dueTime den next = .ok due) :
    due = next * kPieceSeconds * den := by
  obtain ⟨seconds, first, second⟩ := bind_eq_ok.mp ok
  rw [← (int128_eq_ok.mp second).2, ← (int128_eq_ok.mp first).2]

/-- The loop past the cuts that are due. -/
def nextCutAfter {den : Int} (positive : 0 < den) (elapsed next : Int) : Except Overflow Int :=
  match _found : dueTime den next with
  | .error overflow => .error overflow
  | .ok due =>
    if elapsed < due then .ok next
    else match int128 (next + 1) with
      | .error overflow => .error overflow
      | .ok _ => nextCutAfter positive elapsed (next + 1)
termination_by (elapsed + 1 - next * kPieceSeconds * den).toNat
decreasing_by
  have due_eq := dueTime_eq_of_ok _found
  have more : (next + 1) * kPieceSeconds * den = next * kPieceSeconds * den + 30 * den := by
    rw [kPieceSeconds]
    ring
  omega

structure CutState where
  firstPackets : List Nat
  nextCut : Int
  earlierMax : Int

/-- One round of the loop over the packets after the first. -/
def cutStep (packets : List SourcePacket) (num : Int) {den : Int} (positive : 0 < den) (i : Nat)
    (s : CutState) : Except Overflow CutState := do
  let pts := timeAt packets i
  let difference ← int64 (pts - timeAt packets 0)
  let elapsed ← int128 (difference * num)
  let due ← dueTime den s.nextCut
  if due ≤ elapsed ∧ cleanCut packets i s.earlierMax true = true then do
    let nextCut ← nextCutAfter positive elapsed s.nextCut
    return { firstPackets := s.firstPackets ++ [i], nextCut, earlierMax := max s.earlierMax pts }
  else return { s with earlierMax := max s.earlierMax pts }

def cutLoop (packets : List SourcePacket) (num : Int) {den : Int} (positive : 0 < den) :
    Nat → Nat → CutState → Except Overflow CutState
  | 0, _, s => .ok s
  | rounds + 1, i, s => do
    let s' ← cutStep packets num positive i s
    cutLoop packets num positive rounds (i + 1) s'

def planPieces (table : PacketTable) : Except Overflow PiecePlanResult :=
  let packets := table.packets
  if packets = [] then .ok { whyNot := "the video has no packets" }
  else if positive : 0 < table.numerator.toInt ∧ 0 < table.denominator.toInt then
    match packetFault packets with
    | some whyNot => .ok { whyNot }
    | none =>
      if cleanCut packets 0 0 false = true ∧ laterMin packets 0 = timeAt packets 0 then do
        let first := timeAt packets 0
        let s ← cutLoop packets table.numerator.toInt positive.2 (packets.length - 1) 1
          ⟨[0], 1, first⟩
        if s.firstPackets.length < 2 then
          return { whyNot := "the video has no keyframe to cut at 30 s or more after its start" }
        else return { plan := some s.firstPackets }
      else .ok { whyNot := "the video does not start on a keyframe that decodes on its own" }
  else .ok { whyNot := "the video has no time base" }

/-! ## What a plan should be -/

/-- A keyframe with all packets before shown before, and all packets after shown after. -/
def Clean (packets : List SourcePacket) (i : Nat) : Prop :=
  i < packets.length ∧ keyframeAt packets i = true ∧
    (∀ j < i, timeAt packets j < timeAt packets i) ∧
    ∀ j, i < j → j < packets.length → timeAt packets i < timeAt packets j

/-- The time since the first packet, times the denominator of the time base. -/
def elapsedAt (packets : List SourcePacket) (num : Int) (i : Nat) : Int :=
  (timeAt packets i - timeAt packets 0) * num

/-- The first clean packet at or after a multiple of `kPieceSeconds`. -/
def IsCut (packets : List SourcePacket) (num den : Int) (i : Nat) : Prop :=
  Clean packets i ∧ ∃ k : Int, k * kPieceSeconds * den ≤ elapsedAt packets num i ∧
    ∀ j < i, Clean packets j → elapsedAt packets num j < k * kPieceSeconds * den

/-- The packets of each piece, and that of the pieces after. -/
structure IsPiecePlan (packets : List SourcePacket) (num den : Int) (plan : List Nat) : Prop where
  /-- The pieces are laid end to end over the file. -/
  tiles : Tiles Prod.fst Prod.snd 0 (spans (plan ++ [packets.length])) packets.length
  nonempty : ∀ piece ∈ spans (plan ++ [packets.length]), piece.1 < piece.2
  starts : ∀ piece ∈ spans (plan ++ [packets.length]), keyframeAt packets piece.1 = true ∧
    ∀ i, piece.1 ≤ i → i < piece.2 → timeAt packets piece.1 ≤ timeAt packets i
  apart : ∀ piece ∈ spans (plan ++ [packets.length]), ∀ i < piece.2, ∀ j, piece.2 ≤ j →
    j < packets.length → timeAt packets i < timeAt packets j
  cuts : ∀ i, i ∈ plan ↔ IsCut packets num den i

/-! ## Clean packets -/

variable {packets : List SourcePacket} {num den : Int}

theorem lt_foldr_min_iff {x : Int} {later : List SourcePacket} :
    x < later.foldr (fun packet later => min later packet.time) kInt64Max ↔
      x < kInt64Max ∧ ∀ packet ∈ later, x < packet.time := by
  induction later with
  | nil => simp
  | cons packet later ih =>
    rw [List.foldr_cons, lt_min_iff, ih, List.forall_mem_cons, and_assoc, and_comm (b := x < packet.time)]

theorem timeAt_of {i : Nat} {packet : SourcePacket} (at_ : packets[i]? = some packet) :
    timeAt packets i = packet.time := by
  rw [timeAt, at_, Option.elim_some]

theorem timeAt_le (packets : List SourcePacket) (i : Nat) : timeAt packets i ≤ kInt64Max := by
  have time_le : ∀ packet : SourcePacket, packet.time ≤ kInt64Max := by
    intro packet
    rw [SourcePacket.time]
    cases packet.pts with
    | none => decide
    | some pts => exact Int.le_sub_one_of_lt pts.toInt_lt
  rw [timeAt]
  cases packets[i]? with
  | none => exact (by decide : (0 : Int) ≤ kInt64Max)
  | some packet => exact time_le packet

theorem lt_laterMin_iff {x : Int} {i : Nat} : x < laterMin packets i ↔
    x < kInt64Max ∧ ∀ j, i ≤ j → j < packets.length → x < timeAt packets j := by
  rw [laterMin, lt_foldr_min_iff]
  refine and_congr_right fun _ => ⟨fun all j from_ inside => ?_, fun all packet mem => ?_⟩
  · have at_ : packets[j]? = some packets[j] := List.getElem?_eq_getElem inside
    rw [timeAt_of at_]
    refine all _ (List.mem_of_getElem? (i := j - i) ?_)
    rw [List.getElem?_drop, Nat.add_sub_cancel' from_, at_]
  · obtain ⟨k, at_⟩ := List.mem_iff_getElem?.mp mem
    rw [List.getElem?_drop] at at_
    rw [← timeAt_of at_]
    exact all (i + k) (Nat.le_add_right i k) (List.getElem?_eq_some_iff.mp at_).1

/-- The code's test of a packet is right but for the largest time. -/
theorem cleanCut_iff {i : Nat} {earlierMax : Int} (inside : i < packets.length)
    (bounds : ∀ x, earlierMax < x ↔ ∀ j < i, timeAt packets j < x) :
    cleanCut packets i earlierMax true = true ↔ Clean packets i ∧ timeAt packets i < kInt64Max := by
  rw [cleanCut, Bool.and_eq_true, Bool.and_eq_true, Bool.not_true, Bool.false_or, decide_eq_true_eq,
    decide_eq_true_eq, lt_laterMin_iff, bounds, Clean]
  constructor
  · rintro ⟨⟨key, before⟩, small, after⟩
    exact ⟨⟨inside, key, before, after⟩, small⟩
  · rintro ⟨⟨_, key, before, after⟩, small⟩
    exact ⟨⟨key, before⟩, small, after⟩

theorem cleanCut_zero_iff (some_ : packets ≠ []) :
    (cleanCut packets 0 0 false = true ∧ laterMin packets 0 = timeAt packets 0) ↔
      Clean packets 0 ∧ timeAt packets 0 < kInt64Max := by
  have inside : 0 < packets.length := List.length_pos_of_ne_nil some_
  have least : timeAt packets 0 < laterMin packets 1 → laterMin packets 0 = timeAt packets 0 := by
    cases packets with
    | nil => exact absurd rfl some_
    | cons packet rest => exact fun later => min_eq_right later.le
  rw [cleanCut, Bool.and_eq_true, Bool.and_eq_true, Bool.not_false, Bool.true_or, decide_eq_true_eq,
    lt_laterMin_iff, Clean]
  constructor
  · rintro ⟨⟨⟨key, _⟩, small, after⟩, _⟩
    exact ⟨⟨inside, key, fun j before => absurd before (Nat.not_lt_zero j), after⟩, small⟩
  · rintro ⟨⟨_, key, _, after⟩, small⟩
    exact ⟨⟨⟨key, rfl⟩, small, after⟩, least (lt_laterMin_iff.mpr ⟨small, after⟩)⟩

/-! ## The arithmetic -/

theorem dueTime_eq_ok {next : Int} (positive : 0 < den) (nonneg : 0 ≤ next)
    (fits : next * kPieceSeconds * den < 2 ^ 127) :
    dueTime den next = .ok (next * kPieceSeconds * den) := by
  have seconds : 0 ≤ next * kPieceSeconds := mul_nonneg nonneg (by decide)
  have less : next * kPieceSeconds ≤ next * kPieceSeconds * den :=
    le_mul_of_one_le_right seconds positive
  refine bind_eq_ok.mpr ⟨next * kPieceSeconds, ?_, ?_⟩
  · exact int128_eq_ok.mpr ⟨⟨by linarith, by linarith⟩, rfl⟩
  · exact int128_eq_ok.mpr ⟨⟨by linarith, fits⟩, rfl⟩

/-- A cut that was due fits, and so does the next one. -/
theorem dueTime_next_eq_ok {elapsed next : Int} (positive : 0 < den) (small : den < 2 ^ 63)
    (bounded : elapsed < 2 ^ 126) (nonneg : 1 ≤ next)
    (before : (next - 1) * kPieceSeconds * den ≤ elapsed) :
    dueTime den next = .ok (next * kPieceSeconds * den) := by
  have step : next * kPieceSeconds * den = (next - 1) * kPieceSeconds * den + 30 * den := by
    rw [kPieceSeconds]
    ring
  exact dueTime_eq_ok positive (zero_le_one.trans nonneg) (by linarith)

/-- The number of a cut that is due fits. -/
theorem next_le_of_due {elapsed next : Int} (positive : 0 < den) (nonneg : 1 ≤ next)
    (isDue : next * kPieceSeconds * den ≤ elapsed) : next ≤ elapsed := by
  have seconds : next ≤ next * kPieceSeconds :=
    le_mul_of_one_le_right (zero_le_one.trans nonneg) (by decide)
  have less : next * kPieceSeconds ≤ next * kPieceSeconds * den :=
    le_mul_of_one_le_right (by linarith) positive
  linarith

/-- The loop stops at the first cut that is not due. -/
theorem nextCutAfter_eq_ok {elapsed next : Int} (positive : 0 < den) (small : den < 2 ^ 63)
    (bounded : elapsed < 2 ^ 126) (nonneg : 1 ≤ next)
    (before : (next - 1) * kPieceSeconds * den ≤ elapsed) : ∃ n,
      nextCutAfter positive elapsed next = .ok n ∧ 1 ≤ n ∧
        (n - 1) * kPieceSeconds * den ≤ elapsed ∧ elapsed < n * kPieceSeconds * den := by
  fun_induction nextCutAfter positive elapsed next with
  | case1 next overflow found =>
    exact nomatch found.symm.trans (dueTime_next_eq_ok positive small bounded nonneg before)
  | case2 next due found notDue =>
    obtain rfl := Except.ok.inj
      (found.symm.trans (dueTime_next_eq_ok positive small bounded nonneg before))
    exact ⟨next, rfl, nonneg, before, notDue⟩
  | case3 next due found isDue overflow large =>
    obtain rfl := Except.ok.inj
      (found.symm.trans (dueTime_next_eq_ok positive small bounded nonneg before))
    have most := next_le_of_due positive nonneg (not_lt.mp isDue)
    have fits : int128 (next + 1) = .ok (next + 1) :=
      int128_eq_ok.mpr ⟨⟨by linarith, by linarith⟩, rfl⟩
    exact nomatch large.symm.trans fits
  | case4 next due found isDue _ _ ih =>
    obtain rfl := Except.ok.inj
      (found.symm.trans (dueTime_next_eq_ok positive small bounded nonneg before))
    refine ih (by linarith) ?_
    rw [add_sub_cancel_right]
    exact not_lt.mp isDue

/-! ## One round -/

/-- The table's numbers are 64-bit, and the packets start on a clean cut. -/
structure Bounded (packets : List SourcePacket) (num den : Int) : Prop where
  num_pos : 0 < num
  num_lt : num < 2 ^ 63
  den_pos : 0 < den
  den_lt : den < 2 ^ 63
  clean : Clean packets 0

/-- The differences of the times fit. -/
def DifferencesFit (packets : List SourcePacket) : Prop :=
  ∀ i < packets.length, timeAt packets i - timeAt packets 0 < 2 ^ 63

/-- After the packets before `i`. -/
structure CutState.Follows (packets : List SourcePacket) (num den : Int) (i : Nat) (s : CutState) :
    Prop where
  sorted : s.firstPackets.Pairwise (· < ·)
  starts : s.firstPackets.head? = some 0
  cuts : ∀ j, j ∈ s.firstPackets ↔ j < i ∧ IsCut packets num den j ∧ timeAt packets j < kInt64Max
  nonneg : 1 ≤ s.nextCut
  reached : ∃ j < i, Clean packets j ∧
    (s.nextCut - 1) * kPieceSeconds * den ≤ elapsedAt packets num j
  notDue : ∀ j < i, Clean packets j → timeAt packets j < kInt64Max →
    elapsedAt packets num j < s.nextCut * kPieceSeconds * den
  latest : ∀ x, s.earlierMax < x ↔ ∀ j < i, timeAt packets j < x

theorem Bounded.elapsed_mono (bounded : Bounded packets num den) {i j : Nat}
    (less : timeAt packets i < timeAt packets j) :
    elapsedAt packets num i < elapsedAt packets num j :=
  mul_lt_mul_of_pos_right (sub_lt_sub_right less _) bounded.num_pos

theorem Bounded.first_le (bounded : Bounded packets num den) {i : Nat} (inside : i < packets.length) :
    timeAt packets 0 ≤ timeAt packets i := by
  rcases Nat.eq_zero_or_pos i with rfl | later
  · exact le_rfl
  · exact (bounded.clean.2.2.2 i later inside).le

theorem Bounded.elapsed_lt (bounded : Bounded packets num den) {i : Nat}
    (inside : i < packets.length) (fits : timeAt packets i - timeAt packets 0 < 2 ^ 63) :
    0 ≤ elapsedAt packets num i ∧ elapsedAt packets num i < 2 ^ 126 := by
  have nonneg : 0 ≤ timeAt packets i - timeAt packets 0 := sub_nonneg.mpr (bounded.first_le inside)
  refine ⟨mul_nonneg nonneg bounded.num_pos.le, ?_⟩
  calc (timeAt packets i - timeAt packets 0) * num
      < 2 ^ 63 * 2 ^ 63 := mul_lt_mul'' fits bounded.num_lt nonneg bounded.num_pos.le
    _ = 2 ^ 126 := by norm_num

/-- A clean packet that is not the largest time is a cut if it is due. -/
theorem CutState.Follows.isCut_iff {s : CutState} {i : Nat} (follows : s.Follows packets num den i)
    (den_pos : 0 < den) (clean : Clean packets i) : IsCut packets num den i ↔
      s.nextCut * kPieceSeconds * den ≤ elapsedAt packets num i := by
  constructor
  · rintro ⟨_, k, due, first⟩
    obtain ⟨j, before, cleanJ, reached⟩ := follows.reached
    have less : (s.nextCut - 1) * kPieceSeconds * den < k * kPieceSeconds * den :=
      reached.trans_lt (first j before cleanJ)
    have positive : 0 < kPieceSeconds * den := mul_pos (by decide) den_pos
    rw [mul_assoc, mul_assoc] at less
    have next : s.nextCut ≤ k := by
      have := lt_of_mul_lt_mul_right less positive.le
      linarith
    refine le_trans ?_ due
    rw [mul_assoc, mul_assoc]
    exact mul_le_mul_of_nonneg_right next positive.le
  · refine fun due => ⟨clean, s.nextCut, due, fun j before cleanJ => ?_⟩
    exact follows.notDue j before cleanJ ((clean.2.2.1 j before).trans_le (timeAt_le packets i))

theorem CutState.Follows.latest_succ {s : CutState} {i : Nat}
    (follows : s.Follows packets num den i) (x : Int) :
    max s.earlierMax (timeAt packets i) < x ↔ ∀ j < i + 1, timeAt packets j < x := by
  rw [max_lt_iff, follows.latest, Nat.forall_lt_succ_right]

/-- The state after a packet that is not cut at. -/
theorem CutState.Follows.skip {s : CutState} {i : Nat} (follows : s.Follows packets num den i)
    (notCut : ¬ (IsCut packets num den i ∧ timeAt packets i < kInt64Max))
    (notDue : Clean packets i → timeAt packets i < kInt64Max →
      elapsedAt packets num i < s.nextCut * kPieceSeconds * den) :
    CutState.Follows packets num den (i + 1)
      { s with earlierMax := max s.earlierMax (timeAt packets i) } where
  sorted := follows.sorted
  starts := follows.starts
  cuts j := by
    rw [follows.cuts j, Nat.lt_succ_iff_lt_or_eq]
    constructor
    · rintro ⟨before, cut⟩
      exact ⟨.inl before, cut⟩
    · rintro ⟨before | rfl, cut⟩
      · exact ⟨before, cut⟩
      · exact absurd cut notCut
  nonneg := follows.nonneg
  reached := by
    obtain ⟨j, before, reached⟩ := follows.reached
    exact ⟨j, before.trans (Nat.lt_succ_self i), reached⟩
  notDue j before clean small := by
    rcases Nat.lt_succ_iff_lt_or_eq.mp before with before | rfl
    · exact follows.notDue j before clean small
    · exact notDue clean small
  latest := follows.latest_succ

/-- The state after a cut. -/
theorem CutState.Follows.cut {s : CutState} {i : Nat} {n : Int}
    (follows : s.Follows packets num den i) (bounded : Bounded packets num den)
    (isCut : IsCut packets num den i) (small : timeAt packets i < kInt64Max) (nonneg : 1 ≤ n)
    (reached : (n - 1) * kPieceSeconds * den ≤ elapsedAt packets num i)
    (next : elapsedAt packets num i < n * kPieceSeconds * den) :
    CutState.Follows packets num den (i + 1)
      ⟨s.firstPackets ++ [i], n, max s.earlierMax (timeAt packets i)⟩ where
  sorted := by
    refine List.pairwise_append.mpr ⟨follows.sorted, List.pairwise_singleton _ _, fun a mem b last => ?_⟩
    rw [List.mem_singleton.mp last]
    exact ((follows.cuts a).mp mem).1
  starts := by
    rw [List.head?_append, follows.starts]
    rfl
  cuts j := by
    rw [List.mem_append, List.mem_singleton, follows.cuts j, Nat.lt_succ_iff_lt_or_eq]
    constructor
    · rintro (⟨before, cut⟩ | rfl)
      · exact ⟨.inl before, cut⟩
      · exact ⟨.inr rfl, isCut, small⟩
    · rintro ⟨before | rfl, cut⟩
      · exact .inl ⟨before, cut⟩
      · exact .inr rfl
  nonneg := nonneg
  reached := ⟨i, Nat.lt_succ_self i, isCut.1, reached⟩
  notDue j before _ _ := by
    rcases Nat.lt_succ_iff_lt_or_eq.mp before with before | rfl
    · exact (bounded.elapsed_mono (isCut.1.2.2.1 j before)).trans next
    · exact next
  latest := follows.latest_succ

/-- One round, its times computed. -/
theorem cutStep_eq {s : CutState} {i : Nat} {difference elapsed due : Int} {positive : 0 < den}
    (differenceOk : int64 (timeAt packets i - timeAt packets 0) = .ok difference)
    (elapsedOk : int128 (difference * num) = .ok elapsed) (dueOk : dueTime den s.nextCut = .ok due) :
    cutStep packets num positive i s =
      if due ≤ elapsed ∧ cleanCut packets i s.earlierMax true = true then
        (nextCutAfter positive elapsed s.nextCut).map fun nextCut =>
          ⟨s.firstPackets ++ [i], nextCut, max s.earlierMax (timeAt packets i)⟩
      else .ok { s with earlierMax := max s.earlierMax (timeAt packets i) } := by
  rw [cutStep, differenceOk]
  show (int128 (difference * num) >>= _) = _
  rw [elapsedOk]
  show (dueTime den s.nextCut >>= _) = _
  rw [dueOk]
  rfl

theorem cutStep_follows {s : CutState} {i : Nat} (bounded : Bounded packets num den)
    (fit : DifferencesFit packets) (inside : i < packets.length)
    (follows : s.Follows packets num den i) : ∃ s',
      cutStep packets num bounded.den_pos i s = .ok s' ∧ s'.Follows packets num den (i + 1) := by
  obtain ⟨atLeast, atMost⟩ := bounded.elapsed_lt inside (fit i inside)
  have difference : int64 (timeAt packets i - timeAt packets 0) =
      .ok (timeAt packets i - timeAt packets 0) := by
    have nonneg := sub_nonneg.mpr (bounded.first_le inside)
    exact int64_eq_ok.mpr ⟨⟨by linarith, fit i inside⟩, rfl⟩
  have elapsed : int128 ((timeAt packets i - timeAt packets 0) * num) =
      .ok (elapsedAt packets num i) :=
    int128_eq_ok.mpr ⟨⟨(by decide : (-2 ^ 127 : Int) ≤ 0).trans atLeast,
      atMost.trans (by decide)⟩, rfl⟩
  have due : dueTime den s.nextCut = .ok (s.nextCut * kPieceSeconds * den) := by
    obtain ⟨j, before, _, reached⟩ := follows.reached
    have insideJ := before.trans inside
    exact dueTime_next_eq_ok bounded.den_pos bounded.den_lt
      (bounded.elapsed_lt insideJ (fit j insideJ)).2 follows.nonneg reached
  have clean := cleanCut_iff inside follows.latest
  rw [cutStep_eq difference elapsed due]
  by_cases cutHere : s.nextCut * kPieceSeconds * den ≤ elapsedAt packets num i ∧
      cleanCut packets i s.earlierMax true = true
  · obtain ⟨isClean, small⟩ := clean.mp cutHere.2
    have isCut := (follows.isCut_iff bounded.den_pos isClean).mpr cutHere.1
    have before : (s.nextCut - 1) * kPieceSeconds * den ≤ elapsedAt packets num i := by
      refine le_trans ?_ cutHere.1
      rw [mul_assoc, mul_assoc]
      exact mul_le_mul_of_nonneg_right (sub_le_self _ zero_le_one)
        (mul_nonneg (by decide) bounded.den_pos.le)
    obtain ⟨n, next, nonneg, reached, notDue⟩ := nextCutAfter_eq_ok bounded.den_pos bounded.den_lt
      atMost follows.nonneg before
    refine ⟨_, ?_, follows.cut bounded isCut small nonneg reached notDue⟩
    rw [if_pos cutHere, next]
    rfl
  · refine ⟨_, ?_, follows.skip (fun cut => cutHere ⟨?_, clean.mpr ⟨cut.1.1, cut.2⟩⟩) fun isClean small =>
      not_le.mp fun isDue => cutHere ⟨isDue, clean.mpr ⟨isClean, small⟩⟩⟩
    · exact if_neg cutHere
    · exact (follows.isCut_iff bounded.den_pos cut.1.1).mp cut.1

theorem cutLoop_follows {s : CutState} {rounds i : Nat} (bounded : Bounded packets num den)
    (fit : DifferencesFit packets) (inside : i + rounds = packets.length)
    (follows : s.Follows packets num den i) : ∃ s',
      cutLoop packets num bounded.den_pos rounds i s = .ok s' ∧
        s'.Follows packets num den packets.length := by
  induction rounds generalizing i s with
  | zero =>
    rw [← inside]
    exact ⟨s, rfl, follows⟩
  | succ rounds ih =>
    have before : i < packets.length := by
      rw [← inside]
      exact Nat.lt_add_of_pos_right (Nat.succ_pos rounds)
    obtain ⟨s', step, follows'⟩ := cutStep_follows bounded fit before follows
    obtain ⟨s'', loop, follows''⟩ := ih (by rw [← inside, Nat.add_assoc, Nat.add_comm 1]) follows'
    exact ⟨s'', bind_eq_ok.mpr ⟨s', step, loop⟩, follows''⟩

/-- A loop that ends has formed every difference. -/
theorem differences_of_cutLoop {s s' : CutState} {rounds i : Nat} {positive : 0 < den}
    (loop : cutLoop packets num positive rounds i s = .ok s') :
    ∀ j, i ≤ j → j < i + rounds → timeAt packets j - timeAt packets 0 < 2 ^ 63 := by
  induction rounds generalizing i s with
  | zero => exact fun j from_ before => absurd before (Nat.not_lt.mpr from_)
  | succ rounds ih =>
    obtain ⟨next, step, loop⟩ := bind_eq_ok.mp loop
    intro j from_ before
    rcases Nat.eq_or_lt_of_le from_ with rfl | later
    · obtain ⟨difference, ok, _⟩ := bind_eq_ok.mp step
      exact (int64_eq_ok.mp ok).1.2
    · exact ih loop j later (by omega)

/-! ## The plan -/

/-- The state before the loop. -/
theorem follows_start (bounded : Bounded packets num den) (small : timeAt packets 0 < kInt64Max) :
    CutState.Follows packets num den 1 ⟨[0], 1, timeAt packets 0⟩ where
  sorted := List.pairwise_singleton _ _
  starts := rfl
  cuts j := by
    have here : elapsedAt packets num 0 = 0 := by rw [elapsedAt, sub_self, zero_mul]
    have isCut : IsCut packets num den 0 :=
      ⟨bounded.clean, 0, by rw [here, zero_mul, zero_mul], fun k before => absurd before (Nat.not_lt_zero k)⟩
    rw [List.mem_singleton, Nat.lt_one_iff]
    exact ⟨fun eq => ⟨eq, eq ▸ ⟨isCut, small⟩⟩, And.left⟩
  nonneg := le_rfl
  reached := ⟨0, Nat.one_pos, bounded.clean, by
    rw [sub_self, zero_mul, zero_mul, elapsedAt, sub_self, zero_mul]⟩
  notDue j before _ _ := by
    rw [Nat.lt_one_iff.mp before, elapsedAt, sub_self, zero_mul, one_mul]
    exact mul_pos (by decide) bounded.den_pos
  latest x := by
    rw [Nat.forall_lt_succ_right]
    exact ⟨fun first => ⟨fun j before => absurd before (Nat.not_lt_zero j), first⟩, And.right⟩

theorem mem_spans_points {points : List Nat} {piece : Nat × Nat} (mem : piece ∈ spans points) :
    piece.1 ∈ points ∧ piece.2 ∈ points := by
  obtain ⟨first, second⟩ := List.of_mem_zip mem
  exact ⟨first, List.mem_of_mem_tail second⟩

/-- Cuts in order make up a plan. -/
theorem isPiecePlan_of_cuts {plan : List Nat} (sorted : plan.Pairwise (· < ·))
    (starts : plan.head? = some 0) (cuts : ∀ i, i ∈ plan ↔ IsCut packets num den i) :
    IsPiecePlan packets num den plan := by
  have points : (plan ++ [packets.length]).Pairwise (· < ·) := by
    refine List.pairwise_append.mpr ⟨sorted, List.pairwise_singleton _ _, fun a mem b last => ?_⟩
    rw [List.mem_singleton.mp last]
    exact ((cuts a).mp mem).1.1
  have tiles : Tiles Prod.fst Prod.snd 0 (spans (plan ++ [packets.length])) packets.length :=
    tiles_spans (points.imp Nat.le_of_lt).isChain (by rw [List.head?_append, starts]; rfl)
      (by rw [List.getLast?_append, List.getLast?_singleton]; rfl)
  have spaced : Lib.Spaced 1 (plan ++ [packets.length]) := (points.imp Nat.succ_le_of_lt).isChain
  have nonempty : ∀ piece ∈ spans (plan ++ [packets.length]), piece.1 < piece.2 := fun piece mem =>
    spaced.mem_spans mem
  refine ⟨tiles, nonempty, fun piece mem => ?_, fun piece mem i before j from_ inside => ?_, cuts⟩
  · obtain ⟨first, _⟩ := mem_spans_points mem
    have stop := (tiles.mem mem).2
    have clean : Clean packets piece.1 := by
      rcases List.mem_append.mp first with inPlan | last
      · exact ((cuts _).mp inPlan).1
      · exact absurd (List.mem_singleton.mp last) ((nonempty piece mem).trans_le stop).ne
    refine ⟨clean.2.1, fun i from_ before => ?_⟩
    rcases Nat.eq_or_lt_of_le from_ with rfl | later
    · exact le_rfl
    · exact (clean.2.2.2 i later (before.trans_le stop)).le
  · obtain ⟨_, second⟩ := mem_spans_points mem
    rcases List.mem_append.mp second with inPlan | last
    · have clean := ((cuts _).mp inPlan).1
      have left := clean.2.2.1 i before
      rcases Nat.eq_or_lt_of_le from_ with eq | later
      · rwa [← eq]
      · exact left.trans (clean.2.2.2 j later inside)
    · exact absurd inside (Nat.not_lt.mpr (List.mem_singleton.mp last ▸ from_))

/-- A table that has all it takes to be split, but for a cut. -/
structure Splittable (table : PacketTable) : Prop where
  num_pos : 0 < table.numerator.toInt
  den_pos : 0 < table.denominator.toInt
  noFault : packetFault table.packets = none
  clean : Clean table.packets 0

theorem Splittable.bounded {table : PacketTable} (splittable : Splittable table) :
    Bounded table.packets table.numerator.toInt table.denominator.toInt :=
  ⟨splittable.num_pos, table.numerator.toInt_lt, splittable.den_pos, table.denominator.toInt_lt,
    splittable.clean⟩

/-- What becomes of the cuts. -/
def planResult (s : CutState) : PiecePlanResult :=
  if s.firstPackets.length < 2 then
    { whyNot := "the video has no keyframe to cut at 30 s or more after its start" }
  else { plan := some s.firstPackets }

theorem planPieces_of_splittable {table : PacketTable} (splittable : Splittable table)
    (small : timeAt table.packets 0 < kInt64Max) : planPieces table =
      (cutLoop table.packets table.numerator.toInt splittable.den_pos (table.packets.length - 1) 1
        ⟨[0], 1, timeAt table.packets 0⟩ >>= fun s => .ok (planResult s)) := by
  have some_ : table.packets ≠ [] := List.ne_nil_of_length_pos splittable.clean.1
  rw [planPieces]
  simp only [if_neg some_, dif_pos (And.intro splittable.num_pos splittable.den_pos),
    splittable.noFault, if_pos ((cleanCut_zero_iff some_).mpr ⟨splittable.clean, small⟩)]
  cases cutLoop table.packets table.numerator.toInt splittable.den_pos (table.packets.length - 1) 1
    ⟨[0], 1, timeAt table.packets 0⟩ with
  | error overflow => rfl
  | ok s =>
    show (if s.firstPackets.length < 2 then _ else _) = Except.ok (planResult s)
    rw [planResult]
    split <;> rfl

theorem packetFault_ne_empty {packets : List SourcePacket} {why : String}
    (fault : packetFault packets = some why) : why ≠ "" := by
  induction packets with
  | nil => exact nomatch fault
  | cons packet rest ih =>
    rw [packetFault] at fault
    split at fault
    · rw [← Option.some_injective _ fault]
      decide
    · split at fault
      · rw [← Option.some_injective _ fault]
        decide
      · exact ih fault

theorem planPieces_of_not {table : PacketTable}
    (unfit : ¬ (Splittable table ∧ timeAt table.packets 0 < kInt64Max)) :
    ∃ why, why ≠ "" ∧ planPieces table = .ok { whyNot := why } := by
  rw [planPieces]
  by_cases none_ : table.packets = []
  · exact ⟨_, by decide, if_pos none_⟩
  · by_cases positive : 0 < table.numerator.toInt ∧ 0 < table.denominator.toInt
    · simp only [if_neg none_, dif_pos positive]
      cases fault : packetFault table.packets with
      | some why => exact ⟨why, packetFault_ne_empty fault, rfl⟩
      | none =>
        refine ⟨_, by decide, if_neg fun starts => unfit ?_⟩
        obtain ⟨clean, small⟩ := (cleanCut_zero_iff none_).mp starts
        exact ⟨⟨positive.1, positive.2, fault, clean⟩, small⟩
    · simp only [if_neg none_, dif_neg positive]
      exact ⟨_, by decide, rfl⟩

/-! ## When the plan is right -/

/-- The call does not overflow, and gives a plan or a reason; a plan is right. -/
def PlansWell (table : PacketTable) : Prop :=
  ∃ result, planPieces table = .ok result ∧ (result.plan = none ↔ result.whyNot ≠ "") ∧
    ∀ plan, result.plan = some plan →
      IsPiecePlan table.packets table.numerator.toInt table.denominator.toInt plan

/-- A video that is split has a cut at its last packet, which is shown at the largest time. -/
def CutAtLargest (packets : List SourcePacket) (num den : Int) : Prop :=
  timeAt packets (packets.length - 1) = kInt64Max ∧ IsCut packets num den (packets.length - 1) ∧
    ∃ i, 0 < i ∧ i < packets.length - 1 ∧ IsCut packets num den i

/-- Only the last packet can be clean at the largest time. -/
theorem Clean.time_lt {i : Nat} (clean : Clean packets i) (notLast : i ≠ packets.length - 1) :
    timeAt packets i < kInt64Max := by
  have later : i < packets.length - 1 := lt_of_le_of_ne (Nat.le_sub_one_of_lt clean.1) notLast
  have inside : packets.length - 1 < packets.length := Nat.sub_one_lt_of_lt clean.1
  exact (clean.2.2.2 _ later inside).trans_le (timeAt_le packets _)

theorem CutState.Follows.two_le_iff {s : CutState} {i : Nat} (follows : s.Follows packets num den i) :
    2 ≤ s.firstPackets.length ↔ ∃ j ∈ s.firstPackets, 0 < j := by
  have sorted := follows.sorted
  have starts := follows.starts
  match s.firstPackets, starts, sorted with
  | [_], rfl, _ =>
    refine iff_of_false (by decide) ?_
    rintro ⟨j, mem, positive⟩
    exact positive.ne' (List.mem_singleton.mp mem)
  | _ :: next :: rest, rfl, sorted =>
    refine iff_of_true (Nat.le_add_left 2 _) ⟨next, List.mem_cons_of_mem _ List.mem_cons_self, ?_⟩
    exact List.rel_of_pairwise_cons sorted List.mem_cons_self

/-- The cuts the loop ends with make up a plan, unless it misses the last packet. -/
theorem CutState.Follows.isPiecePlan_iff {s : CutState}
    (follows : s.Follows packets num den packets.length) (two : 2 ≤ s.firstPackets.length) :
    IsPiecePlan packets num den s.firstPackets ↔ ¬ CutAtLargest packets num den := by
  constructor
  · rintro plan ⟨largest, isCut, _⟩
    exact (((follows.cuts _).mp ((plan.cuts _).mpr isCut)).2.2).ne largest
  · intro seen
    refine isPiecePlan_of_cuts follows.sorted follows.starts fun i => ?_
    rw [follows.cuts i]
    refine ⟨fun cut => cut.2.1, fun isCut => ⟨isCut.1.1, isCut, ?_⟩⟩
    by_contra large
    have last : i = packets.length - 1 := by_contra fun notLast => large (isCut.1.time_lt notLast)
    obtain ⟨k, mem, positive⟩ := follows.two_le_iff.mp two
    obtain ⟨inside, isCutK, small⟩ := (follows.cuts k).mp mem
    have ne : k ≠ packets.length - 1 := fun eq => large (last ▸ eq ▸ small)
    refine seen ⟨?_, last ▸ isCut, k, positive, lt_of_le_of_ne (Nat.le_sub_one_of_lt inside) ne, isCutK⟩
    exact last ▸ le_antisymm (timeAt_le packets i) (not_lt.mp large)

/-- The plan is right exactly where the differences fit and no cut is missed. -/
theorem planPieces_correct_iff (table : PacketTable) : PlansWell table ↔
    (Splittable table → DifferencesFit table.packets ∧
      ¬ CutAtLargest table.packets table.numerator.toInt table.denominator.toInt) := by
  by_cases fits : Splittable table ∧ timeAt table.packets 0 < kInt64Max
  · obtain ⟨splittable, small⟩ := fits
    have bounded := splittable.bounded
    have start := follows_start bounded small
    have rounds : 1 + (table.packets.length - 1) = table.packets.length :=
      Nat.add_sub_cancel' bounded.clean.1
    rw [forall_prop_of_true splittable, PlansWell, planPieces_of_splittable splittable small]
    constructor
    · rintro ⟨result, ran, _, plans⟩
      obtain ⟨s, loop, same⟩ := bind_eq_ok.mp ran
      obtain rfl := Except.ok.inj same
      have fit : DifferencesFit table.packets := by
        intro i inside
        rcases Nat.eq_zero_or_pos i with rfl | later
        · rw [sub_self]
          decide
        · exact differences_of_cutLoop loop i later (rounds.symm ▸ inside)
      obtain ⟨s', loop', follows⟩ := cutLoop_follows bounded fit rounds start
      obtain rfl := Except.ok.inj (loop'.symm.trans loop)
      refine ⟨fit, fun missed => ?_⟩
      obtain ⟨largest, isCut, i, positive, before, isCutI⟩ := id missed
      have among := (follows.cuts i).mpr ⟨isCutI.1.1, isCutI, isCutI.1.time_lt before.ne⟩
      have two := follows.two_le_iff.mpr ⟨i, among, positive⟩
      have plan := plans s'.firstPackets (by rw [planResult, if_neg (Nat.not_lt.mpr two)])
      exact (follows.isPiecePlan_iff two).mp plan missed
    · rintro ⟨fit, seen⟩
      obtain ⟨s, loop, follows⟩ := cutLoop_follows bounded fit rounds start
      refine ⟨planResult s, bind_eq_ok.mpr ⟨s, loop, rfl⟩, ?_⟩
      rw [planResult]
      split
      · exact ⟨iff_of_true rfl (by decide), fun plan eq => nomatch eq⟩
      · next two =>
        refine ⟨iff_of_false (fun eq => nomatch eq) fun ne => ne rfl, fun plan eq => ?_⟩
        rw [← Option.some_injective _ eq]
        exact (follows.isPiecePlan_iff (Nat.not_lt.mp two)).mpr seen
  · obtain ⟨why, reason, whole⟩ := planPieces_of_not fits
    refine iff_of_true ⟨_, whole, iff_of_true rfl reason, fun plan eq => nomatch eq⟩ ?_
    intro splittable
    have alone : ∀ i < table.packets.length, i = 0 := by
      intro i inside
      by_contra later
      have less := splittable.clean.2.2.2 i (Nat.pos_of_ne_zero later) inside
      exact fits ⟨splittable, less.trans_le (timeAt_le _ i)⟩
    refine ⟨fun i inside => ?_, ?_⟩
    · rw [alone i inside, sub_self]
      decide
    · rintro ⟨_, isCut, i, positive, before, _⟩
      exact absurd (alone i (before.trans isCut.1.1)) positive.ne'

/-- Two keyframes, the first at the least time, the second at zero. -/
def farApart : PacketTable :=
  ⟨1, 1, [⟨some Int64.minValue, true, false⟩, ⟨some 0, true, false⟩]⟩

theorem farApart_overflows : planPieces farApart = .error .int64 ∧ ¬ PlansWell farApart := by
  have overflows : planPieces farApart = .error .int64 := by rfl
  refine ⟨overflows, ?_⟩
  rintro ⟨result, ran, _⟩
  exact nomatch overflows.symm.trans ran

end Svp.Builder
