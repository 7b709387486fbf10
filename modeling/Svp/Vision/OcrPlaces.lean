import Svp.Lib.OrderedMap
import Svp.Vision.OcrReadings

/-!
# Places of OCR detections

`reconcileDetections` groups the detections of all frames into observations. The
detections of one text key go to places, each to the first place with a member its
box overlaps; then near-identical readings that overlap within a few seconds are
joined. A group becomes an observation named by the text read most often.

The program is here, with its first pass: a detection hangs below its `founder`, the
one that founded the earliest place of its text it touches when it comes
(`placedParents_eq`).
-/

namespace Svp.Vision

open Exec (Bytes)
open scoped Lib.ByteStrings
open Lib (OrderedMap round64)

/-! ## The program -/

structure FrameDetection where
  frameId : String
  timestampUs : Int := 0
  frameIndex : Nat := 0
  frameWidth : Int := 0
  frameHeight : Int := 0
  rawText : Bytes
  confidence : ℚ := 0
  bboxLeft : Int := 0
  bboxTop : Int := 0
  bboxRight : Int := 0
  bboxBottom : Int := 0
  reused : Bool := false
deriving Inhabited

structure ReconciledObservation where
  rawText : Bytes
  normalizedText : Bytes
  confidence : ℚ
  startUs : Int
  endUs : Int
  frameStart : Nat
  frameEnd : Nat
  sourceFrameIds : List String
  bboxLeft : Int
  bboxTop : Int
  bboxRight : Int
  bboxBottom : Int
  frameWidth : Int
  frameHeight : Int
  detectionCount : Nat

/-- The overlap of two boxes as the exact ratio of their areas. -/
def bboxIou (a b : FrameDetection) : ℚ :=
  let interLeft := max a.bboxLeft b.bboxLeft
  let interTop := max a.bboxTop b.bboxTop
  let interRight := min a.bboxRight b.bboxRight
  let interBottom := min a.bboxBottom b.bboxBottom
  if interRight ≤ interLeft ∨ interBottom ≤ interTop then 0
  else
    let interArea : ℚ := (interRight - interLeft : Int) * (interBottom - interTop : Int)
    let aArea : ℚ := (a.bboxRight - a.bboxLeft : Int) * (a.bboxBottom - a.bboxTop : Int)
    let bArea : ℚ := (b.bboxRight - b.bboxLeft : Int) * (b.bboxBottom - b.bboxTop : Int)
    let unionArea := aArea + bArea - interArea
    if 0 < unionArea then interArea / unionArea else 0

def kSamePlaceIou : ℚ := 3 / 10

def kNearIdenticalWithinUs : Int := 5000000

section Reconciliation

variable (detections : List FrameDetection)

/-- `detections[i]`. -/
def detection (i : Nat) : FrameDetection := detections.getD i default

def textKey (i : Nat) : Bytes := alphanumericKey (normalizeText (detection detections i).rawText)

def comparedKey (i : Nat) : Bytes :=
  alphanumericKey (normalizeText (readDigitLookalikes (detection detections i).rawText))

def samePlace (i j : Nat) : Bool :=
  decide (kSamePlaceIou < bboxIou (detection detections i) (detection detections j))

/-- `find_root`, with a bound on its rounds. -/
def findRootLoop : Nat → (Nat → Nat) → Nat → Nat × (Nat → Nat)
  | 0, parent, i => (i, parent)
  | rounds + 1, parent, i =>
    if parent i = i then (i, parent)
    else
      let parent := Function.update parent i (parent (parent i))
      findRootLoop rounds parent (parent i)

/-- The loop only goes down. -/
def findRoot (parent : Nat → Nat) (i : Nat) : Nat × (Nat → Nat) := findRootLoop i parent i

/-- The detections with long enough keys, by key. -/
def byTextKey (minTextChars : Nat) : OrderedMap Bytes (List Nat) :=
  (List.range detections.length).foldl
    (fun byKey i =>
      if (textKey detections i).length < minTextChars then byKey
      else byKey.push (textKey detections i) i)
    .empty

/-- Adds the detection to the first place with a member it overlaps, and returns
the founder of the place. -/
def joinPlace (idx : Nat) : List (List Nat) → Option (Nat × List (List Nat))
  | [] => none
  | place :: places =>
    if place.any (samePlace detections idx) then some (place.headD idx, (place ++ [idx]) :: places)
    else
      match joinPlace idx places with
      | none => none
      | some (front, places) => some (front, place :: places)

/-- One turn of the loop over the detections of a key. -/
def placeDetection (s : (Nat → Nat) × List (List Nat)) (idx : Nat) : (Nat → Nat) × List (List Nat) :=
  match joinPlace detections idx s.2 with
  | some (front, places) => (Function.update s.1 idx front, places)
  | none => (s.1, s.2 ++ [[idx]])

/-- The parents when every key's detections have their places. -/
def placedParents (byKey : OrderedMap Bytes (List Nat)) : Nat → Nat :=
  byKey.values.foldl (fun parent indices => (indices.foldl (placeDetection detections) (parent, [])).1) id

/-- By time, then by index. -/
def timeOrder : Nat → Nat → Prop :=
  Order.Preimage (fun i => toLex ((detection detections i).timestampUs, i)) (· ≤ ·)

instance : DecidableRel (timeOrder detections) := fun _ _ =>
  inferInstanceAs (Decidable (toLex _ ≤ toLex _))

/-- Joins the two readings if they overlap and are near-identical. -/
def joinPair (parent : Nat → Nat) (first later : Nat) : Nat → Nat :=
  let (a, parent) := findRoot parent first
  let (b, parent) := findRoot parent later
  if a = b ∨ samePlace detections first later = false then parent
  else if nearIdentical (comparedKey detections first) (comparedKey detections later) then
    Function.update parent (max a b) (min a b)
  else parent

/-- The inner loop: the readings after the first, until one is too late. -/
def joinLater (first : Nat) : List Nat → (Nat → Nat) → Nat → Nat
  | [], parent => parent
  | later :: rest, parent =>
    if kNearIdenticalWithinUs <
        (detection detections later).timestampUs - (detection detections first).timestampUs then
      parent
    else joinLater first rest (joinPair detections parent first later)

def joinNearIdentical : List Nat → (Nat → Nat) → Nat → Nat
  | [], parent => parent
  | first :: rest, parent => joinNearIdentical rest (joinLater detections first rest parent)

/-- The parents after both passes. -/
def joinedParents (minTextChars : Nat) : Nat → Nat :=
  let byKey := byTextKey detections minTextChars
  joinNearIdentical detections (byKey.values.flatten.insertionSort (timeOrder detections))
    (placedParents detections byKey)

/-- One turn of the loop that collects the groups. -/
def groupDetection (s : (Nat → Nat) × OrderedMap Nat (List Nat)) (idx : Nat) :
    (Nat → Nat) × OrderedMap Nat (List Nat) :=
  let (root, parent) := findRoot s.1 idx
  (parent, s.2.push root idx)

/-- The groups by root, each in the order of the detections. -/
def groups (minTextChars : Nat) : OrderedMap Nat (List Nat) :=
  let kept := (byTextKey detections minTextChars).values.flatten
  ((kept.insertionSort (· ≤ ·)).foldl groupDetection (joinedParents detections minTextChars, .empty)).2

/-- The key read most often, then the longest; the first such key. -/
def namedKey (cluster : List Nat) : Bytes :=
  let reads := cluster.foldl
    (fun reads idx => reads.insert (textKey detections idx)
      ((reads.find? (textKey detections idx)).getD 0 + 1))
    (OrderedMap.empty : OrderedMap Bytes Nat)
  match reads.entries with
  | [] => []
  | first :: rest =>
    (rest.foldl
      (fun largest entry =>
        if toLex (largest.2, largest.1.length) < toLex (entry.2, entry.1.length) then entry
        else largest)
      first).1

/-- The first of the longest readings with that key. -/
def bestReading (named : Bytes) (cluster : List Nat) : Nat :=
  (cluster.foldl
    (fun (best : Nat × Bool) idx =>
      if textKey detections idx ≠ named then best
      else if !best.2 || decide ((detection detections best.1).rawText.length <
          (detection detections idx).rawText.length) then (idx, true)
      else best)
    (cluster.headD 0, false)).1

/-- Confidences are added up in order, from zero. -/
def confidenceSum (confidences : List ℚ) : ℚ :=
  confidences.foldl (fun sum confidence => round64 (sum + confidence)) 0

/-- The observation of a group, none when it has one reading below the confidence
asked for. -/
def observe (totalFrames : Int) (minConfidence : ℚ) (cluster : List Nat) :
    Option ReconciledObservation :=
  let members := cluster.map (detection detections)
  let best := detection detections (bestReading detections (namedKey detections cluster) cluster)
  let front := detection detections (cluster.headD 0)
  let recognized := members.filter fun det => !det.reused
  let readings := max 1 recognized.length
  let confidence :=
    if 0 < recognized.length then
      round64 (confidenceSum (recognized.map FrameDetection.confidence) / round64 recognized.length)
    else
      round64 (confidenceSum ((members.filter fun det => det.reused).map FrameDetection.confidence) /
        round64 cluster.length)
  if 1 < totalFrames ∧ readings = 1 ∧ confidence < minConfidence then none
  else
    some
      { rawText := best.rawText
        normalizedText := normalizeText best.rawText
        confidence :=
          if 1 < readings then
            min 1 (round64 (confidence + round64 (round64 (1 / 10) * round64 (readings - 1 : Nat))))
          else confidence
        startUs := (members.map FrameDetection.timestampUs).foldl min (2 ^ 63 - 1)
        endUs := (members.map FrameDetection.timestampUs).foldl max 0
        frameStart := (members.map FrameDetection.frameIndex).foldl min (2 ^ 64 - 1)
        frameEnd := (members.map FrameDetection.frameIndex).foldl max 0
        sourceFrameIds := members.map FrameDetection.frameId
        bboxLeft := (members.map FrameDetection.bboxLeft).foldl min (2 ^ 31 - 1)
        bboxTop := (members.map FrameDetection.bboxTop).foldl min (2 ^ 31 - 1)
        bboxRight := (members.map FrameDetection.bboxRight).foldl max 0
        bboxBottom := (members.map FrameDetection.bboxBottom).foldl max 0
        frameWidth := front.frameWidth
        frameHeight := front.frameHeight
        detectionCount := cluster.length }

/-- `std::sort` leaves the order of equal starts open; here they keep the order of
their groups. -/
def reconcileDetections (totalFrames : Int) (minConfidence : ℚ) (minTextChars : Nat) :
    List ReconciledObservation :=
  ((groups detections minTextChars).values.filterMap
    (observe detections totalFrames minConfidence)).insertionSort fun a b => a.startUs ≤ b.startUs

end Reconciliation

/-! ## Places -/

section Places

variable {detections : List FrameDetection} {minTextChars : Nat}

/-- The detection's key is long enough. -/
def Kept (detections : List FrameDetection) (minTextChars i : Nat) : Prop :=
  i < detections.length ∧ minTextChars ≤ (textKey detections i).length

/-- The same text in the same place. -/
def touches (detections : List FrameDetection) (i j : Nat) : Bool :=
  decide (textKey detections i = textKey detections j) && samePlace detections i j

/-- The detection that founded the earliest place a detection touches when it
comes, itself if it touches none. -/
def founder (detections : List FrameDetection) (i : Nat) : Nat :=
  (((List.finRange i).filter fun j : Fin i => touches detections i j).map fun j : Fin i =>
    founder detections j).foldl min i
termination_by i
decreasing_by exact j.isLt

theorem foldl_min (xs : List Nat) (i : Nat) : (∀ x ∈ xs, xs.foldl min i ≤ x) ∧ xs.foldl min i ≤ i ∧
    (xs.foldl min i = i ∨ xs.foldl min i ∈ xs) := by
  induction xs generalizing i with
  | nil => exact ⟨List.forall_mem_nil _, le_rfl, .inl rfl⟩
  | cons x xs ih =>
    obtain ⟨below, start, found⟩ := ih (min i x)
    rw [List.foldl_cons]
    refine ⟨List.forall_mem_cons.mpr ⟨start.trans (min_le_right _ _), below⟩,
      start.trans (min_le_left _ _), ?_⟩
    rcases found with found | mem
    · rw [found]
      refine (min_choice i x).imp_right fun isX => ?_
      rw [isX]
      exact List.mem_cons_self
    · exact .inr (List.mem_cons_of_mem x mem)

/-- No place touched is founded before that of the founder. -/
theorem founder_le_of_touches {i j : Nat} (lt : j < i) (touched : touches detections i j = true) :
    founder detections i ≤ founder detections j := by
  rw [founder]
  refine (foldl_min _ i).1 _ (List.mem_map.mpr ⟨⟨j, lt⟩, ?_, rfl⟩)
  exact List.mem_filter.mpr ⟨List.mem_finRange _, touched⟩

theorem founder_le (i : Nat) : founder detections i ≤ i := by
  rw [founder]
  exact (foldl_min _ i).2.1

theorem founder_cases (i : Nat) : founder detections i = i ∨
    ∃ j < i, touches detections i j = true ∧ founder detections i = founder detections j := by
  have found := (foldl_min (((List.finRange i).filter fun j : Fin i => touches detections i j).map
    fun j : Fin i => founder detections j) i).2.2
  rw [← founder] at found
  refine found.imp_right fun mem => ?_
  obtain ⟨j, mem, same⟩ := List.mem_map.mp mem
  exact ⟨j, j.isLt, (List.mem_filter.mp mem).2, same.symm⟩

/-- The places of the detections of a key so far. -/
structure Placed (detections : List FrameDetection) (done : List Nat) (places : List (List Nat)) :
    Prop where
  members : ∀ i, i ∈ places.flatten ↔ i ∈ done
  founded : ∀ place ∈ places, ∃ front rest, place = front :: rest ∧
    ∀ i ∈ place, founder detections i = front
  ordered : places.Pairwise fun place place' => place.headD 0 < place'.headD 0

theorem Placed.front_mem {done : List Nat} {places : List (List Nat)}
    (h : Placed detections done places) {place : List Nat} (mem : place ∈ places) :
    place.headD 0 ∈ done := by
  obtain ⟨front, rest, rfl, -⟩ := h.founded place mem
  exact (h.members front).mp (List.mem_flatten.mpr ⟨_, mem, List.mem_cons_self⟩)

/-- The first place touched is joined, if there is one. -/
theorem joinPlace_cases (idx : Nat) (places : List (List Nat)) :
    match joinPlace detections idx places with
    | some (front, places') => ∃ before place after, places = before ++ place :: after ∧
        (∀ p ∈ before, ∀ m ∈ p, samePlace detections idx m = false) ∧
        (∃ m ∈ place, samePlace detections idx m = true) ∧ front = place.headD idx ∧
        places' = before ++ (place ++ [idx]) :: after
    | none => ∀ p ∈ places, ∀ m ∈ p, samePlace detections idx m = false := by
  induction places with
  | nil => exact List.forall_mem_nil _
  | cons place places ih =>
    unfold joinPlace
    split
    · next outer isOuter =>
      split at isOuter
      · next touched =>
        obtain ⟨m, mem, here⟩ := List.any_eq_true.mp touched
        cases isOuter
        exact ⟨[], place, places, rfl, List.forall_mem_nil _, ⟨m, mem, here⟩, rfl, rfl⟩
      · next apart =>
        have apart : ∀ m ∈ place, samePlace detections idx m = false := by
          simpa using apart
        cases inner : joinPlace detections idx places with
        | none =>
          rw [inner] at isOuter
          cases isOuter
        | some found =>
          rw [inner] at isOuter ih
          cases isOuter
          obtain ⟨before, p, after, rfl, free, touched, front, rest⟩ := ih
          exact ⟨place :: before, p, after, rfl, List.forall_mem_cons.mpr ⟨apart, free⟩, touched,
            front, congrArg (place :: ·) rest⟩
    · next isOuter =>
      split at isOuter
      · cases isOuter
      · next apart =>
        have apart : ∀ m ∈ place, samePlace detections idx m = false := by
          simpa using apart
        cases inner : joinPlace detections idx places with
        | none =>
          rw [inner] at ih
          exact List.forall_mem_cons.mpr ⟨apart, ih⟩
        | some found =>
          rw [inner] at isOuter
          cases isOuter

/-- A detection goes to the place of its founder. -/
theorem Placed.place {done : List Nat} {places : List (List Nat)} {parent : Nat → Nat}
    (h : Placed detections done places) {idx : Nat} (later : ∀ j ∈ done, j < idx)
    (sameKey : ∀ j ∈ done, textKey detections idx = textKey detections j)
    (all : ∀ j < idx, touches detections idx j = true → j ∈ done) (own : parent idx = idx) :
    let s := placeDetection detections (parent, places) idx
    Placed detections (done ++ [idx]) s.2 ∧
      s.1 = Function.update parent idx (founder detections idx) := by
  have touched : ∀ j ∈ done, samePlace detections idx j = true → touches detections idx j = true :=
    fun j mem here => by
      rw [touches, here, Bool.and_true, decide_eq_true (sameKey j mem)]
  have cases_ := @joinPlace_cases detections idx places
  intro s
  cases joined : joinPlace detections idx places with
  | none =>
    rw [joined] at cases_
    have value : s = (parent, places ++ [[idx]]) := by
      simp only [s, placeDetection, joined]
    have alone : founder detections idx = idx := by
      rcases @founder_cases detections idx with alone | ⟨j, lt, here, -⟩
      · exact alone
      · obtain ⟨place, mem, inPlace⟩ := List.mem_flatten.mp ((h.members j).mpr (all j lt here))
        rw [touches, cases_ place mem j inPlace, Bool.and_false] at here
        cases here
    rw [value]
    refine ⟨⟨fun i => ?_, fun place mem => ?_, ?_⟩, ?_⟩
    · rw [List.flatten_append, List.mem_append, List.mem_append, h.members]
      exact or_congr_right (by simp)
    · rcases List.mem_append.mp mem with mem | last
      · exact h.founded place mem
      · rw [List.mem_singleton.mp last]
        exact ⟨idx, [], rfl, fun i isIdx => (List.mem_singleton.mp isIdx).symm ▸ alone⟩
    · refine List.pairwise_append.mpr ⟨h.ordered, List.pairwise_singleton _ _, fun place mem p last => ?_⟩
      rw [List.mem_singleton.mp last]
      exact later _ (h.front_mem mem)
    · rw [alone]
      exact (Function.update_eq_self_iff.mpr own.symm).symm
  | some found =>
    obtain ⟨front, places'⟩ := found
    rw [joined] at cases_
    obtain ⟨before, place, after, rfl, free, ⟨m, inPlace, here⟩, isFront, isPlaces⟩ := cases_
    have value : s = (Function.update parent idx front, places') := by
      simp only [s, placeDetection, joined]
    have memPlace : place ∈ before ++ place :: after := List.mem_append_right _ List.mem_cons_self
    obtain ⟨f, rest, rfl, founded⟩ := h.founded place memPlace
    have isFront : front = f := isFront
    subst isFront
    have mDone : m ∈ done := (h.members m).mp (List.mem_flatten.mpr ⟨_, memPlace, inPlace⟩)
    have first : founder detections idx = front := by
      refine le_antisymm ?_ ?_
      · rw [← founded m inPlace]
        exact founder_le_of_touches (later m mDone) (touched m mDone here)
      · rcases @founder_cases detections idx with alone | ⟨j, lt, hereJ, same⟩
        · rw [alone, ← founded m inPlace]
          exact (founder_le m).trans (later m mDone).le
        · -- whatever else it touches was founded no earlier
          obtain ⟨p, mem, inP⟩ := List.mem_flatten.mp ((h.members j).mpr (all j lt hereJ))
          obtain ⟨fp, restP, rfl, foundedP⟩ := h.founded p mem
          rw [same, foundedP j inP]
          rcases List.mem_append.mp mem with early | late
          · rw [touches, free _ early j inP, Bool.and_false] at hereJ
            cases hereJ
          · rcases List.mem_cons.mp late with isPlace | late
            · cases isPlace
              exact le_rfl
            · have order := (List.pairwise_append.mp h.ordered).2.1
              exact ((List.pairwise_cons.mp order).1 _ late).le
    rw [value, isPlaces]
    refine ⟨⟨fun i => ?_, fun p mem => ?_, ?_⟩, by rw [first]⟩
    · have old := h.members i
      simp only [List.flatten_append, List.flatten_cons, List.mem_append, List.mem_singleton] at old ⊢
      rw [← old]
      constructor
      · rintro (early | (here | isIdx) | late)
        · exact .inl (.inl early)
        · exact .inl (.inr (.inl here))
        · exact .inr isIdx
        · exact .inl (.inr (.inr late))
      · rintro ((early | here | late) | isIdx)
        · exact .inl early
        · exact .inr (.inl (.inl here))
        · exact .inr (.inr late)
        · exact .inr (.inl (.inr isIdx))
    · rcases List.mem_append.mp mem with early | mem
      · exact h.founded p (List.mem_append_left _ early)
      · rcases List.mem_cons.mp mem with rfl | late
        · refine ⟨front, rest ++ [idx], rfl, fun i mem => ?_⟩
          rcases List.mem_append.mp mem with mem | isIdx
          · exact founded i mem
          · rw [List.mem_singleton.mp isIdx, first]
        · exact h.founded p (List.mem_append_right _ (List.mem_cons_of_mem _ late))
    · have order := h.ordered
      rw [List.pairwise_append, List.pairwise_cons] at order ⊢
      refine ⟨order.1, order.2.1, fun p mem p' mem' => ?_⟩
      rcases List.mem_cons.mp mem' with rfl | late
      · exact order.2.2 p mem (front :: rest) List.mem_cons_self
      · exact order.2.2 p mem p' (List.mem_cons_of_mem _ late)

/-- The detections of a key, in order, with all of the key that come before. -/
structure KeyIndices (detections : List FrameDetection) (indices : List Nat) : Prop where
  increasing : indices.Pairwise (· < ·)
  sameKey : ∀ i ∈ indices, ∀ j ∈ indices, textKey detections i = textKey detections j
  closed : ∀ i ∈ indices, ∀ j < i, touches detections i j = true → j ∈ indices

/-- The detections of a key hang below their founders. -/
theorem placed_foldl {indices : List Nat} (h : KeyIndices detections indices) (rest : List Nat)
    {done : List Nat} {places : List (List Nat)} {parent : Nat → Nat} (isAll : done ++ rest = indices)
    (placed : Placed detections done places) (own : ∀ i ∈ rest, parent i = i) (i : Nat) :
    (rest.foldl (placeDetection detections) (parent, places)).1 i =
      if i ∈ rest then founder detections i else parent i := by
  induction rest generalizing done places parent with
  | nil => exact (if_neg List.not_mem_nil).symm
  | cons idx rest ih =>
    have increasing := h.increasing
    rw [← isAll, List.pairwise_append, List.pairwise_cons] at increasing
    obtain ⟨-, ⟨laterRest, -⟩, laterDone⟩ := increasing
    have here : idx ∈ indices := isAll ▸ List.mem_append_right _ List.mem_cons_self
    obtain ⟨placed', isParent⟩ := placed.place
      (fun j mem => laterDone j mem idx List.mem_cons_self)
      (fun j mem => h.sameKey idx here j (isAll ▸ List.mem_append_left _ mem))
      (fun j lt touched => by
        have mem := h.closed idx here j lt touched
        rw [← isAll] at mem
        rcases List.mem_append.mp mem with mem | mem
        · exact mem
        · rcases List.mem_cons.mp mem with rfl | mem
          · exact absurd lt (lt_irrefl j)
          · exact absurd lt (laterRest j mem).not_gt)
      (own idx List.mem_cons_self)
    rw [List.foldl_cons]
    have rebuilt : placeDetection detections (parent, places) idx =
        (Function.update parent idx (founder detections idx),
          (placeDetection detections (parent, places) idx).2) := Prod.ext isParent rfl
    rw [rebuilt, ih ((List.append_cons done idx rest).symm.trans isAll) placed' fun j mem => ?_]
    · split
      · next mem => rw [if_pos (List.mem_cons_of_mem idx mem)]
      · next notMem =>
        rw [Function.update_apply]
        split
        · next same => rw [if_pos (same ▸ List.mem_cons_self), same]
        · next other => rw [if_neg (List.not_mem_cons_of_ne_of_not_mem other notMem)]
    · rw [Function.update_of_ne (laterRest j mem).ne']
      exact own j (List.mem_cons_of_mem idx mem)

/-- What is under a key in the map. -/
theorem mem_byTextKey {key : Bytes} {indices : List Nat} :
    (key, indices) ∈ (byTextKey detections minTextChars).entries ↔
      indices = (List.range detections.length).filter (fun i =>
        decide (textKey detections i = key) &&
          decide (minTextChars ≤ (textKey detections i).length)) ∧ indices ≠ [] := by
  have loop : byTextKey detections minTextChars =
      ((List.range detections.length).filter fun i =>
        decide (minTextChars ≤ (textKey detections i).length)).foldl
          (fun byKey i => byKey.push (textKey detections i) i) .empty := by
    rw [List.foldl_filter, byTextKey]
    congr 1
    funext byKey i
    simp only [decide_eq_true_eq, ← not_lt, ite_not]
  rw [loop, OrderedMap.mem_foldl_push, List.filter_filter]
  -- the two sides decide the equality of keys in different ways
  exact iff_of_eq (by congr!)

theorem mem_values {v : List Nat} :
    v ∈ (byTextKey detections minTextChars).values ↔
      ∃ key, (key, v) ∈ (byTextKey detections minTextChars).entries := by
  rw [OrderedMap.values, List.mem_map]
  constructor
  · rintro ⟨⟨key, v⟩, mem, rfl⟩
    exact ⟨key, mem⟩
  · rintro ⟨key, mem⟩
    exact ⟨(key, v), mem, rfl⟩

theorem mem_of_mem_values {v : List Nat} (mem : v ∈ (byTextKey detections minTextChars).values) :
    ∃ key, ∀ i, i ∈ v ↔ Kept detections minTextChars i ∧ textKey detections i = key := by
  obtain ⟨key, mem⟩ := mem_values.mp mem
  obtain ⟨rfl, -⟩ := mem_byTextKey.mp mem
  refine ⟨key, fun i => ?_⟩
  rw [List.mem_filter, List.mem_range, Bool.and_eq_true, decide_eq_true_eq, decide_eq_true_eq, Kept,
    and_assoc]
  exact and_congr_right fun _ => and_comm

theorem keyIndices_of_mem_values {v : List Nat}
    (mem : v ∈ (byTextKey detections minTextChars).values) : KeyIndices detections v := by
  obtain ⟨key, members⟩ := mem_of_mem_values mem
  refine ⟨?_, fun i memI j memJ => ?_, fun i memI j lt touched => ?_⟩
  · obtain ⟨key, mem⟩ := mem_values.mp mem
    obtain ⟨rfl, -⟩ := mem_byTextKey.mp mem
    exact List.pairwise_lt_range.filter _
  · rw [((members i).mp memI).2, ((members j).mp memJ).2]
  · obtain ⟨⟨bound, long⟩, isKey⟩ := (members i).mp memI
    rw [touches, Bool.and_eq_true, decide_eq_true_eq] at touched
    refine (members j).mpr ⟨⟨lt.trans bound, ?_⟩, ?_⟩
    · rw [← touched.1]
      exact long
    · rw [← touched.1]
      exact isKey

theorem values_disjoint : (byTextKey detections minTextChars).values.Pairwise List.Disjoint := by
  have distinct := (byTextKey detections minTextChars).keys_nodup
  rw [List.Nodup, List.pairwise_map] at distinct
  rw [OrderedMap.values, List.pairwise_map]
  refine distinct.imp_of_mem fun {p q} memP memQ different i inP inQ => different ?_
  have keyOf : ∀ p ∈ (byTextKey detections minTextChars).entries, i ∈ p.2 →
      textKey detections i = p.1 := fun p mem inside => by
    obtain ⟨isFilter, -⟩ := mem_byTextKey.mp (show (p.1, p.2) ∈ _ from mem)
    rw [isFilter, List.mem_filter, Bool.and_eq_true, decide_eq_true_eq] at inside
    exact inside.2.1
  rw [← keyOf p memP inP, ← keyOf q memQ inQ]

/-- The detections that are kept, by key. -/
def keptByKey (detections : List FrameDetection) (minTextChars : Nat) : List Nat :=
  (byTextKey detections minTextChars).values.flatten

theorem mem_keptByKey {i : Nat} :
    i ∈ keptByKey detections minTextChars ↔ Kept detections minTextChars i := by
  rw [keptByKey, List.mem_flatten]
  constructor
  · rintro ⟨v, mem, inside⟩
    obtain ⟨key, members⟩ := mem_of_mem_values mem
    exact ((members i).mp inside).1
  · intro kept
    have inside : i ∈ (List.range detections.length).filter (fun j =>
        decide (textKey detections j = textKey detections i) &&
          decide (minTextChars ≤ (textKey detections j).length)) := by
      rw [List.mem_filter, List.mem_range, Bool.and_eq_true, decide_eq_true_eq, decide_eq_true_eq]
      exact ⟨kept.1, rfl, kept.2⟩
    exact ⟨_, mem_values.mpr ⟨_, mem_byTextKey.mpr ⟨rfl, List.ne_nil_of_mem inside⟩⟩, inside⟩

theorem keptByKey_nodup : (keptByKey detections minTextChars).Nodup := by
  refine List.nodup_flatten.mpr ⟨fun v mem => ?_, values_disjoint⟩
  exact (keyIndices_of_mem_values mem).increasing.imp ne_of_lt

/-- After the first pass every kept detection hangs below its founder. -/
theorem placedParents_eq (i : Nat) :
    placedParents detections (byTextKey detections minTextChars) i =
      if i ∈ keptByKey detections minTextChars then founder detections i else i := by
  have pass : ∀ (vs : List (List Nat)) (parent : Nat → Nat), (∀ v ∈ vs, KeyIndices detections v) →
      vs.Pairwise List.Disjoint → (∀ i ∈ vs.flatten, parent i = i) →
      (vs.foldl (fun parent indices =>
          (indices.foldl (placeDetection detections) (parent, [])).1) parent) i =
        if i ∈ vs.flatten then founder detections i else parent i := by
    intro vs
    induction vs with
    | nil => exact fun _ _ _ _ => (if_neg List.not_mem_nil).symm
    | cons v vs ih =>
      intro parent keys disjoint own
      obtain ⟨apart, disjoint⟩ := List.pairwise_cons.mp disjoint
      have first := placed_foldl (keys v List.mem_cons_self) v (List.nil_append v)
        ⟨fun _ => Iff.rfl, List.forall_mem_nil _, .nil⟩ fun j mem => own j (List.mem_append_left _ mem)
      rw [List.foldl_cons, ih _ (fun v' mem => keys v' (List.mem_cons_of_mem v mem)) disjoint ?_,
        first, List.flatten_cons]
      · split
        · next later => rw [if_pos (List.mem_append_right v later)]
        · next notLater =>
          split
          · next here => rw [if_pos (List.mem_append_left _ here)]
          · next notHere => rw [if_neg fun mem => (List.mem_append.mp mem).elim notHere notLater]
      · intro j mem
        have notFirst : j ∉ v := fun inV => by
          obtain ⟨v', memV', inV'⟩ := List.mem_flatten.mp mem
          exact apart v' memV' inV inV'
        rw [first j, if_neg notFirst]
        exact own j (List.mem_append_right v mem)
  exact pass _ id (fun v mem => keyIndices_of_mem_values mem) values_disjoint fun _ _ => rfl

end Places

end Svp.Vision
