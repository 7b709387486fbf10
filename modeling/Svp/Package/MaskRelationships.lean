import Svp.Lib.Binary64Order

/-!
# Relationships between the masks of a frame

`frameRelationships` compares every two masks of a frame once, in the order of their
records. Where a depth map tells which of two overlapping masks is nearer, that is all
that is reported of them; otherwise their overlap and their containment are.

What is reported depends on the order of the records in one respect only: the inner of two
masks is contained by the outer one, or the outer one contains it, as they come. Read as
facts the relationships do not depend on the order (`frameRelationships_spec`).
-/

namespace Svp.Package

open Lib (round64)
open scoped List

/-! ## Masks and depth -/

/-- A mask record as it is collected: with a region and a size. -/
structure MaskBlockInfo where
  maskId : String
  regionId : String
  frameId : String
  width : Nat
  height : Nat
  named : regionId ≠ ""
  sized : 0 < width ∧ 0 < height

/-- The depth map of a frame. -/
structure DepthMap where
  width : Nat
  height : Nat
  pixels : List UInt16
  loaded : pixels.length = width * height

/-- The pixels of a mask that can be read, one byte for each. -/
abbrev MaskPixels (info : MaskBlockInfo) : Type :=
  { pixels : List UInt8 // pixels.length = info.width * info.height }

structure DecodedMask where
  info : MaskBlockInfo
  decoded : MaskPixels info

namespace DecodedMask

def regionId (mask : DecodedMask) : String := mask.info.regionId

def pixels (mask : DecodedMask) : List UInt8 := mask.decoded.val

end DecodedMask

def overlapPixels (a b : DecodedMask) : Nat :=
  (a.pixels.zip b.pixels).countP fun pixel => decide (pixel.1 ≠ 0 ∧ pixel.2 ≠ 0)

/-- The pixels of the first mask alone. -/
def onlyPixels (a b : DecodedMask) : Nat :=
  (a.pixels.zip b.pixels).countP fun pixel => decide (pixel.1 ≠ 0 ∧ pixel.2 = 0)

def computeMeanDepthAtMask (depthPixels : List UInt16) (maskPixels : List UInt8) : ℚ :=
  let masked := (depthPixels.zip maskPixels).filter fun pixel => decide (pixel.2 ≠ 0)
  if masked.length = 0 then -1
  else
    round64 (masked.foldl (fun depthSum pixel => round64 (depthSum + pixel.1.toNat)) 0 /
      round64 masked.length)

/-! ## Relationships -/

inductive MaskRelationshipType
  | occludes | occludedBy | overlaps | contains | containedBy
deriving DecidableEq

namespace MaskRelationshipType

def name : MaskRelationshipType → String
  | occludes => "occludes"
  | occludedBy => "occluded_by"
  | overlaps => "overlaps"
  | contains => "contains"
  | containedBy => "contained_by"

def idPrefix : MaskRelationshipType → String
  | occludes => "rel_mask_occludes_"
  | occludedBy => "rel_mask_occluded_by_"
  | overlaps => "rel_mask_overlaps_"
  | contains => "rel_mask_contains_"
  | containedBy => "rel_mask_contained_by_"

def evidence : MaskRelationshipType → String
  | occludes => "spatial/masks.blocks.svpmz+spatial/depth.blocks.svpdz"
  | occludedBy => "spatial/masks.blocks.svpmz+spatial/depth.blocks.svpdz"
  | _ => "spatial/masks.blocks.svpmz"

end MaskRelationshipType

structure Relationship where
  id : String
  type : MaskRelationshipType
  sourceId : String
  targetId : String
  startUs : Int
  endUs : Int
  confidence : ℚ
deriving DecidableEq

structure RelationshipBuilder where
  relationships : List Relationship
  sequence : Nat
  skippedDangling : Nat

/-- A call of `add`; start and end are the same time, and the type has its prefix. -/
structure Addition where
  type : MaskRelationshipType
  sourceId : String
  targetId : String
  ptsUs : Int
  confidence : ℚ

def RelationshipBuilder.add (builder : RelationshipBuilder) (new : Addition) : RelationshipBuilder :=
  if new.sourceId = "" ∨ new.targetId = "" then
    { builder with skippedDangling := builder.skippedDangling + 1 }
  else
    { builder with
      relationships := builder.relationships ++
        [{ id := new.type.idPrefix ++ toString builder.sequence
           type := new.type
           sourceId := new.sourceId
           targetId := new.targetId
           startUs := new.ptsUs
           endUs := new.ptsUs
           confidence := new.confidence }]
      sequence := builder.sequence + 1 }

def kMaskIoUThreshold : ℚ := round64 (1 / 10)

def kMaskContainmentThreshold : ℚ := round64 (8 / 10)

/-- A quotient of two counts as a double. -/
def ratio (part whole : Nat) : ℚ := round64 (round64 part / round64 whole)

section
variable (depth : Option DepthMap) (regionPts : String → Option Int)

/-- The mean depths of two masks, where a depth map of their size is loaded. -/
def meanDepths (a b : DecodedMask) : Option (ℚ × ℚ) :=
  match depth with
  | some map =>
    if a.info.width = map.width ∧ a.info.height = map.height then
      some (computeMeanDepthAtMask map.pixels a.pixels, computeMeanDepthAtMask map.pixels b.pixels)
    else none
  | none => none

/-- What masks that overlap say without depth. -/
def overlapAdditions (a b : DecodedMask) (ptsUs : Int) : List Addition :=
  let overlap := overlapPixels a b
  let aOnly := onlyPixels a b
  let bOnly := onlyPixels b a
  let maskIou := ratio overlap (overlap + aOnly + bOnly)
  let bTotal := overlap + bOnly
  let aTotal := overlap + aOnly
  (if kMaskIoUThreshold ≤ maskIou then [⟨.overlaps, a.regionId, b.regionId, ptsUs, maskIou⟩] else []) ++
  (if 0 < bTotal ∧ kMaskContainmentThreshold ≤ ratio overlap bTotal then
    [⟨.contains, a.regionId, b.regionId, ptsUs, ratio overlap bTotal⟩] else []) ++
  (if 0 < aTotal ∧ kMaskContainmentThreshold ≤ ratio overlap aTotal then
    [⟨.containedBy, a.regionId, b.regionId, ptsUs, ratio overlap aTotal⟩] else [])

/-- The first mask is nearer. -/
def occlusionAdditions (near far : DecodedMask) (ptsUs : Int) : List Addition :=
  [⟨.occludes, near.regionId, far.regionId, ptsUs, 1⟩, ⟨.occludedBy, far.regionId, near.regionId, ptsUs, 1⟩]

def pairAdditions (a b : DecodedMask) : List Addition :=
  if a.info.width ≠ b.info.width ∨ a.info.height ≠ b.info.height then []
  else if overlapPixels a b = 0 then []
  else
    let ptsUs := (regionPts a.regionId).getD 0
    match meanDepths depth a b with
    | some (meanDepthA, meanDepthB) =>
      if meanDepthA < 0 ∨ meanDepthB < 0 then []
      else if meanDepthA < meanDepthB then occlusionAdditions a b ptsUs
      else if meanDepthB < meanDepthA then occlusionAdditions b a ptsUs
      else overlapAdditions a b ptsUs
    | none => overlapAdditions a b ptsUs

/-- All pairs, the earlier mask first. -/
def maskPairs : List DecodedMask → List (DecodedMask × DecodedMask)
  | [] => []
  | a :: rest => rest.map (fun b => (a, b)) ++ maskPairs rest

/-- The pixels of all masks, or nothing once one cannot be read. -/
def decodeMasks (decode : (info : MaskBlockInfo) → Option (MaskPixels info)) :
    List MaskBlockInfo → Option (List DecodedMask)
  | [] => some []
  | info :: rest =>
    match decode info with
    | some pixels => (decodeMasks decode rest).map fun decoded => ⟨info, pixels⟩ :: decoded
    | none => none

def frameRelationships (decode : (info : MaskBlockInfo) → Option (MaskPixels info)) (builder : RelationshipBuilder)
    (frameMasks : List MaskBlockInfo) : RelationshipBuilder :=
  match decodeMasks decode frameMasks with
  | some decoded =>
    if decoded.length < 2 then builder
    else
      ((maskPairs decoded).flatMap fun pair => pairAdditions depth regionPts pair.1 pair.2).foldl
        RelationshipBuilder.add builder
  | none => builder

end

/-! ## Facts -/

/-- What a relationship says of two regions; to contain and to be contained are one fact. -/
inductive SpatialFact
  | occludes (near far : String)
  | occludedBy (far near : String)
  | overlaps (regions : Sym2 String)
  | contains (outer inner : String)

def spatialFact (type : MaskRelationshipType) (source target : String) : SpatialFact :=
  match type with
  | .occludes => .occludes source target
  | .occludedBy => .occludedBy source target
  | .overlaps => .overlaps s(source, target)
  | .contains => .contains source target
  | .containedBy => .contains target source

def Relationship.fact (relationship : Relationship) : SpatialFact :=
  spatialFact relationship.type relationship.sourceId relationship.targetId

def Addition.fact (new : Addition) : SpatialFact := spatialFact new.type new.sourceId new.targetId

/-- Masks of one size that share a pixel. -/
def Meets (a b : DecodedMask) : Prop :=
  a.info.width = b.info.width ∧ a.info.height = b.info.height ∧ overlapPixels a b ≠ 0

section
variable (depth : Option DepthMap)

/-- Depth puts the first mask before the second. -/
def Nearer (a b : DecodedMask) : Prop :=
  ∃ near far, meanDepths depth a b = some (near, far) ∧ near < far

/-- Depth does not tell them apart, or there is none. -/
def Unordered (a b : DecodedMask) : Prop :=
  meanDepths depth a b = none ∨ ∃ mean, meanDepths depth a b = some (mean, mean)

end

/-- Intersection over union. -/
def maskIou (a b : DecodedMask) : ℚ :=
  ratio (overlapPixels a b) (overlapPixels a b + onlyPixels a b + onlyPixels b a)

/-- The part of the inner mask that is in the outer one. -/
def containment (outer inner : DecodedMask) : ℚ :=
  ratio (overlapPixels outer inner) (overlapPixels outer inner + onlyPixels inner outer)

/-- A fact about two masks, seen from the first. -/
inductive PairFact (depth : Option DepthMap) (a b : DecodedMask) : SpatialFact → Prop
  | occludes : Nearer depth a b → PairFact depth a b (.occludes a.regionId b.regionId)
  | occludedBy : Nearer depth a b → PairFact depth a b (.occludedBy b.regionId a.regionId)
  | overlaps : Unordered depth a b → kMaskIoUThreshold ≤ maskIou a b →
      PairFact depth a b (.overlaps s(a.regionId, b.regionId))
  | contains : Unordered depth a b → kMaskContainmentThreshold ≤ containment a b →
      PairFact depth a b (.contains a.regionId b.regionId)

/-! ## Two masks -/

theorem overlapPixels_comm (a b : DecodedMask) : overlapPixels a b = overlapPixels b a := by
  unfold overlapPixels
  rw [← List.zip_swap b.pixels a.pixels, List.countP_map]
  exact congrArg (List.countP · _) (funext fun pixel => decide_eq_decide.mpr And.comm)

theorem maskIou_comm (a b : DecodedMask) : maskIou a b = maskIou b a := by
  unfold maskIou
  rw [overlapPixels_comm a b, Nat.add_right_comm]

theorem Meets.symm {a b : DecodedMask} (meets : Meets a b) : Meets b a :=
  ⟨meets.1.symm, meets.2.1.symm, overlapPixels_comm a b ▸ meets.2.2⟩

section
variable {depth : Option DepthMap} {a b : DecodedMask}

theorem meanDepths_swap (meets : Meets a b) : meanDepths depth b a = (meanDepths depth a b).map Prod.swap := by
  unfold meanDepths
  rw [meets.1, meets.2.1]
  cases depth with
  | none => rfl
  | some map =>
    dsimp only
    split <;> rfl

theorem Unordered.symm (meets : Meets a b) (unordered : Unordered depth a b) : Unordered depth b a := by
  unfold Unordered at unordered ⊢
  rw [meanDepths_swap meets]
  rcases unordered with none | ⟨mean, same⟩
  · exact .inl (by rw [none]; rfl)
  · exact .inr ⟨mean, by rw [same]; rfl⟩

theorem computeMeanDepthAtMask_nonneg {depthPixels : List UInt16} {maskPixels : List UInt8}
    (same : depthPixels.length = maskPixels.length) (some : ∃ pixel ∈ maskPixels, pixel ≠ 0) :
    0 ≤ computeMeanDepthAtMask depthPixels maskPixels := by
  have sums : ∀ (masked : List (UInt16 × UInt8)) (sum : ℚ), 0 ≤ sum →
      0 ≤ masked.foldl (fun depthSum pixel => round64 (depthSum + pixel.1.toNat)) sum := by
    intro masked
    induction masked with
    | nil => exact fun sum nonneg => nonneg
    | cons pixel rest ih =>
      intro sum nonneg
      exact ih _ (Lib.round64_nonneg (add_nonneg nonneg (Nat.cast_nonneg _)))
  have masked : ((depthPixels.zip maskPixels).filter fun pixel => decide (pixel.2 ≠ 0)).length ≠ 0 := by
    obtain ⟨pixel, listed, nonzero⟩ := some
    rw [← List.map_snd_zip (Nat.le_of_eq same.symm)] at listed
    obtain ⟨both, found, rfl⟩ := List.mem_map.mp listed
    have kept : both ∈ (depthPixels.zip maskPixels).filter fun pixel => decide (pixel.2 ≠ 0) :=
      List.mem_filter.mpr ⟨found, decide_eq_true nonzero⟩
    exact (List.length_pos_of_mem kept).ne'
  unfold computeMeanDepthAtMask
  dsimp only
  rw [if_neg masked]
  exact Lib.round64_nonneg (div_nonneg (sums _ 0 (le_refl 0)) (Lib.round64_nonneg (Nat.cast_nonneg _)))

/-- Masks that meet have pixels, so their mean depths are real. -/
theorem meanDepths_nonneg (meets : Meets a b) {meanA meanB : ℚ} (means : meanDepths depth a b = some (meanA, meanB)) :
    0 ≤ meanA ∧ 0 ≤ meanB := by
  have shared : ∃ pixel ∈ a.pixels.zip b.pixels, pixel.1 ≠ 0 ∧ pixel.2 ≠ 0 := by
    obtain ⟨pixel, found, both⟩ := List.countP_pos_iff.mp (Nat.pos_of_ne_zero meets.2.2)
    exact ⟨pixel, found, of_decide_eq_true both⟩
  obtain ⟨pixel, found, left, right⟩ := shared
  have found := List.of_mem_zip found
  unfold meanDepths at means
  split at means
  next map =>
    split at means
    next same =>
      cases means
      have first : map.pixels.length = a.pixels.length := by
        rw [map.loaded, ← same.1, ← same.2]
        exact a.decoded.property.symm
      have second : map.pixels.length = b.pixels.length := by
        rw [map.loaded, ← same.1, ← same.2, meets.1, meets.2.1]
        exact b.decoded.property.symm
      exact ⟨computeMeanDepthAtMask_nonneg first ⟨_, found.1, left⟩,
        computeMeanDepthAtMask_nonneg second ⟨_, found.2, right⟩⟩
    next => cases means
  next => cases means

theorem Unordered.not_nearer (unordered : Unordered depth a b) : ¬Nearer depth a b := by
  rintro ⟨near, far, means, less⟩
  rcases unordered with none | ⟨mean, same⟩
  · rw [none] at means
    cases means
  · rw [same] at means
    cases means
    exact lt_irrefl _ less

theorem mem_overlapAdditions_iff (ptsUs : Int) (meets : Meets a b) (unordered : Unordered depth a b)
    (fact : SpatialFact) : (∃ new ∈ overlapAdditions a b ptsUs, new.fact = fact) ↔
      PairFact depth a b fact ∨ PairFact depth b a fact := by
  have positive := Nat.pos_of_ne_zero meets.2.2
  unfold overlapAdditions
  dsimp only
  constructor
  · rintro ⟨new, found, rfl⟩
    rcases List.mem_append.mp found with found | found
    · rcases List.mem_append.mp found with found | found
      · split at found
        next reaches =>
          rw [List.mem_singleton.mp found]
          exact .inl (.overlaps unordered reaches)
        next => cases found
      · split at found
        next reaches =>
          rw [List.mem_singleton.mp found]
          exact .inl (.contains unordered reaches.2)
        next => cases found
    · split at found
      next reaches =>
        rw [List.mem_singleton.mp found]
        refine .inr (.contains (unordered.symm meets) ?_)
        rw [containment, overlapPixels_comm b a]
        exact reaches.2
      next => cases found
  · have here : ∀ {P : Prop} [Decidable P] {new : Addition}, P → new ∈ (if P then [new] else []) := by
      intro P _ new holds
      rw [if_pos holds]
      exact List.mem_singleton_self new
    rintro (seen | seen)
    · cases seen with
      | occludes nearer => exact absurd nearer unordered.not_nearer
      | occludedBy nearer => exact absurd nearer unordered.not_nearer
      | overlaps _ reaches =>
        exact ⟨_, List.mem_append_left _ (List.mem_append_left _ (here reaches)), rfl⟩
      | contains _ reaches =>
        exact ⟨_, List.mem_append_left _ (List.mem_append_right _ (here ⟨Nat.add_pos_left positive _, reaches⟩)),
          rfl⟩
    · cases seen with
      | occludes nearer => exact absurd nearer (unordered.symm meets).not_nearer
      | occludedBy nearer => exact absurd nearer (unordered.symm meets).not_nearer
      | overlaps _ reaches =>
        rw [maskIou_comm] at reaches
        exact ⟨_, List.mem_append_left _ (List.mem_append_left _ (here reaches)),
          congrArg SpatialFact.overlaps Sym2.eq_swap⟩
      | contains _ reaches =>
        rw [containment, overlapPixels_comm b a] at reaches
        exact ⟨_, List.mem_append_right _ (here ⟨Nat.add_pos_left positive _, reaches⟩), rfl⟩

theorem mem_occlusionAdditions_iff (ptsUs : Int) (nearer : Nearer depth a b) (fact : SpatialFact) :
    (∃ new ∈ occlusionAdditions a b ptsUs, new.fact = fact) ↔ PairFact depth a b fact := by
  constructor
  · rintro ⟨new, found, rfl⟩
    rcases List.mem_cons.mp found with rfl | found
    · exact .occludes nearer
    · rw [List.mem_singleton.mp found]
      exact .occludedBy nearer
  · intro seen
    cases seen with
    | occludes => exact ⟨_, List.mem_cons_self, rfl⟩
    | occludedBy => exact ⟨_, List.mem_cons_of_mem _ (List.mem_singleton_self _), rfl⟩
    | overlaps unordered => exact absurd nearer unordered.not_nearer
    | contains unordered => exact absurd nearer unordered.not_nearer

/-- Only the nearer mask sees the other. -/
theorem Nearer.no_fact (meets : Meets a b) (nearer : Nearer depth a b) {fact : SpatialFact} :
    ¬PairFact depth b a fact := by
  obtain ⟨near, far, means, less⟩ := nearer
  have notNearer : ¬Nearer depth b a := by
    rintro ⟨near', far', means', less'⟩
    rw [meanDepths_swap meets, means] at means'
    cases means'
    exact lt_asymm less less'
  have ordered : ¬Unordered depth b a := fun unordered =>
    (unordered.symm meets.symm).not_nearer ⟨near, far, means, less⟩
  intro seen
  cases seen with
  | occludes nearer => exact notNearer nearer
  | occludedBy nearer => exact notNearer nearer
  | overlaps unordered => exact ordered unordered
  | contains unordered => exact ordered unordered

/-- What is reported of two masks is what either sees of the other. -/
theorem mem_pairAdditions_iff (regionPts : String → Option Int) (fact : SpatialFact) :
    (∃ new ∈ pairAdditions depth regionPts a b, new.fact = fact) ↔
      Meets a b ∧ (PairFact depth a b fact ∨ PairFact depth b a fact) := by
  by_cases meets : Meets a b
  · have entered : ¬(a.info.width ≠ b.info.width ∨ a.info.height ≠ b.info.height) := by
      rw [not_or, not_not, not_not]
      exact ⟨meets.1, meets.2.1⟩
    rw [pairAdditions, if_neg entered, if_neg meets.2.2, and_iff_right meets]
    dsimp only
    cases means : meanDepths depth a b with
    | none => exact mem_overlapAdditions_iff _ meets (.inl means) fact
    | some pair =>
      obtain ⟨meanA, meanB⟩ := pair
      have nonneg := meanDepths_nonneg meets means
      dsimp only
      rw [if_neg (by rw [not_or, not_lt, not_lt]; exact nonneg)]
      rcases lt_trichotomy meanA meanB with less | same | greater
      · have nearer : Nearer depth a b := ⟨meanA, meanB, means, less⟩
        rw [if_pos less, mem_occlusionAdditions_iff _ nearer, or_iff_left (nearer.no_fact meets)]
      · subst same
        rw [if_neg (lt_irrefl _), if_neg (lt_irrefl _)]
        exact mem_overlapAdditions_iff _ meets (.inr ⟨meanA, means⟩) fact
      · have nearer : Nearer depth b a :=
          ⟨meanB, meanA, by rw [meanDepths_swap meets, means]; rfl, greater⟩
        rw [if_neg greater.le.not_gt, if_pos greater, mem_occlusionAdditions_iff _ nearer,
          or_iff_right (nearer.no_fact meets.symm)]
  · refine iff_of_false ?_ fun both => meets both.1
    rintro ⟨new, found, -⟩
    unfold pairAdditions at found
    split at found
    next => cases found
    next sizes =>
      split at found
      next => cases found
      next overlap =>
        rw [not_or, not_not, not_not] at sizes
        exact meets ⟨sizes.1, sizes.2, overlap⟩

end

/-! ## All masks of a frame -/

theorem mem_maskPairs_iff {masks : List DecodedMask} {a b : DecodedMask} :
    (a, b) ∈ maskPairs masks ↔ [a, b] <+ masks := by
  induction masks with
  | nil => simp [maskPairs]
  | cons mask rest ih =>
    rw [maskPairs, List.mem_append, ih, List.sublist_cons_iff, or_comm, List.mem_map]
    refine or_congr Iff.rfl ?_
    constructor
    · rintro ⟨other, found, same⟩
      cases same
      exact ⟨_, rfl, List.singleton_sublist.mpr found⟩
    · rintro ⟨others, same, found⟩
      cases same
      exact ⟨b, List.singleton_sublist.mp found, rfl⟩

theorem perm_pair {α : Type} {l : List α} {a b : α} (perm : l.Perm [a, b]) : l = [a, b] ∨ l = [b, a] := by
  match l, perm.length_eq with
  | [first, second], _ =>
    have member : first ∈ [a, b] := perm.mem_iff.mp List.mem_cons_self
    rcases List.mem_cons.mp member with rfl | member
    · exact .inl (congrArg _ (List.singleton_perm_singleton.mp (List.Perm.cons_inv perm) ▸ rfl))
    · obtain rfl := List.mem_singleton.mp member
      have swapped := perm.trans (List.Perm.swap _ _ [])
      exact .inr (congrArg _ (List.singleton_perm_singleton.mp (List.Perm.cons_inv swapped) ▸ rfl))

/-- Two masks of a list, in either order. -/
theorem pair_subperm_iff {α : Type} {l : List α} {a b : α} : [a, b] <+~ l ↔ [a, b] <+ l ∨ [b, a] <+ l := by
  constructor
  · rintro ⟨pair, perm, found⟩
    rcases perm_pair perm with rfl | rfl
    · exact .inl found
    · exact .inr found
  · rintro (found | found)
    · exact found.subperm
    · exact (List.Perm.swap _ _ []).subperm_right.mp found.subperm

/-- A relationship goes from one of the two regions to the other. -/
theorem regions_pairAdditions {depth : Option DepthMap} {regionPts : String → Option Int}
    {a b : DecodedMask} {new : Addition} (found : new ∈ pairAdditions depth regionPts a b) :
    (new.sourceId = a.regionId ∨ new.sourceId = b.regionId) ∧
      (new.targetId = a.regionId ∨ new.targetId = b.regionId) := by
  have occlusion : ∀ {near far : DecodedMask} {ptsUs : Int}, new ∈ occlusionAdditions near far ptsUs →
      (new.sourceId = near.regionId ∧ new.targetId = far.regionId) ∨
        (new.sourceId = far.regionId ∧ new.targetId = near.regionId) := by
    intro near far ptsUs found
    rcases List.mem_cons.mp found with rfl | found
    · exact .inl ⟨rfl, rfl⟩
    · rw [List.mem_singleton.mp found]
      exact .inr ⟨rfl, rfl⟩
  have single : ∀ {P : Prop} [Decidable P] {one : Addition}, new ∈ (if P then [one] else []) → new = one := by
    intro P _ one found
    split at found
    next => exact List.mem_singleton.mp found
    next => cases found
  have overlap : ∀ {ptsUs : Int}, new ∈ overlapAdditions a b ptsUs →
      new.sourceId = a.regionId ∧ new.targetId = b.regionId := by
    intro ptsUs found
    rcases List.mem_append.mp found with found | found
    · rcases List.mem_append.mp found with found | found
      · rw [single found]
        exact ⟨rfl, rfl⟩
      · rw [single found]
        exact ⟨rfl, rfl⟩
    · rw [single found]
      exact ⟨rfl, rfl⟩
  unfold pairAdditions at found
  split at found
  next => cases found
  split at found
  next => cases found
  dsimp only at found
  split at found
  next =>
    split at found
    next => cases found
    split at found
    next => rcases occlusion found with ⟨source, target⟩ | ⟨source, target⟩ <;> simp [source, target]
    split at found
    next => rcases occlusion found with ⟨source, target⟩ | ⟨source, target⟩ <;> simp [source, target]
    next => exact ⟨.inl (overlap found).1, .inr (overlap found).2⟩
  next => exact ⟨.inl (overlap found).1, .inr (overlap found).2⟩

theorem named_pairAdditions {depth : Option DepthMap} {regionPts : String → Option Int} {a b : DecodedMask}
    {new : Addition} (found : new ∈ pairAdditions depth regionPts a b) :
    new.sourceId ≠ "" ∧ new.targetId ≠ "" := by
  obtain ⟨source, target⟩ := regions_pairAdditions found
  have named : ∀ {id : String}, id = a.regionId ∨ id = b.regionId → id ≠ "" := by
    rintro id (rfl | rfl)
    · exact a.info.named
    · exact b.info.named
  exact ⟨named source, named target⟩

section
variable {depth : Option DepthMap} {regionPts : String → Option Int}
  {decode : (info : MaskBlockInfo) → Option (MaskPixels info)}

theorem decodeMasks_eq {pixels : (info : MaskBlockInfo) → MaskPixels info} {masks : List MaskBlockInfo}
    (decodable : ∀ info ∈ masks, decode info = some (pixels info)) :
    decodeMasks decode masks = some (masks.map fun info => ⟨info, pixels info⟩) := by
  induction masks with
  | nil => rfl
  | cons info rest ih =>
    rw [decodeMasks, decodable info List.mem_cons_self,
      ih fun other member => decodable other (List.mem_cons_of_mem _ member)]
    rfl

theorem facts_foldl_add (additions : List Addition)
    (named : ∀ new ∈ additions, new.sourceId ≠ "" ∧ new.targetId ≠ "") (builder : RelationshipBuilder) :
    (additions.foldl RelationshipBuilder.add builder).relationships.map Relationship.fact =
      builder.relationships.map Relationship.fact ++ additions.map Addition.fact := by
  induction additions generalizing builder with
  | nil => simp
  | cons new rest ih =>
    have dangling : ¬(new.sourceId = "" ∨ new.targetId = "") := by
      rw [not_or]
      exact named new List.mem_cons_self
    rw [List.foldl_cons, ih fun other member => named other (List.mem_cons_of_mem _ member),
      RelationshipBuilder.add, if_neg dangling]
    simp [Relationship.fact, Addition.fact]

/-- The facts of a frame. -/
def frameFacts (depth : Option DepthMap) (regionPts : String → Option Int)
    (decode : (info : MaskBlockInfo) → Option (MaskPixels info)) (masks : List MaskBlockInfo) :
    List SpatialFact :=
  (frameRelationships depth regionPts decode ⟨[], 1, 0⟩ masks).relationships.map Relationship.fact

theorem maskPairs_short {masks : List DecodedMask} (short : masks.length < 2) : maskPairs masks = [] := by
  match masks with
  | [] => rfl
  | [mask] => rfl
  | _ :: _ :: _ =>
    rw [List.length_cons, List.length_cons] at short
    omega

theorem frameFacts_eq {pixels : (info : MaskBlockInfo) → MaskPixels info} {masks : List MaskBlockInfo}
    (decodable : ∀ info ∈ masks, decode info = some (pixels info)) :
    frameFacts depth regionPts decode masks =
      ((maskPairs (masks.map fun info => ⟨info, pixels info⟩)).flatMap fun pair =>
        pairAdditions depth regionPts pair.1 pair.2).map Addition.fact := by
  unfold frameFacts frameRelationships
  rw [decodeMasks_eq decodable]
  dsimp only
  split
  next short =>
    rw [maskPairs_short short]
    rfl
  next =>
    rw [facts_foldl_add]
    · rfl
    · intro new found
      obtain ⟨pair, -, found⟩ := List.mem_flatMap.mp found
      exact named_pairAdditions found

/-- A fact of a frame is one that some mask sees of another. -/
theorem mem_frameFacts_iff {pixels : (info : MaskBlockInfo) → MaskPixels info} {masks : List MaskBlockInfo}
    (decodable : ∀ info ∈ masks, decode info = some (pixels info)) (fact : SpatialFact) :
    fact ∈ frameFacts depth regionPts decode masks ↔ ∃ a b, [a, b] <+~ masks ∧
      Meets ⟨a, pixels a⟩ ⟨b, pixels b⟩ ∧ PairFact depth ⟨a, pixels a⟩ ⟨b, pixels b⟩ fact := by
  rw [frameFacts_eq decodable, List.mem_map]
  constructor
  · rintro ⟨new, found, same⟩
    obtain ⟨⟨first, second⟩, paired, found⟩ := List.mem_flatMap.mp found
    obtain ⟨infos, inside, mapped⟩ := List.sublist_map_iff.mp (mem_maskPairs_iff.mp paired)
    match infos, mapped with
    | [a, b], mapped =>
      cases mapped
      obtain ⟨meets, seen | seen⟩ := (mem_pairAdditions_iff regionPts fact).mp ⟨new, found, same⟩
      · exact ⟨a, b, pair_subperm_iff.mpr (.inl inside), meets, seen⟩
      · exact ⟨b, a, pair_subperm_iff.mpr (.inr inside), meets.symm, seen⟩
  · rintro ⟨a, b, inside, meets, seen⟩
    have added : ∀ {first second : MaskBlockInfo}, [first, second] <+ masks →
        (∃ new ∈ pairAdditions depth regionPts ⟨first, pixels first⟩ ⟨second, pixels second⟩, new.fact = fact) →
        ∃ new ∈ (maskPairs (masks.map fun info => ⟨info, pixels info⟩)).flatMap fun pair =>
          pairAdditions depth regionPts pair.1 pair.2, new.fact = fact := by
      rintro first second inside ⟨new, found, same⟩
      have paired := mem_maskPairs_iff.mpr (inside.map fun info => (⟨info, pixels info⟩ : DecodedMask))
      exact ⟨new, List.mem_flatMap.mpr ⟨_, paired, found⟩, same⟩
    rcases pair_subperm_iff.mp inside with inside | inside
    · exact added inside ((mem_pairAdditions_iff regionPts fact).mpr ⟨meets, .inl seen⟩)
    · exact added inside ((mem_pairAdditions_iff regionPts fact).mpr ⟨meets.symm, .inr seen⟩)

end

/-! ## Exact ratios -/

theorem overlap_add_only_le (a b : DecodedMask) : overlapPixels a b + onlyPixels a b ≤ a.pixels.length := by
  have split : overlapPixels a b + onlyPixels a b =
      (a.pixels.zip b.pixels).countP fun pixel => decide (pixel.1 ≠ 0) := by
    unfold overlapPixels onlyPixels
    induction a.pixels.zip b.pixels with
    | nil => rfl
    | cons pixel rest ih =>
      rw [List.countP_cons, List.countP_cons, List.countP_cons, ← ih]
      have one : (if decide (pixel.1 ≠ 0 ∧ pixel.2 ≠ 0) = true then 1 else 0) +
          (if decide (pixel.1 ≠ 0 ∧ pixel.2 = 0) = true then 1 else 0) =
            if decide (pixel.1 ≠ 0) = true then 1 else 0 := by
        by_cases left : pixel.1 = 0 <;> by_cases right : pixel.2 = 0 <;> simp [left, right]
      omega
  rw [split]
  refine List.countP_le_length.trans ?_
  rw [List.length_zip]
  exact Nat.min_le_left _ _

theorem ratio_reaches_iff {n d part whole : Nat} (dPos : 0 < d) (wholePos : 0 < whole) (small : n ≤ d)
    (inside : part ≤ whole) (short : d * whole < 2 ^ 52) :
    round64 (n / d) ≤ ratio part whole ↔ n * whole ≤ part * d := by
  have fits : whole < 2 ^ 53 := by
    have := Nat.le_mul_of_pos_left whole dPos
    omega
  unfold ratio
  rw [Lib.round64_natCast fits, Lib.round64_natCast (inside.trans_lt fits)]
  exact Lib.round64_ratio_le_iff dPos wholePos small inside short

/-- For masks that a memory holds the thresholds are exact. -/
theorem thresholds_exact {a b : DecodedMask} (meets : Meets a b)
    (small : a.info.width * a.info.height < 2 ^ 47) :
    (kMaskIoUThreshold ≤ maskIou a b ↔
      overlapPixels a b + onlyPixels a b + onlyPixels b a ≤ 10 * overlapPixels a b) ∧
    (kMaskContainmentThreshold ≤ containment a b ↔
      8 * (overlapPixels a b + onlyPixels b a) ≤ 10 * overlapPixels a b) := by
  have positive := Nat.pos_of_ne_zero meets.2.2
  have first := overlap_add_only_le a b
  have second := overlap_add_only_le b a
  rw [overlapPixels_comm b a] at second
  have aSize : a.pixels.length < 2 ^ 47 := a.decoded.property.trans_lt small
  have bSize : b.pixels.length < 2 ^ 47 := by
    refine b.decoded.property.trans_lt ?_
    rwa [← meets.1, ← meets.2.1]
  have iou := @ratio_reaches_iff 1 10 (overlapPixels a b)
    (overlapPixels a b + onlyPixels a b + onlyPixels b a) (by decide) (by omega) (by decide) (by omega)
    (by omega)
  have inner := @ratio_reaches_iff 8 10 (overlapPixels a b) (overlapPixels a b + onlyPixels b a)
    (by decide) (by omega) (by decide) (by omega) (by omega)
  push_cast at iou inner
  unfold kMaskIoUThreshold kMaskContainmentThreshold maskIou containment
  rw [iou, inner]
  constructor <;> omega

/-! ## The frame -/

/-- The facts of a frame do not depend on the order of its masks, occlusions come with their
inverse, and masks that depth does not order overlap and contain each other as their pixels
say. -/
theorem frameRelationships_spec (depth : Option DepthMap) (regionPts : String → Option Int)
    (decode : (info : MaskBlockInfo) → Option (MaskPixels info))
    (pixels : (info : MaskBlockInfo) → MaskPixels info) (masks : List MaskBlockInfo)
    (decodable : ∀ info ∈ masks, decode info = some (pixels info)) :
    (∀ reordered, reordered.Perm masks → ∀ fact,
      fact ∈ frameFacts depth regionPts decode reordered ↔ fact ∈ frameFacts depth regionPts decode masks) ∧
    (∀ near far, .occludes near far ∈ frameFacts depth regionPts decode masks ↔
      .occludedBy far near ∈ frameFacts depth regionPts decode masks) ∧
    (∀ regions, .overlaps regions ∈ frameFacts depth regionPts decode masks ↔ ∃ a b, [a, b] <+~ masks ∧
      s(a.regionId, b.regionId) = regions ∧ Meets ⟨a, pixels a⟩ ⟨b, pixels b⟩ ∧
      Unordered depth ⟨a, pixels a⟩ ⟨b, pixels b⟩ ∧
      kMaskIoUThreshold ≤ maskIou ⟨a, pixels a⟩ ⟨b, pixels b⟩) ∧
    (∀ outer inner, .contains outer inner ∈ frameFacts depth regionPts decode masks ↔ ∃ a b,
      [a, b] <+~ masks ∧ a.regionId = outer ∧ b.regionId = inner ∧ Meets ⟨a, pixels a⟩ ⟨b, pixels b⟩ ∧
      Unordered depth ⟨a, pixels a⟩ ⟨b, pixels b⟩ ∧
      kMaskContainmentThreshold ≤ containment ⟨a, pixels a⟩ ⟨b, pixels b⟩) ∧
    ∀ a b : DecodedMask, Meets a b → a.info.width * a.info.height < 2 ^ 47 →
      (kMaskIoUThreshold ≤ maskIou a b ↔
        overlapPixels a b + onlyPixels a b + onlyPixels b a ≤ 10 * overlapPixels a b) ∧
      (kMaskContainmentThreshold ≤ containment a b ↔
        8 * (overlapPixels a b + onlyPixels b a) ≤ 10 * overlapPixels a b) := by
  refine ⟨?_, ?_, ?_, ?_, fun a b => thresholds_exact⟩
  · intro reordered perm fact
    rw [mem_frameFacts_iff decodable,
      mem_frameFacts_iff fun info member => decodable info (perm.mem_iff.mp member)]
    simp only [perm.subperm_left]
  · intro near far
    rw [mem_frameFacts_iff decodable, mem_frameFacts_iff decodable]
    constructor
    · rintro ⟨a, b, inside, meets, seen⟩
      cases seen with
      | occludes nearer => exact ⟨a, b, inside, meets, .occludedBy nearer⟩
    · rintro ⟨a, b, inside, meets, seen⟩
      cases seen with
      | occludedBy nearer => exact ⟨a, b, inside, meets, .occludes nearer⟩
  · intro regions
    rw [mem_frameFacts_iff decodable]
    constructor
    · rintro ⟨a, b, inside, meets, seen⟩
      cases seen with
      | overlaps unordered reaches => exact ⟨a, b, inside, rfl, meets, unordered, reaches⟩
    · rintro ⟨a, b, inside, rfl, meets, unordered, reaches⟩
      exact ⟨a, b, inside, meets, .overlaps unordered reaches⟩
  · intro outer inner
    rw [mem_frameFacts_iff decodable]
    constructor
    · rintro ⟨a, b, inside, meets, seen⟩
      cases seen with
      | contains unordered reaches => exact ⟨a, b, inside, rfl, rfl, meets, unordered, reaches⟩
    · rintro ⟨a, b, inside, rfl, rfl, meets, unordered, reaches⟩
      exact ⟨a, b, inside, meets, .contains unordered reaches⟩

/-- Two masks of two pixels, one of them full and one half full. -/
def halfMasks (info : MaskBlockInfo) : MaskPixels info :=
  if info.maskId = "full" then ⟨List.replicate (info.width * info.height) 1, List.length_replicate⟩
  else
    ⟨(List.range (info.width * info.height)).map fun p => if p = 0 then 1 else 0, by
      rw [List.length_map, List.length_range]⟩

theorem frameRelationships_twoMasks :
    SpatialFact.contains "big" "small" ∈ frameFacts none (fun _ => none) (fun info => some (halfMasks info))
        [⟨"half", "small", "f", 2, 1, by decide, by decide⟩, ⟨"full", "big", "f", 2, 1, by decide, by decide⟩] ↔
      SpatialFact.contains "big" "small" ∈ frameFacts none (fun _ => none) (fun info => some (halfMasks info))
        [⟨"full", "big", "f", 2, 1, by decide, by decide⟩,
          ⟨"half", "small", "f", 2, 1, by decide, by decide⟩] :=
  (frameRelationships_spec none (fun _ => none) (fun info => some (halfMasks info)) halfMasks _
    fun _ _ => rfl).1 _ (List.Perm.swap _ _ []) _

/-- The larger mask contains the smaller one, or that is contained in it, as the records come;
and where depth orders the two, neither is reported. -/
theorem containment_follows_order :
    (frameRelationships none (fun _ => none) (fun info => some (halfMasks info)) ⟨[], 1, 0⟩
        [⟨"full", "big", "f", 2, 1, by decide, by decide⟩,
          ⟨"half", "small", "f", 2, 1, by decide, by decide⟩]).relationships.map
        (fun relationship => (relationship.type, relationship.sourceId, relationship.targetId)) =
      [(.overlaps, "big", "small"), (.contains, "big", "small")] ∧
    (frameRelationships none (fun _ => none) (fun info => some (halfMasks info)) ⟨[], 1, 0⟩
        [⟨"half", "small", "f", 2, 1, by decide, by decide⟩,
          ⟨"full", "big", "f", 2, 1, by decide, by decide⟩]).relationships.map
        (fun relationship => (relationship.type, relationship.sourceId, relationship.targetId)) =
      [(.overlaps, "small", "big"), (.containedBy, "small", "big")] ∧
    (frameRelationships (some ⟨2, 1, [1, 2], rfl⟩) (fun _ => none) (fun info => some (halfMasks info))
        ⟨[], 1, 0⟩ [⟨"full", "big", "f", 2, 1, by decide, by decide⟩,
          ⟨"half", "small", "f", 2, 1, by decide, by decide⟩]).relationships.map
        (fun relationship => (relationship.type, relationship.sourceId, relationship.targetId)) =
      [(.occludes, "small", "big"), (.occludedBy, "big", "small")] := by
  refine ⟨?_, ?_, ?_⟩ <;> decide +kernel

end Svp.Package
