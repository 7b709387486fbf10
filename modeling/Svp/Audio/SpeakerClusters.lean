import Svp.Lib.OrderedMap

/-!
# Clusters of speaker observations

`clusterSpeakerObservations` merges the two most similar clusters as long as their
similarity is above a floor, may go back to the clusters before the largest drop in
similarity, and numbers the clusters in order of their earliest start. Two observations
that must not be linked keep their clusters apart because such clusters have the
similarity -2, which no merge is made for (`clusterSpeakerObservations_respects`).
-/

namespace Svp.Audio

open Lib (OrderedMap)

/-- The floating-point operations and constants of the clustering. What is no number
compares with nothing. -/
structure SimilarityArithmetic (F : Type) where
  zero : F
  /-- -2, the similarity of clusters that cannot merge. -/
  sentinel : F
  /-- 0.14 -/
  kGlobalSpeakerObservationFloorSimilarity : F
  /-- 0.10 -/
  kGlobalSpeakerObservationMinGap : F
  add : F → F → F
  sub : F → F → F
  divide : F → Nat → F
  lt : F → F → Bool
  le : F → F → Bool
  lt_irrefl : ∀ a, lt a a = false
  lt_trans : ∀ a b c, lt a b = true → lt b c = true → lt a c = true
  sentinel_lt_floor : lt sentinel kGlobalSpeakerObservationFloorSimilarity = true

structure SpeakerObservation (E T : Type) where
  observationId : Int
  firstStartSec : T
  embedding : E

/-- What a clustering is made from. -/
structure ClusteringInput (F E T : Type) where
  float : SimilarityArithmetic F
  cosineSimilarity : E → E → F
  hasEmbeddingSignal : E → Bool
  observations : List (SpeakerObservation E T)
  cannotLinkObservations : Finset (Int × Int)

variable {F E T : Type}

/-- The positions of the observations of a cluster. -/
abbrev Cluster (input : ClusteringInput F E T) := List (Fin input.observations.length)

structure MergeStep (input : ClusteringInput F E T) where
  clustersAfter : List (Cluster input)
  similarity : F

namespace ClusteringInput

variable (input : ClusteringInput F E T)

/-- The pair is looked up with the smaller id first. -/
def cannotLink (i j : Fin input.observations.length) : Bool :=
  let a := (input.observations.get i).observationId
  let b := (input.observations.get j).observationId
  decide ((min a b, max a b) ∈ input.cannotLinkObservations)

def clustersCanMerge (a b : Cluster input) : Bool :=
  a.all fun ai => b.all fun bi => !input.cannotLink ai bi

def hasSignal (i : Fin input.observations.length) : Bool :=
  input.hasEmbeddingSignal (input.observations.get i).embedding

/-- The similarities of the pairs that have a signal. -/
def signalSimilarities (a b : Cluster input) : List F :=
  (a.filter input.hasSignal).flatMap fun ai => (b.filter input.hasSignal).map fun bi =>
    input.cosineSimilarity (input.observations.get ai).embedding
      (input.observations.get bi).embedding

def clusterSimilarity (a b : Cluster input) : F :=
  if input.clustersCanMerge a b then
    match input.signalSimilarities a b with
    | [] => input.float.sentinel
    | similarities =>
      input.float.divide (similarities.foldl input.float.add input.float.zero) similarities.length
  else input.float.sentinel

/-- The pairs of positions, the smaller one first, in the order of the loops. -/
def positionPairs (n : Nat) : List (Nat × Nat) :=
  (List.range n).flatMap fun i => (List.range' (i + 1) (n - (i + 1))).map fun j => (i, j)

def pairSimilarity (clusters : List (Cluster input)) (pair : Nat × Nat) : F :=
  input.clusterSimilarity (clusters.getD pair.1 []) (clusters.getD pair.2 [])

def betterPair (clusters : List (Cluster input)) (best : F × Nat × Nat) (pair : Nat × Nat) :
    F × Nat × Nat :=
  if input.float.lt best.1 (input.pairSimilarity clusters pair) then
    (input.pairSimilarity clusters pair, pair)
  else best

/-- The most similar pair of clusters; (0, 0) where none is above the sentinel. -/
def bestPair (clusters : List (Cluster input)) : F × Nat × Nat :=
  (positionPairs clusters.length).foldl (input.betterPair clusters) (input.float.sentinel, 0, 0)

variable {input}

def mergeClusters (clusters : List (Cluster input)) (a b : Nat) : List (Cluster input) :=
  (clusters.set a (clusters.getD a [] ++ clusters.getD b [])).eraseIdx b

theorem mem_positionPairs {n : Nat} {pair : Nat × Nat} :
    pair ∈ positionPairs n ↔ pair.1 < pair.2 ∧ pair.2 < n := by
  obtain ⟨i, j⟩ := pair
  simp only [positionPairs, List.mem_flatMap, List.mem_range, List.mem_map, List.mem_range'_1,
    Prod.mk.injEq]
  constructor
  · rintro ⟨i', _, j', ⟨from_, before⟩, rfl, rfl⟩
    omega
  · rintro ⟨less, inside⟩
    exact ⟨i, less.trans inside, j, ⟨less, by omega⟩, rfl, rfl⟩

/-- The search finds nothing above the sentinel, or a pair that is. -/
theorem bestPair_cases (clusters : List (Cluster input)) :
    input.bestPair clusters = (input.float.sentinel, 0, 0) ∨
      ∃ pair ∈ positionPairs clusters.length,
        input.bestPair clusters = (input.pairSimilarity clusters pair, pair) ∧
        input.float.lt input.float.sentinel (input.pairSimilarity clusters pair) = true := by
  refine List.foldlRecOn (motive := fun best => best = (input.float.sentinel, 0, 0) ∨
    ∃ pair ∈ positionPairs clusters.length, best = (input.pairSimilarity clusters pair, pair) ∧
      input.float.lt input.float.sentinel (input.pairSimilarity clusters pair) = true)
    _ _ (.inl rfl) fun best found pair mem => ?_
  rw [betterPair]
  by_cases better : input.float.lt best.1 (input.pairSimilarity clusters pair) = true
  · refine .inr ⟨pair, mem, if_pos better, ?_⟩
    rcases found with rfl | ⟨other, _, rfl, above⟩
    · exact better
    · exact input.float.lt_trans _ _ _ above better
  · rwa [if_neg better]

/-- The second of the best pair is a position of the list. -/
theorem bestPair_lt {clusters : List (Cluster input)} (some_ : clusters ≠ []) :
    (input.bestPair clusters).2.2 < clusters.length := by
  rcases bestPair_cases clusters with none | ⟨pair, mem, found, _⟩
  · rw [none]
    exact List.length_pos_of_ne_nil some_
  · rw [found]
    exact (mem_positionPairs.mp mem).2

theorem length_mergeClusters {clusters : List (Cluster input)} {a b : Nat}
    (inside : b < clusters.length) : (mergeClusters clusters a b).length = clusters.length - 1 := by
  rw [mergeClusters, List.length_eraseIdx_of_lt (by rwa [List.length_set]), List.length_set]

variable (input)

/-- The merges and the clusters they end with. -/
def mergeLoop (clusters : List (Cluster input)) : List (MergeStep input) × List (Cluster input) :=
  if _more : clusters.length ≤ 1 then ([], clusters)
  else
    let best := input.bestPair clusters
    if input.float.lt best.1 input.float.kGlobalSpeakerObservationFloorSimilarity then ([], clusters)
    else
      let merged := mergeClusters clusters best.2.1 best.2.2
      let later := mergeLoop merged
      (⟨merged, best.1⟩ :: later.1, later.2)
termination_by clusters.length
decreasing_by
  have some_ : clusters ≠ [] := fun none => _more (none ▸ Nat.zero_le 1)
  rw [length_mergeClusters (bestPair_lt some_)]
  exact Nat.sub_one_lt_of_lt (List.length_pos_of_ne_nil some_)

/-- The largest drop in similarity from a merge to the next, and the merge before it. -/
def largestGap (steps : List (MergeStep input)) : F × Nat :=
  (steps.zip steps.tail).zipIdx.foldl (fun largest entry =>
    let gap := input.float.sub entry.1.1.similarity entry.1.2.similarity
    if input.float.lt largest.1 gap then (gap, entry.2) else largest)
    (input.float.zero, steps.length - 1)

/-- The clusters after the gap cut. -/
def gapCut (steps : List (MergeStep input)) (clusters : List (Cluster input)) :
    List (Cluster input) :=
  if 1 < steps.length then
    let largest := input.largestGap steps
    if input.float.le input.float.kGlobalSpeakerObservationMinGap largest.1 then
      steps[largest.2]?.elim clusters MergeStep.clustersAfter
    else clusters
  else clusters

/-- The map from the observations to the positions of their clusters. -/
def numberClusters (clusters : List (Cluster input)) : OrderedMap Int Nat :=
  clusters.zipIdx.foldl (fun map entry => entry.1.foldl (fun map i =>
    map.insert (input.observations.get i).observationId entry.2) map) .empty

section Starts

variable [LinearOrder T]

def earliestStart (cluster : Cluster input) : WithTop T :=
  (cluster.map fun i => ((input.observations.get i).firstStartSec : WithTop T)).foldr min ⊤

/-- `std::sort` by the earliest start leaves the order of equal starts open. -/
structure StartSort where
  sort : List (Cluster input) → List (Cluster input)
  perm : ∀ clusters, (sort clusters).Perm clusters
  sorted : ∀ clusters, (sort clusters).Pairwise fun a b =>
    ¬ input.earliestStart b < input.earliestStart a

def clusterSpeakerObservations (starts : input.StartSort) : OrderedMap Int Nat :=
  if input.observations = [] then .empty
  else
    let singles := (List.finRange input.observations.length).map fun i => [i]
    let merged := input.mergeLoop singles
    input.numberClusters (starts.sort (input.gapCut merged.1 merged.2))

end Starts

/-! ## Merging keeps the clusters sound -/

variable {input}

theorem canMerge_iff {a b : Cluster input} : input.clustersCanMerge a b = true ↔
    ∀ i ∈ a, ∀ j ∈ b, input.cannotLink i j = false := by
  simp only [clustersCanMerge, List.all_eq_true, Bool.not_eq_true']

theorem cannotLink_comm (i j : Fin input.observations.length) :
    input.cannotLink i j = input.cannotLink j i := by
  simp only [cannotLink, min_comm, max_comm]

/-- Clusters that may not merge are no more similar than the sentinel. -/
theorem canMerge_of_sentinel_lt {a b : Cluster input}
    (above : input.float.lt input.float.sentinel (input.clusterSimilarity a b) = true) :
    input.clustersCanMerge a b = true := by
  by_contra apart
  rw [clusterSimilarity, if_neg apart, input.float.lt_irrefl] at above
  exact Bool.false_ne_true above

/-- Every observation is in one cluster, and none is with one it cannot be linked with. -/
structure Sound (clusters : List (Cluster input)) : Prop where
  perm : clusters.flatten.Perm (List.finRange input.observations.length)
  nonempty : ∀ cluster ∈ clusters, cluster ≠ []
  apart : ∀ cluster ∈ clusters, ∀ i ∈ cluster, ∀ j ∈ cluster, i ≠ j → input.cannotLink i j = false

/-- A list around two of its positions. -/
theorem exists_around {α : Type} {l : List α} {a b : Nat} (less : a < b) (inside : b < l.length) :
    ∃ before between after x y, l = before ++ x :: (between ++ y :: after) ∧ before.length = a ∧
      before.length + (between.length + 1) = b := by
  have first : l.drop a = l.get ⟨a, less.trans inside⟩ :: l.drop (a + 1) :=
    List.drop_eq_getElem_cons _
  have second : l.drop b = l[b] :: l.drop (b + 1) := List.drop_eq_getElem_cons _
  have rest : (l.drop (a + 1)).take (b - (a + 1)) ++ l.drop b = l.drop (a + 1) := by
    have parts := List.take_append_drop (b - (a + 1)) (l.drop (a + 1))
    rwa [List.drop_drop, Nat.add_sub_cancel' less] at parts
  refine ⟨l.take a, (l.drop (a + 1)).take (b - (a + 1)), l.drop (b + 1),
    l.get ⟨a, less.trans inside⟩, l[b], ?_, List.length_take_of_le (less.trans inside).le, ?_⟩
  · rw [← second, rest, ← first, List.take_append_drop]
  · rw [List.length_take_of_le (less.trans inside).le, List.length_take, List.length_drop]
    omega

theorem getD_around {α : Type} (before between after : List α) (x y d : α) :
    (before ++ x :: (between ++ y :: after)).getD before.length d = x ∧
      (before ++ x :: (between ++ y :: after)).getD (before.length + (between.length + 1)) d = y := by
  constructor
  · rw [List.getD_append_right _ _ _ _ le_rfl, Nat.sub_self, List.getD_cons_zero]
  · rw [List.getD_append_right _ _ _ _ (Nat.le_add_right _ _), Nat.add_sub_cancel_left,
      List.getD_cons_succ, List.getD_append_right _ _ _ _ le_rfl, Nat.sub_self, List.getD_cons_zero]

theorem mergeClusters_around (before between after : List (Cluster input)) (ca cb : Cluster input) :
    mergeClusters (before ++ ca :: (between ++ cb :: after)) before.length
      (before.length + (between.length + 1)) = before ++ (ca ++ cb) :: (between ++ after) := by
  obtain ⟨atA, atB⟩ := getD_around before between after ca cb []
  rw [mergeClusters, atA, atB, List.set_append_right _ _ le_rfl, Nat.sub_self, List.set_cons_zero,
    List.eraseIdx_append_of_length_le (Nat.le_add_right _ _), Nat.add_sub_cancel_left,
    List.eraseIdx_cons_succ, List.eraseIdx_append_of_length_le le_rfl, Nat.sub_self]
  rfl

theorem Sound.merge_around {before between after : List (Cluster input)} {ca cb : Cluster input}
    (sound : Sound (before ++ ca :: (between ++ cb :: after)))
    (canMerge : input.clustersCanMerge ca cb = true) :
    Sound (before ++ (ca ++ cb) :: (between ++ after)) where
  perm := by
    refine List.Perm.trans ?_ sound.perm
    simp only [List.flatten_append, List.flatten_cons, List.append_assoc]
    refine (List.Perm.append_left ca ?_).append_left before.flatten
    exact List.perm_append_comm_assoc cb between.flatten after.flatten
  nonempty cluster mem := by
    have all := sound.nonempty
    simp only [List.mem_append, List.mem_cons] at mem all
    rcases mem with old | rfl | old | old
    · exact all _ (.inl old)
    · exact fun none => all ca (.inr (.inl rfl)) (List.append_eq_nil_iff.mp none).1
    · exact all _ (.inr (.inr (.inl old)))
    · exact all _ (.inr (.inr (.inr (.inr old))))
  apart cluster mem := by
    have all := sound.apart
    simp only [List.mem_append, List.mem_cons] at mem all
    rcases mem with old | rfl | old | old
    · exact all _ (.inl old)
    · have left := all ca (.inr (.inl rfl))
      have right := all cb (.inr (.inr (.inr (.inl rfl))))
      have across := canMerge_iff.mp canMerge
      intro i memI j memJ ne
      rcases List.mem_append.mp memI with inA | inB <;> rcases List.mem_append.mp memJ with inA' | inB'
      · exact left i inA j inA' ne
      · exact across i inA j inB'
      · exact (cannotLink_comm i j).trans (across j inA' i inB)
      · exact right i inB j inB' ne
    · exact all _ (.inr (.inr (.inl old)))
    · exact all _ (.inr (.inr (.inr (.inr old))))

theorem Sound.merge {clusters : List (Cluster input)} {a b : Nat} (sound : Sound clusters)
    (less : a < b) (inside : b < clusters.length)
    (canMerge : input.clustersCanMerge (clusters.getD a []) (clusters.getD b []) = true) :
    Sound (mergeClusters clusters a b) := by
  obtain ⟨before, between, after, ca, cb, rfl, rfl, rfl⟩ := exists_around less inside
  obtain ⟨atA, atB⟩ := getD_around before between after ca cb []
  rw [atA, atB] at canMerge
  rw [mergeClusters_around]
  exact sound.merge_around canMerge

/-- A sequence of merges, none below the floor. -/
inductive MergeRun : List (Cluster input) → List (MergeStep input) → Prop
  | nil {clusters} : MergeRun clusters []
  | cons {clusters step steps a b} : a < b → b < clusters.length →
      step.clustersAfter = mergeClusters clusters a b →
      step.similarity = input.pairSimilarity clusters (a, b) →
      input.float.lt step.similarity input.float.kGlobalSpeakerObservationFloorSimilarity = false →
      MergeRun step.clustersAfter steps → MergeRun clusters (step :: steps)

/-- The loop's merges are above the floor, and keep the clusters sound. -/
theorem mergeLoop_sound {clusters : List (Cluster input)} (sound : Sound clusters) :
    MergeRun clusters (input.mergeLoop clusters).1 ∧
      (∀ step ∈ (input.mergeLoop clusters).1, Sound step.clustersAfter) ∧
      Sound (input.mergeLoop clusters).2 := by
  fun_induction mergeLoop input clusters with
  | case1 clusters few => exact ⟨.nil, fun _ mem => absurd mem List.not_mem_nil, sound⟩
  | case2 clusters more best below => exact ⟨.nil, fun _ mem => absurd mem List.not_mem_nil, sound⟩
  | case3 clusters more best above merged later ih =>
    rw [Bool.not_eq_true] at above
    obtain none | ⟨⟨a, b⟩, mem, found, signal⟩ := bestPair_cases clusters
    · have low := input.float.sentinel_lt_floor
      rw [show best = _ from none] at above
      exact absurd (above.symm.trans low) Bool.false_ne_true
    · obtain ⟨less, inside⟩ := mem_positionPairs.mp mem
      have chosen : best = (input.pairSimilarity clusters (a, b), a, b) := found
      have same : merged = mergeClusters clusters a b := by simp only [merged, chosen]
      have soundMerged : Sound merged :=
        same ▸ sound.merge less inside (canMerge_of_sentinel_lt signal)
      obtain ⟨run, steps, ends⟩ := ih soundMerged
      refine ⟨.cons less inside same (congrArg Prod.fst chosen) above run, fun step memStep => ?_, ends⟩
      rcases List.mem_cons.mp memStep with rfl | memStep
      · exact soundMerged
      · exact steps step memStep

/-- The gap cut goes back to the clusters after a merge, or keeps the last ones. -/
theorem gapCut_cases (steps : List (MergeStep input)) (clusters : List (Cluster input)) :
    input.gapCut steps clusters = clusters ∨
      ∃ step ∈ steps, input.gapCut steps clusters = step.clustersAfter := by
  simp only [gapCut]
  split
  · split
    · cases at_ : steps[(input.largestGap steps).2]? with
      | none => exact .inl rfl
      | some step => exact .inr ⟨step, List.mem_of_getElem? at_, rfl⟩
    · exact .inl rfl
  · exact .inl rfl

theorem sound_singles : Sound ((List.finRange input.observations.length).map fun i => ([i] : Cluster input)) where
  perm := by
    rw [← List.flatMap_def, List.flatMap_singleton']
  nonempty cluster mem := by
    obtain ⟨i, _, rfl⟩ := List.mem_map.mp mem
    exact List.cons_ne_nil i []
  apart cluster mem i memI j memJ ne := by
    obtain ⟨k, _, rfl⟩ := List.mem_map.mp mem
    exact absurd ((List.mem_singleton.mp memI).trans (List.mem_singleton.mp memJ).symm) ne

/-- The order of the clusters does not matter. -/
theorem Sound.of_perm {clusters clusters' : List (Cluster input)} (sound : Sound clusters)
    (perm : clusters'.Perm clusters) : Sound clusters' where
  perm := perm.flatten.trans sound.perm
  nonempty cluster mem := sound.nonempty cluster (perm.mem_iff.mp mem)
  apart cluster mem := sound.apart cluster (perm.mem_iff.mp mem)

/-! ## Numbering -/

/-- The observations with the positions of their clusters. -/
def numbered (clusters : List (Cluster input)) : List (Int × Nat) :=
  clusters.zipIdx.flatMap fun entry => entry.1.map fun i =>
    ((input.observations.get i).observationId, entry.2)

theorem numberClusters_eq (clusters : List (Cluster input)) : input.numberClusters clusters =
    (numbered clusters).foldl (fun map entry => map.insert entry.1 entry.2) .empty := by
  rw [numberClusters, numbered, List.foldl_flatMap]
  simp only [List.foldl_map]

theorem mem_numbered {clusters : List (Cluster input)} {id : Int} {p : Nat} :
    (id, p) ∈ numbered clusters ↔ ∃ cluster, clusters[p]? = some cluster ∧
      ∃ i ∈ cluster, (input.observations.get i).observationId = id := by
  rw [numbered, List.mem_flatMap]
  constructor
  · rintro ⟨⟨cluster, q⟩, at_, mem⟩
    obtain ⟨i, inside, same⟩ := List.mem_map.mp mem
    obtain ⟨rfl, rfl⟩ := Prod.mk.inj same
    exact ⟨cluster, List.mem_zipIdx_iff_getElem?.mp at_, i, inside, rfl⟩
  · rintro ⟨cluster, at_, i, inside, rfl⟩
    exact ⟨(cluster, p), List.mem_zipIdx_iff_getElem?.mpr at_, List.mem_map.mpr ⟨i, inside, rfl⟩⟩

theorem map_fst_numbered (clusters : List (Cluster input)) : (numbered clusters).map Prod.fst =
    clusters.flatten.map fun i => (input.observations.get i).observationId := by
  have firsts : clusters.zipIdx.map Prod.fst = clusters := List.zipIdx_map_fst 0 clusters
  calc (numbered clusters).map Prod.fst
      = clusters.zipIdx.flatMap fun entry => entry.1.map fun i =>
          (input.observations.get i).observationId := by
        rw [numbered, List.map_flatMap]
        simp only [List.map_map, Function.comp_def]
    _ = (clusters.zipIdx.map Prod.fst).flatMap fun cluster => cluster.map fun i =>
          (input.observations.get i).observationId := by rw [List.flatMap_map]
    _ = clusters.flatten.map fun i => (input.observations.get i).observationId := by
        rw [firsts, List.map_flatten, List.flatMap_def]

/-- The map has for every observation the position of its cluster. -/
theorem find?_numberClusters {clusters : List (Cluster input)} (sound : Sound clusters)
    (distinct : (input.observations.map SpeakerObservation.observationId).Nodup) {id : Int} {p : Nat} :
    (input.numberClusters clusters).find? id = some p ↔ ∃ cluster, clusters[p]? = some cluster ∧
      ∃ i ∈ cluster, (input.observations.get i).observationId = id := by
  have keys : ((numbered clusters).map Prod.fst).Nodup := by
    have ids : (List.finRange input.observations.length).map
        (fun i => (input.observations.get i).observationId) =
        input.observations.map SpeakerObservation.observationId := by
      have all := congrArg (List.map SpeakerObservation.observationId)
        (List.map_get_finRange input.observations)
      rwa [List.map_map] at all
    rw [map_fst_numbered, (sound.perm.map _).nodup_iff, ids]
    exact distinct
  rw [OrderedMap.find?_eq_some, numberClusters_eq, OrderedMap.mem_foldl_insert _ _ keys,
    OrderedMap.entries_empty, mem_numbered]
  simp only [List.not_mem_nil, and_false, or_false]

section Result

variable [LinearOrder T]

/-- Every observation has one of the speakers 0..k-1, every speaker an observation, the
speakers are in order of their earliest start, and the constraints hold. -/
structure Respects (input : ClusteringInput F E T) (final : OrderedMap Int Nat) (k : Nat) : Prop where
  each : ∀ o ∈ input.observations, ∃ p < k, final.find? o.observationId = some p
  only : ∀ id p, final.find? id = some p → ∃ o ∈ input.observations, o.observationId = id
  onto : ∀ p < k, ∃ o ∈ input.observations, final.find? o.observationId = some p
  ordered : ∀ o ∈ input.observations, ∀ o' ∈ input.observations, ∀ p q,
    final.find? o.observationId = some p → final.find? o'.observationId = some q → p < q →
      ∃ first ∈ input.observations, final.find? first.observationId = some p ∧
        first.firstStartSec ≤ o'.firstStartSec
  apart : ∀ link ∈ input.cannotLinkObservations, ∀ p, final.find? link.1 = some p →
    final.find? link.2 = some p → link.1 = link.2

theorem earliestStart_le {cluster : Cluster input} {i : Fin input.observations.length}
    (mem : i ∈ cluster) :
    input.earliestStart cluster ≤ ((input.observations.get i).firstStartSec : WithTop T) := by
  induction cluster with
  | nil => exact absurd mem List.not_mem_nil
  | cons j rest ih =>
    rcases List.mem_cons.mp mem with rfl | mem
    · exact min_le_left _ _
    · exact (min_le_right _ _).trans (ih mem)

/-- The earliest start of a cluster is that of one of its observations. -/
theorem exists_earliestStart {cluster : Cluster input} (nonempty : cluster ≠ []) :
    ∃ i ∈ cluster, input.earliestStart cluster =
      ((input.observations.get i).firstStartSec : WithTop T) := by
  induction cluster with
  | nil => exact absurd rfl nonempty
  | cons j rest ih =>
    have step : input.earliestStart (j :: rest) =
      min ((input.observations.get j).firstStartSec : WithTop T) (input.earliestStart rest) := rfl
    rw [step]
    rcases min_choice ((input.observations.get j).firstStartSec : WithTop T)
      (input.earliestStart rest) with first | later
    · exact ⟨j, List.mem_cons_self, first⟩
    · cases rest with
      | nil => exact ⟨j, List.mem_cons_self, min_eq_left le_top⟩
      | cons next rest =>
        obtain ⟨i, mem, eq⟩ := ih (List.cons_ne_nil next rest)
        exact ⟨i, List.mem_cons_of_mem _ mem, later.trans eq⟩

theorem Sound.respects {clusters : List (Cluster input)} (sound : Sound clusters)
    (sorted : clusters.Pairwise fun a b => ¬ input.earliestStart b < input.earliestStart a)
    (distinct : (input.observations.map SpeakerObservation.observationId).Nodup)
    (ordered : ∀ link ∈ input.cannotLinkObservations, link.1 ≤ link.2) :
    Respects input (input.numberClusters clusters) clusters.length := by
  have find := @find?_numberClusters _ _ _ input clusters sound distinct
  refine ⟨fun o mem => ?_, fun id p found => ?_, fun p bound => ?_, ?_, ?_⟩
  · obtain ⟨i, rfl⟩ := List.mem_iff_get.mp mem
    have inFlat : i ∈ clusters.flatten := sound.perm.mem_iff.mpr (List.mem_finRange i)
    obtain ⟨cluster, among, inside⟩ := List.mem_flatten.mp inFlat
    obtain ⟨p, at_⟩ := List.mem_iff_getElem?.mp among
    exact ⟨p, (List.getElem?_eq_some_iff.mp at_).1, find.mpr ⟨cluster, at_, i, inside, rfl⟩⟩
  · obtain ⟨_, _, i, _, same⟩ := find.mp found
    exact ⟨_, List.get_mem _ i, same⟩
  · have at_ : clusters[p]? = some clusters[p] := List.getElem?_eq_getElem bound
    obtain ⟨i, inside⟩ := List.exists_mem_of_ne_nil _
      (sound.nonempty clusters[p] (List.getElem_mem bound))
    exact ⟨_, List.get_mem _ i, find.mpr ⟨_, at_, i, inside, rfl⟩⟩
  · intro o memO o' memO' p q found found' less
    obtain ⟨cluster, at_, _⟩ := find.mp found
    obtain ⟨cluster', at_', j, inside', same'⟩ := find.mp found'
    obtain ⟨boundP, rfl⟩ := List.getElem?_eq_some_iff.mp at_
    obtain ⟨boundQ, rfl⟩ := List.getElem?_eq_some_iff.mp at_'
    have order := not_lt.mp (List.pairwise_iff_getElem.mp sorted p q boundP boundQ less)
    obtain ⟨i, inside, earliest⟩ := exists_earliestStart
      (sound.nonempty clusters[p] (List.getElem_mem boundP))
    have one : input.observations.get j = o' :=
      List.inj_on_of_nodup_map distinct (List.get_mem _ j) memO' same'
    refine ⟨_, List.get_mem _ i, find.mpr ⟨_, at_, i, inside, rfl⟩, ?_⟩
    rw [← one]
    exact WithTop.coe_le_coe.mp (earliest ▸ order.trans (earliestStart_le inside'))
  · intro link mem p found found'
    obtain ⟨cluster, at_, i, inside, same⟩ := find.mp found
    obtain ⟨cluster', at_', j, inside', same'⟩ := find.mp found'
    obtain rfl := Option.some_injective _ (at_.symm.trans at_')
    by_contra ne
    have apart := sound.apart cluster (List.mem_of_getElem? at_) i inside j inside' fun eq =>
      ne (same.symm.trans (eq ▸ same'))
    have order := ordered link mem
    simp only [cannotLink, same, same', min_eq_left order, max_eq_right order,
      decide_eq_false_iff_not] at apart
    exact apart mem

/-- Observations with distinct ids get speakers that respect the constraints, and no merge is
below the floor. -/
theorem clusterSpeakerObservations_respects (input : ClusteringInput F E T) (starts : input.StartSort)
    (distinct : (input.observations.map SpeakerObservation.observationId).Nodup)
    (ordered : ∀ link ∈ input.cannotLinkObservations, link.1 ≤ link.2) :
    (∃ k, Respects input (input.clusterSpeakerObservations starts) k) ∧
      MergeRun ((List.finRange input.observations.length).map fun i => ([i] : Cluster input))
        (input.mergeLoop ((List.finRange input.observations.length).map fun i => [i])).1 := by
  obtain ⟨run, steps, ends⟩ := mergeLoop_sound (@sound_singles _ _ _ input)
  refine ⟨?_, run⟩
  rw [clusterSpeakerObservations]
  by_cases none : input.observations = []
  · rw [if_pos none]
    refine ⟨0, fun o mem => ?_, fun id p found => ?_, fun p bound => absurd bound (Nat.not_lt_zero p),
      fun o mem => ?_, fun link _ p found => ?_⟩
    · exact absurd (none ▸ mem) List.not_mem_nil
    · exact nomatch found
    · exact absurd (none ▸ mem) List.not_mem_nil
    · exact nomatch found
  · rw [if_neg none]
    have cut : Sound (input.gapCut
        (input.mergeLoop ((List.finRange input.observations.length).map fun i => [i])).1
        (input.mergeLoop ((List.finRange input.observations.length).map fun i => [i])).2) := by
      rcases gapCut_cases (input.mergeLoop ((List.finRange input.observations.length).map
        fun i => [i])).1 (input.mergeLoop ((List.finRange input.observations.length).map
        fun i => [i])).2 with last | ⟨step, mem, back⟩
      · rw [last]
        exact ends
      · rw [back]
        exact steps step mem
    exact ⟨_, (cut.of_perm (starts.perm _)).respects (starts.sorted _) distinct ordered⟩

/-- A sort that keeps the order of equal starts. -/
def stableStartSort (input : ClusteringInput F E T) : input.StartSort where
  sort clusters := clusters.insertionSort fun a b => input.earliestStart a ≤ input.earliestStart b
  perm clusters := List.perm_insertionSort _ clusters
  sorted clusters := by
    have total : Std.Total fun a b : Cluster input => input.earliestStart a ≤ input.earliestStart b :=
      ⟨fun a b => le_total _ _⟩
    have trans : IsTrans (Cluster input) fun a b => input.earliestStart a ≤ input.earliestStart b :=
      ⟨fun a b c => le_trans⟩
    exact (List.pairwise_insertionSort _ clusters).imp not_lt.mpr

end Result

/-! ## Two observations that cannot be linked -/

def rationalSimilarities : SimilarityArithmetic ℚ where
  zero := 0
  sentinel := -2
  kGlobalSpeakerObservationFloorSimilarity := 14 / 100
  kGlobalSpeakerObservationMinGap := 1 / 10
  add a b := a + b
  sub a b := a - b
  divide a n := a / n
  lt a b := decide (a < b)
  le a b := decide (a ≤ b)
  lt_irrefl a := decide_eq_false (lt_irrefl a)
  lt_trans a b c ab bc :=
    decide_eq_true ((of_decide_eq_true ab).trans (of_decide_eq_true bc))
  sentinel_lt_floor := decide_eq_true (by norm_num)

/-- Three observations of one voice, the first two at the same time. -/
def overlappingInput : ClusteringInput ℚ Unit ℚ where
  float := rationalSimilarities
  cosineSimilarity _ _ := 1
  hasEmbeddingSignal _ := true
  observations := [⟨0, 0, ()⟩, ⟨1, 1 / 2, ()⟩, ⟨2, 4, ()⟩]
  cannotLinkObservations := {(0, 1)}

theorem clusterSpeakerObservations_overlapping :
    ∃ k, Respects overlappingInput
      (overlappingInput.clusterSpeakerObservations (stableStartSort overlappingInput)) k :=
  (clusterSpeakerObservations_respects overlappingInput (stableStartSort overlappingInput) (by decide)
    (by decide)).1

end ClusteringInput

end Svp.Audio
