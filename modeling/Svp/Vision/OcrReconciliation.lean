import Svp.Lib.DisjointSets
import Svp.Vision.OcrPlaces

/-!
# OCR observations from detections

The groups of `reconcileDetections` partition the detections whose keys are long
enough, and are the classes of the links from each detection to its founder and to
the readings near-identical to it (`mem_groups_iff`). A detection that touches two
places of its text joins the first only, so that two detections of the same text in
the same place can end in different observations: exactly when no links join them
(`reconciliation_exact_iff`).
-/

namespace Svp.Vision

open Exec (Bytes)
open scoped Lib.ByteStrings
open Lib (OrderedMap)
open Lib.DisjointSets
open Relation (EqvGen ReflTransGen)

/-! ## Links -/

section Links

variable {detections : List FrameDetection} {minTextChars : Nat} {parent : Nat → Nat}
  {link : Nat → Nat → Prop}

/-- A forest with these classes. -/
structure Classes (parent : Nat → Nat) (link : Nat → Nat → Prop) : Prop where
  forest : Forest parent
  joins : Joins parent link

theorem findRootLoop_root {rounds i : Nat} (forest : Forest parent) (enough : i ≤ rounds) :
    (findRootLoop rounds parent i).1 = rootOf parent i ∧
      Forest (findRootLoop rounds parent i).2 ∧
      rootOf (findRootLoop rounds parent i).2 = rootOf parent := by
  induction rounds generalizing i parent with
  | zero =>
    have isZero : i = 0 := Nat.le_zero.mp enough
    subst isZero
    exact ⟨(rootOf_of_isRoot (Nat.le_zero.mp (forest 0))).symm, forest, rfl⟩
  | succ rounds ih =>
    unfold findRootLoop
    split
    · next isRoot => exact ⟨(rootOf_of_isRoot isRoot).symm, forest, rfl⟩
    · next above =>
      have lower : Function.update parent i (parent (parent i)) i ≤ rounds := by
        rw [Function.update_self]
        refine (forest _).trans (Nat.le_of_lt_succ ?_)
        exact (lt_of_le_of_ne (forest i) above).trans_le enough
      obtain ⟨root, forest', same⟩ := ih (forest.halve i) lower
      rw [rootOf_halve forest i] at root same
      refine ⟨root.trans ?_, forest', same⟩
      rw [Function.update_self, forest.rootOf_parent, forest.rootOf_parent]

/-- `findRoot` finds the root and changes no class. -/
theorem Classes.findRoot (h : Classes parent link) (i : Nat) :
    (Vision.findRoot parent i).1 = rootOf parent i ∧ Classes (Vision.findRoot parent i).2 link ∧
      rootOf (Vision.findRoot parent i).2 = rootOf parent := by
  obtain ⟨root, forest, same⟩ := findRootLoop_root h.forest (le_refl i)
  refine ⟨root, ⟨forest, fun j k => ?_⟩, same⟩
  rw [show rootOf (Vision.findRoot parent i).2 = rootOf parent from same]
  exact h.joins j k

/-- The readings overlap and are near-identical. -/
def nearby (detections : List FrameDetection) (i j : Nat) : Bool :=
  samePlace detections i j && nearIdentical (comparedKey detections i) (comparedKey detections j)

theorem Classes.congr {link' : Nat → Nat → Prop} (h : Classes parent link)
    (same : ∀ i j, link i j ↔ link' i j) : Classes parent link' :=
  ⟨h.forest, h.joins.congr (fun i j step => .rel i j ((same i j).mp step))
    fun i j step => .rel i j ((same i j).mpr step)⟩

theorem Classes.joinPair (h : Classes parent link) (first later : Nat) :
    Classes (joinPair detections parent first later) fun i j =>
      link i j ∨ i = first ∧ j = later ∧ nearby detections first later = true := by
  obtain ⟨isA, classesA, sameA⟩ := h.findRoot first
  obtain ⟨isB, classesB, sameB⟩ := classesA.findRoot later
  rw [sameA] at isB
  have roots : rootOf (Vision.findRoot (Vision.findRoot parent first).2 later).2 = rootOf parent :=
    sameB.trans sameA
  unfold Vision.joinPair
  simp only
  rw [isA, isB]
  split
  · next idle =>
    refine ⟨classesB.forest, classesB.joins.congr (fun i j step => .rel i j (.inl step)) ?_⟩
    rintro i j (step | ⟨rfl, rfl, near⟩)
    · exact .rel i j step
    · rcases idle with same | apart
      · exact (h.joins i j).mp same
      · rw [nearby, apart, Bool.false_and] at near
        cases near
  · next active =>
    have here : samePlace detections first later = true := by
      rw [← Bool.not_eq_false]
      exact fun apart => active (.inr apart)
    split
    · next near =>
      have union := classesB.joins.union classesB.forest first later
      rw [roots] at union
      refine ⟨classesB.forest.union min_le_max, union.congr ?_ ?_⟩
      · rintro i j (step | ⟨rfl, rfl⟩)
        · exact .rel i j (.inl step)
        · refine .rel i j (.inr ⟨rfl, rfl, ?_⟩)
          rw [nearby, here, near]
          rfl
      · rintro i j (step | ⟨rfl, rfl, -⟩)
        · exact .rel i j (.inl step)
        · exact .rel i j (.inr ⟨rfl, rfl⟩)
    · next different =>
      refine classesB.congr fun i j => ?_
      rw [iff_self_or]
      rintro ⟨rfl, rfl, near⟩
      rw [nearby, here, Bool.true_and] at near
      exact absurd near different

/-- The second reading follows within the time for near-identical readings. -/
def Soon (detections : List FrameDetection) (i j : Nat) : Prop :=
  (detection detections j).timestampUs - (detection detections i).timestampUs ≤
    kNearIdenticalWithinUs

/-- The inner loop stops at the first reading that is too late, as all after it are. -/
theorem Classes.joinLater (h : Classes parent link) (first : Nat) (rest : List Nat)
    (ordered : rest.Pairwise fun i j =>
      (detection detections i).timestampUs ≤ (detection detections j).timestampUs) :
    Classes (joinLater detections first rest parent) fun i j =>
      link i j ∨ i = first ∧ j ∈ rest ∧ Soon detections i j ∧ nearby detections i j = true := by
  induction rest generalizing parent link with
  | nil =>
    refine h.congr fun i j => ?_
    simp
  | cons later rest ih =>
    obtain ⟨after, ordered⟩ := List.pairwise_cons.mp ordered
    unfold Vision.joinLater
    split
    · next late =>
      refine h.congr fun i j => ?_
      rw [iff_self_or]
      rintro ⟨rfl, mem, soon, -⟩
      have lateJ : kNearIdenticalWithinUs <
          (detection detections j).timestampUs - (detection detections i).timestampUs := by
        rcases List.mem_cons.mp mem with rfl | mem
        · exact late
        · exact late.trans_le (Int.sub_le_sub_right (after j mem) _)
      exact absurd soon lateJ.not_ge
    · next inTime =>
      refine (ih (h.joinPair first later) ordered).congr fun i j => ?_
      have soon : Soon detections first later := not_lt.mp inTime
      constructor
      · rintro ((step | ⟨rfl, rfl, near⟩) | ⟨rfl, mem, soon, near⟩)
        · exact .inl step
        · exact .inr ⟨rfl, List.mem_cons_self, soon, near⟩
        · exact .inr ⟨rfl, List.mem_cons_of_mem _ mem, soon, near⟩
      · rintro (step | ⟨rfl, mem, soon', near⟩)
        · exact .inl (.inl step)
        · rcases List.mem_cons.mp mem with rfl | mem
          · exact .inl (.inr ⟨rfl, rfl, near⟩)
          · exact .inr ⟨rfl, mem, soon', near⟩

/-- The second pass links every two readings that are near-identical, overlap and
are close in time. -/
theorem Classes.joinNearIdentical (h : Classes parent link) (kept : List Nat)
    (ordered : kept.Pairwise fun i j =>
      (detection detections i).timestampUs ≤ (detection detections j).timestampUs) :
    Classes (joinNearIdentical detections kept parent) fun i j =>
      link i j ∨ (∃ rest, i :: rest <:+ kept ∧ j ∈ rest) ∧ Soon detections i j ∧
        nearby detections i j = true := by
  induction kept generalizing parent link with
  | nil =>
    refine h.congr fun i j => ?_
    simp
  | cons first kept ih =>
    obtain ⟨-, ordered'⟩ := List.pairwise_cons.mp ordered
    refine (ih (h.joinLater first kept ordered') ordered').congr fun i j => ?_
    simp only [List.suffix_cons_iff, List.cons.injEq]
    constructor
    · rintro ((step | ⟨rfl, mem, soon, near⟩) | ⟨⟨rest, tail, mem⟩, soon, near⟩)
      · exact .inl step
      · exact .inr ⟨⟨kept, .inl ⟨rfl, rfl⟩, mem⟩, soon, near⟩
      · exact .inr ⟨⟨rest, .inr tail, mem⟩, soon, near⟩
    · rintro (step | ⟨⟨rest, ⟨rfl, rfl⟩ | tail, mem⟩, soon, near⟩)
      · exact .inl (.inl step)
      · exact .inl (.inr ⟨rfl, mem, soon, near⟩)
      · exact .inr ⟨⟨rest, tail, mem⟩, soon, near⟩

end Links

/-! ## Observations -/

section Observations

variable {detections : List FrameDetection} {minTextChars : Nat}

/-- A detection is linked to the one that founded the earliest place of its text it
touches when it comes, and to the near-identical readings that overlap it and follow
within the time for them. -/
def Link (detections : List FrameDetection) (minTextChars i j : Nat) : Prop :=
  Kept detections minTextChars i ∧ founder detections i = j ∨
    Kept detections minTextChars i ∧ Kept detections minTextChars j ∧ timeOrder detections i j ∧
      Soon detections i j ∧ nearby detections i j = true

/-- The same text or near-identical texts in the same place. -/
def Related (detections : List FrameDetection) (minTextChars i j : Nat) : Prop :=
  Kept detections minTextChars i ∧ Kept detections minTextChars j ∧
    samePlace detections i j = true ∧
      (textKey detections i = textKey detections j ∨
        nearIdentical (comparedKey detections i) (comparedKey detections j) = true ∨
        nearIdentical (comparedKey detections j) (comparedKey detections i) = true)

instance : Std.Total (timeOrder detections) :=
  inferInstanceAs (Std.Total (Order.Preimage _ (· ≤ ·)))

instance : IsTrans Nat (timeOrder detections) :=
  inferInstanceAs (IsTrans Nat (Order.Preimage _ (· ≤ ·)))

theorem timeOrder_antisymm {i j : Nat} (there : timeOrder detections i j)
    (back : timeOrder detections j i) : i = j := by
  have same : toLex ((detection detections i).timestampUs, i) =
      toLex ((detection detections j).timestampUs, j) := le_antisymm there back
  exact congrArg (fun p => (ofLex p).2) same

theorem timestampUs_le {i j : Nat} (order : timeOrder detections i j) :
    (detection detections i).timestampUs ≤ (detection detections j).timestampUs := by
  rcases Prod.Lex.le_iff.mp order with lt | ⟨same, -⟩
  · exact lt.le
  · exact same.le

/-- In a sorted list what follows an entry is what is greater. -/
theorem suffix_iff {kept : List Nat} (ordered : kept.Pairwise (timeOrder detections))
    (distinct : kept.Nodup) {i j : Nat} : (∃ rest, i :: rest <:+ kept ∧ j ∈ rest) ↔
      i ∈ kept ∧ j ∈ kept ∧ i ≠ j ∧ timeOrder detections i j := by
  constructor
  · rintro ⟨rest, tail, mem⟩
    have order := List.pairwise_cons.mp (ordered.sublist tail.sublist)
    have apart := List.nodup_cons.mp (distinct.sublist tail.sublist)
    refine ⟨tail.subset List.mem_cons_self, tail.subset (List.mem_cons_of_mem i mem), ?_,
      order.1 j mem⟩
    rintro rfl
    exact apart.1 mem
  · rintro ⟨memI, memJ, different, order⟩
    obtain ⟨before, rest, rfl⟩ := List.append_of_mem memI
    refine ⟨rest, List.suffix_append _ _, ?_⟩
    rcases List.mem_append.mp memJ with early | late
    · have back := (List.pairwise_append.mp ordered).2.2 j early i List.mem_cons_self
      exact absurd (timeOrder_antisymm order back) different
    · exact (List.mem_cons.mp late).resolve_left (Ne.symm different)

/-- The classes after both passes are those of the links. -/
theorem classes_joinedParents : Classes (joinedParents detections minTextChars)
    (Link detections minTextChars) := by
  let kept := (keptByKey detections minTextChars).insertionSort (timeOrder detections)
  have sorted : kept.Pairwise (timeOrder detections) := List.pairwise_insertionSort _ _
  have perm : kept.Perm (keptByKey detections minTextChars) := List.perm_insertionSort _ _
  have members : ∀ i, i ∈ kept ↔ Kept detections minTextChars i := fun i =>
    perm.mem_iff.trans mem_keptByKey
  have forest : Forest (placedParents detections (byTextKey detections minTextChars)) := fun i => by
    rw [placedParents_eq]
    split
    · exact founder_le i
    · exact le_rfl
  have first : Classes _ _ := ⟨forest, joins_parent forest⟩
  obtain ⟨forest', joins⟩ := @Classes.joinNearIdentical detections _ _ first kept
    (sorted.imp timestampUs_le)
  refine ⟨forest', joins.congr (fun i j step => ?_) fun i j step => ?_⟩
  · rcases step with isParent | ⟨follows, soon, near⟩
    · rw [placedParents_eq] at isParent
      split at isParent
      · next mem => exact .rel i j (.inl ⟨mem_keptByKey.mp mem, isParent⟩)
      · exact isParent ▸ .refl i
    · obtain ⟨memI, memJ, -, order⟩ := (suffix_iff sorted (perm.nodup_iff.mpr keptByKey_nodup)).mp follows
      exact .rel i j (.inr ⟨(members i).mp memI, (members j).mp memJ, order, soon, near⟩)
  · rcases step with ⟨isKept, isFounder⟩ | ⟨keptI, keptJ, order, soon, near⟩
    · refine .rel i j (.inl ?_)
      rw [placedParents_eq, if_pos (mem_keptByKey.mpr isKept)]
      exact isFounder
    · by_cases same : i = j
      · exact same ▸ .refl i
      · refine .rel i j (.inr ⟨?_, soon, near⟩)
        exact (suffix_iff sorted (perm.nodup_iff.mpr keptByKey_nodup)).mpr
          ⟨(members i).mpr keptI, (members j).mpr keptJ, same, order⟩

theorem groupDetection_foldl {parent : Nat → Nat} {link : Nat → Nat → Prop}
    (h : Classes parent link) (kept : List Nat) (collected : OrderedMap Nat (List Nat)) :
    (kept.foldl groupDetection (parent, collected)).2 =
      kept.foldl (fun collected i => collected.push (rootOf parent i) i) collected := by
  induction kept generalizing parent collected with
  | nil => rfl
  | cons idx kept ih =>
    obtain ⟨root, after, same⟩ := h.findRoot idx
    rw [List.foldl_cons, List.foldl_cons, ← same]
    have step : groupDetection (parent, collected) idx =
        ((findRoot parent idx).2, collected.push (rootOf parent idx) idx) := by
      rw [← root]
      rfl
    rw [step, ih after, same]

theorem groups_eq : groups detections minTextChars =
    ((keptByKey detections minTextChars).insertionSort (· ≤ ·)).foldl
      (fun collected i =>
        collected.push (rootOf (joinedParents detections minTextChars) i) i) .empty :=
  groupDetection_foldl classes_joinedParents _ _

/-- A group is the detections below one root. -/
theorem mem_groups {cluster : List Nat} :
    cluster ∈ (groups detections minTextChars).values ↔
      ∃ r, cluster = ((keptByKey detections minTextChars).insertionSort (· ≤ ·)).filter
        (fun i => decide (rootOf (joinedParents detections minTextChars) i = r)) ∧ cluster ≠ [] := by
  rw [OrderedMap.values, List.mem_map, groups_eq]
  constructor
  · rintro ⟨⟨r, cluster⟩, mem, rfl⟩
    exact ⟨r, OrderedMap.mem_foldl_push.mp mem⟩
  · rintro ⟨r, isFilter⟩
    exact ⟨(r, cluster), OrderedMap.mem_foldl_push.mpr isFilter, rfl⟩

/-- Two detections are in one group exactly when links lead from one to the other. -/
theorem mem_groups_iff {i j : Nat} :
    (∃ cluster ∈ (groups detections minTextChars).values, i ∈ cluster ∧ j ∈ cluster) ↔
      Kept detections minTextChars i ∧ Kept detections minTextChars j ∧
        EqvGen (Link detections minTextChars) i j := by
  have members : ∀ k r, k ∈ ((keptByKey detections minTextChars).insertionSort (· ≤ ·)).filter
        (fun i => decide (rootOf (joinedParents detections minTextChars) i = r)) ↔
      Kept detections minTextChars k ∧ rootOf (joinedParents detections minTextChars) k = r := by
    intro k r
    rw [List.mem_filter, decide_eq_true_eq, (List.perm_insertionSort _ _).mem_iff, mem_keptByKey]
  rw [← classes_joinedParents.joins i j]
  constructor
  · rintro ⟨cluster, mem, memI, memJ⟩
    obtain ⟨r, rfl, -⟩ := mem_groups.mp mem
    rw [members] at memI memJ
    exact ⟨memI.1, memJ.1, memI.2.trans memJ.2.symm⟩
  · rintro ⟨keptI, keptJ, same⟩
    have memI := (members i _).mpr ⟨keptI, rfl⟩
    exact ⟨_, mem_groups.mpr ⟨_, rfl, List.ne_nil_of_mem memI⟩, memI,
      (members j _).mpr ⟨keptJ, same.symm⟩⟩

theorem groups_disjoint : (groups detections minTextChars).values.flatten.Nodup := by
  have sorted : ((keptByKey detections minTextChars).insertionSort (· ≤ ·)).Nodup :=
    (List.perm_insertionSort _ _).nodup_iff.mpr keptByKey_nodup
  refine List.nodup_flatten.mpr ⟨fun cluster mem => ?_, ?_⟩
  · obtain ⟨r, rfl, -⟩ := mem_groups.mp mem
    exact sorted.filter _
  · have distinct := (groups detections minTextChars).keys_nodup
    rw [List.Nodup, List.pairwise_map] at distinct
    rw [OrderedMap.values, List.pairwise_map]
    refine distinct.imp_of_mem fun {p q} memP memQ different i inP inQ => different ?_
    have rootIs : ∀ p ∈ (groups detections minTextChars).entries, i ∈ p.2 →
        rootOf (joinedParents detections minTextChars) i = p.1 := fun p mem inside => by
      rw [groups_eq] at mem
      obtain ⟨isFilter, -⟩ := OrderedMap.mem_foldl_push.mp (show (p.1, p.2) ∈ _ from mem)
      rw [isFilter, List.mem_filter, decide_eq_true_eq] at inside
      exact inside.2
    rw [← rootIs p memP inP, ← rootIs q memQ inQ]

theorem bboxIou_comm (a b : FrameDetection) : bboxIou a b = bboxIou b a := by
  unfold bboxIou
  simp only [max_comm b.bboxLeft, max_comm b.bboxTop, min_comm b.bboxRight, min_comm b.bboxBottom]
  rw [add_comm (((b.bboxRight - b.bboxLeft : Int) : ℚ) * _)]

theorem samePlace_comm (i j : Nat) : samePlace detections i j = samePlace detections j i := by
  rw [samePlace, samePlace, bboxIou_comm]

theorem related_symm {i j : Nat} (h : Related detections minTextChars i j) :
    Related detections minTextChars j i := by
  obtain ⟨keptI, keptJ, here, alike⟩ := h
  refine ⟨keptJ, keptI, (samePlace_comm j i).trans here, ?_⟩
  exact alike.imp Eq.symm Or.symm

/-- A detection is led to its founder by detections of the same text in the same
place. -/
theorem related_founder (i : Nat) (kept : Kept detections minTextChars i) :
    ReflTransGen (Related detections minTextChars) i (founder detections i) := by
  induction i using Nat.strong_induction_on with
  | _ i ih =>
    rcases @founder_cases detections i with alone | ⟨j, lt, touched, same⟩
    · rw [alone]
    · rw [touches, Bool.and_eq_true, decide_eq_true_eq] at touched
      obtain ⟨sameKey, here⟩ := touched
      have keptJ : Kept detections minTextChars j := ⟨lt.trans kept.1, sameKey ▸ kept.2⟩
      rw [same]
      exact .head ⟨kept, keptJ, here, .inl sameKey⟩ (ih j lt keptJ)

theorem related_of_linked {i j : Nat} (linked : EqvGen (Link detections minTextChars) i j) :
    ReflTransGen (Related detections minTextChars) i j := by
  have symm : ∀ {i j}, ReflTransGen (Related detections minTextChars) i j →
      ReflTransGen (Related detections minTextChars) j i := fun chain => by
    induction chain with
    | refl => exact .refl
    | tail _ step ih => exact .head (related_symm step) ih
  induction linked with
  | rel i j link =>
    rcases link with ⟨kept, rfl⟩ | ⟨keptI, keptJ, -, -, near⟩
    · exact related_founder i kept
    · rw [nearby, Bool.and_eq_true] at near
      exact .single ⟨keptI, keptJ, near.1, .inr (.inl near.2)⟩
  | refl i => exact .refl
  | symm i j _ ih => exact symm ih
  | trans i j k _ _ ih ih' => exact ih.trans ih'

/-- What reconciliation promises: its groups are the observations, of which it may
leave out those of a single reading below the confidence asked for. -/
structure ReconciliationAccount (detections : List FrameDetection) (totalFrames : Int)
    (minConfidence : ℚ) (minTextChars : Nat) : Prop where
  /-- The same text in the same place is one observation, whenever it was seen. -/
  sameText : ∀ i j, Kept detections minTextChars i → Kept detections minTextChars j →
    textKey detections i = textKey detections j → samePlace detections i j = true →
    ∃ cluster ∈ (groups detections minTextChars).values, i ∈ cluster ∧ j ∈ cluster
  covers : ∀ i, (∃ cluster ∈ (groups detections minTextChars).values, i ∈ cluster) ↔
    Kept detections minTextChars i
  disjoint : (groups detections minTextChars).values.flatten.Nodup
  nonempty : [] ∉ (groups detections minTextChars).values
  chain : ∀ cluster ∈ (groups detections minTextChars).values, ∀ i ∈ cluster, ∀ j ∈ cluster,
    ReflTransGen (Related detections minTextChars) i j
  returned : (reconcileDetections detections totalFrames minConfidence minTextChars).Perm
    ((groups detections minTextChars).values.filterMap
      (observe detections totalFrames minConfidence))

/-- Reconciliation keeps its account exactly when links join every two detections of
the same text in the same place. -/
theorem reconciliation_exact_iff (detections : List FrameDetection) (totalFrames : Int)
    (minConfidence : ℚ) (minTextChars : Nat) :
    ReconciliationAccount detections totalFrames minConfidence minTextChars ↔
      ∀ i j, Kept detections minTextChars i → Kept detections minTextChars j →
        textKey detections i = textKey detections j → samePlace detections i j = true →
        EqvGen (Link detections minTextChars) i j := by
  constructor
  · intro account i j keptI keptJ sameKey here
    exact (mem_groups_iff.mp (account.sameText i j keptI keptJ sameKey here)).2.2
  · intro suffice_
    refine ⟨fun i j keptI keptJ sameKey here => ?_, fun i => ?_, groups_disjoint, fun mem => ?_,
      fun cluster mem i memI j memJ => ?_, List.perm_insertionSort _ _⟩
    · exact mem_groups_iff.mpr ⟨keptI, keptJ, suffice_ i j keptI keptJ sameKey here⟩
    · constructor
      · rintro ⟨cluster, mem, inside⟩
        exact (mem_groups_iff.mp ⟨cluster, mem, inside, inside⟩).1
      · intro kept
        obtain ⟨cluster, mem, inside, -⟩ := mem_groups_iff.mpr ⟨kept, kept, .refl i⟩
        exact ⟨cluster, mem, inside⟩
    · obtain ⟨r, -, impossible⟩ := mem_groups.mp mem
      exact impossible rfl
    · exact related_of_linked (mem_groups_iff.mp ⟨cluster, mem, memI, memJ⟩).2.2

/-- Three readings of one text: two places apart, and then one box over both. -/
def bridged : List FrameDetection :=
  let reading (frameId : String) (timestampUs : Int) (bboxLeft : Int) : FrameDetection :=
    { frameId, timestampUs, rawText := [97, 98, 99], bboxLeft, bboxRight := bboxLeft + 100,
      bboxBottom := 40 }
  [reading "a" 0 0, reading "b" 10000000 100, reading "c" 20000000 50]

/-- The third reading joins the first place, and leaves the second one alone. -/
theorem bridged_parted : ¬ ReconciliationAccount bridged 3 0 3 := by
  intro account
  have parted : (groups bridged 3).values = [[0, 2], [1]] := by decide +kernel
  obtain ⟨cluster, mem, second, third⟩ := account.sameText 1 2 ⟨by decide, by decide +kernel⟩
    ⟨by decide, by decide +kernel⟩ (by decide +kernel) (by decide +kernel)
  rw [parted] at mem
  fin_cases mem
  · exact absurd second (by decide)
  · exact absurd third (by decide)

end Observations

end Svp.Vision
