import Mathlib

/-!
# Topological order by counting, and longest paths along it

Kahn's pass over a finite graph: every vertex whose predecessors have all been
taken is appended to the order, and the vertices are taken in that order. The
main results are that the order lists every vertex exactly when the graph has no
cycle (`Kahn.topologicalOrder_complete_iff`), that a function filled in against such an order
satisfies its recursion (`fillBack_eq`), and that the saturating longest-path
recursion has the weight of a heaviest path as its value (`isGreatest_pathWeight`).
-/

namespace Svp.Lib

/-! ## The counting pass -/

/-- The order built so far and how many predecessors of each vertex have not been
taken. -/
structure Kahn (α : Type*) where
  pending : α → ℕ
  order : List α

namespace Kahn

variable {α : Type*}

/-- Every vertex of the list comes after its predecessors. -/
def Ordered (preds : α → List α) (l : List α) : Prop :=
  ∀ i x, l[i]? = some x → ∀ p ∈ preds x, p ∈ l.take i

theorem Ordered.append {preds : α → List α} {l : List α} (ordered : Ordered preds l) {x : α}
    (closed : ∀ p ∈ preds x, p ∈ l) : Ordered preds (l ++ [x]) := by
  intro i y at_ p mem
  by_cases inside : i < l.length
  · rw [List.getElem?_append_left inside] at at_
    rw [List.take_append_of_le_length inside.le]
    exact ordered i y at_ p mem
  · have last : y = x := by
      rw [List.getElem?_append_right (not_lt.mp inside)] at at_
      exact List.mem_singleton.mp (List.mem_of_getElem? at_)
    rw [List.take_append, List.take_of_length_le (not_lt.mp inside)]
    exact List.mem_append_left _ (closed p (last ▸ mem))

variable [DecidableEq α]

def visit (k : Kahn α) (next : α) : Kahn α :=
  let pending := Function.update k.pending next (k.pending next - 1)
  { pending, order := if pending next = 0 then k.order ++ [next] else k.order }

/-- Takes the vertices of the order one after another, at most `rounds` of them. -/
def loop (succs : α → List α) : ℕ → ℕ → Kahn α → Kahn α
  | 0, _, k => k
  | rounds + 1, cursor, k =>
    match k.order[cursor]? with
    | none => k
    | some taken => loop succs rounds (cursor + 1) ((succs taken).foldl visit k)

/-- The state when the vertices of `done` have been taken: they lead the order,
which lists exactly the vertices with no untaken predecessor. -/
structure Invariant (preds : α → List α) (done : List α) (k : Kahn α) : Prop where
  lead : done <+: k.order
  nodup : k.order.Nodup
  pending : ∀ x, k.pending x = (preds x).countP (· ∉ done)
  ready : ∀ x, x ∈ k.order ↔ k.pending x = 0
  ordered : Ordered preds k.order

theorem pending_eq_zero {preds : α → List α} {done : List α} {x : α} :
    (preds x).countP (· ∉ done) = 0 ↔ ∀ p ∈ preds x, p ∈ done := by
  simp [List.countP_eq_zero]

/-- The start: the vertices without predecessors, none of them taken. -/
theorem Invariant.start [Fintype α] {preds : α → List α} {vertices : List α}
    (nodup : vertices.Nodup) (all : ∀ x, x ∈ vertices) :
    Invariant preds [] ⟨fun x => (preds x).length, vertices.filter fun x => (preds x).isEmpty⟩ where
  lead := List.nil_prefix
  nodup := nodup.filter _
  pending x := by simp
  ready x := by simp [all, List.isEmpty_iff]
  ordered i x at_ p mem := by
    have none := (List.mem_filter.mp (List.mem_of_getElem? at_)).2
    rw [List.isEmpty_iff.mp none] at mem
    cases mem

/-- While the successors of `taken` are visited, the ones in `seen` already count
it as taken. -/
structure Visiting (preds : α → List α) (done seen : List α) (taken : α) (k : Kahn α) : Prop where
  lead : done ++ [taken] <+: k.order
  nodup : k.order.Nodup
  pending : ∀ x, k.pending x = if x ∈ seen then (preds x).countP (· ∉ done ++ [taken])
    else (preds x).countP (· ∉ done)
  ready : ∀ x, x ∈ k.order ↔ k.pending x = 0
  ordered : Ordered preds k.order

theorem countP_taken {preds : α → List α} (distinct : ∀ x, (preds x).Nodup) {done : List α}
    {taken : α} (untaken : taken ∉ done) (x : α) :
    (preds x).countP (· ∉ done) =
      (preds x).countP (· ∉ done ++ [taken]) + if taken ∈ preds x then 1 else 0 := by
  have only : ∀ l : List α, l.Nodup → l.countP (· ∉ done) =
      l.countP (· ∉ done ++ [taken]) + if taken ∈ l then 1 else 0 := by
    intro l nodup
    induction l with
    | nil => rfl
    | cons p rest ih =>
      obtain ⟨fresh, rest_nodup⟩ := List.nodup_cons.mp nodup
      rw [List.countP_cons, List.countP_cons, ih rest_nodup]
      by_cases same : p = taken
      · subst same
        simp [untaken, fresh]
      · have other : taken ≠ p := Ne.symm same
        by_cases mem : p ∈ done
        · simp [mem, other]
        · simp only [mem, same, other, List.mem_append, List.mem_cons]
          simp
          omega
  exact only _ (distinct x)

/-- One visit: the vertex has one untaken predecessor less, and enters the order
with its last one. -/
theorem Visiting.visit {preds : α → List α} (distinct : ∀ x, (preds x).Nodup) {done seen : List α}
    {taken next : α} {k : Kahn α} (h : Visiting preds done seen taken k) (untaken : taken ∉ done)
    (fresh : next ∉ seen) (edge : taken ∈ preds next) :
    Visiting preds done (seen ++ [next]) taken (k.visit next) := by
  have before : k.pending next = (preds next).countP (· ∉ done ++ [taken]) + 1 := by
    rw [h.pending, if_neg fresh, countP_taken distinct untaken next, if_pos edge]
  have after : (k.visit next).pending next = (preds next).countP (· ∉ done ++ [taken]) := by
    show Function.update k.pending next (k.pending next - 1) next = _
    rw [Function.update_self, before, Nat.add_sub_cancel]
  have others : ∀ x, x ≠ next → (k.visit next).pending x = k.pending x := fun x ne =>
    Function.update_of_ne ne _ _
  have outside : next ∉ k.order := fun mem => by
    have := (h.ready next).mp mem
    omega
  have order : (k.visit next).order =
      if (k.visit next).pending next = 0 then k.order ++ [next] else k.order := rfl
  refine ⟨?_, ?_, fun x => ?_, fun x => ?_, ?_⟩
  · rw [order]
    split
    · exact h.lead.trans (List.prefix_append _ _)
    · exact h.lead
  · rw [order]
    split
    · exact List.nodup_append.mpr ⟨h.nodup, List.nodup_singleton _, fun a mem b single same =>
        outside (by rwa [← List.mem_singleton.mp single, ← same])⟩
    · exact h.nodup
  · by_cases same : x = next
    · rw [same, after, if_pos (by simp)]
    · rw [others x same, h.pending]
      simp [same]
  · by_cases same : x = next
    · subst same
      rw [order]
      split
      · next zero => simp [zero]
      · next nonzero => simp [outside, nonzero]
    · rw [others x same, ← h.ready, order]
      split
      · simp [same]
      · rfl
  · rw [order]
    split
    · next zero =>
      -- the last untaken predecessor was `taken`, so all of them lead the order
      refine h.ordered.append fun p mem => h.lead.subset ?_
      rw [after] at zero
      exact pending_eq_zero.mp zero p mem
    · exact h.ordered

theorem Visiting.foldl {preds : α → List α} (distinct : ∀ x, (preds x).Nodup) {done : List α}
    {taken : α} (untaken : taken ∉ done) (rest : List α) :
    ∀ {seen : List α} {k : Kahn α}, Visiting preds done seen taken k → (seen ++ rest).Nodup →
      (∀ x ∈ rest, taken ∈ preds x) →
      Visiting preds done (seen ++ rest) taken (rest.foldl Kahn.visit k) := by
  induction rest with
  | nil =>
    intro seen k h _ _
    simpa using h
  | cons next rest ih =>
    intro seen k h nodup edges
    have fresh : next ∉ seen := fun mem =>
      (List.nodup_append.mp nodup).2.2 next mem next (by simp) rfl
    have visited := h.visit distinct untaken fresh (edges next (by simp))
    have rejoined : seen ++ [next] ++ rest = seen ++ next :: rest := by simp
    rw [List.foldl_cons, ← rejoined]
    exact ih visited (by rwa [rejoined]) fun x mem => edges x (List.mem_cons_of_mem _ mem)

/-- Taking the next vertex of the order. -/
theorem Invariant.take {preds succs : α → List α} (distinct : ∀ x, (preds x).Nodup)
    (succs_nodup : ∀ x, (succs x).Nodup) (mem_succs : ∀ x d, d ∈ succs x ↔ x ∈ preds d)
    {done : List α} {taken : α} {k : Kahn α} (h : Invariant preds done k)
    (at_ : k.order[done.length]? = some taken) :
    Invariant preds (done ++ [taken]) ((succs taken).foldl Kahn.visit k) := by
  obtain ⟨tail, split⟩ := h.lead
  have first : tail.head? = some taken := by
    rw [← split, List.getElem?_append_right le_rfl, Nat.sub_self] at at_
    rwa [List.head?_eq_getElem?]
  obtain ⟨more, rfl⟩ : ∃ more, tail = taken :: more := by
    cases tail with
    | nil => cases first
    | cons x more => exact ⟨more, by rw [Option.some.inj first]⟩
  have untaken : taken ∉ done := fun mem => by
    have nodup := h.nodup
    rw [← split] at nodup
    exact (List.nodup_append.mp nodup).2.2 taken mem taken (by simp) rfl
  have start : Visiting preds done [] taken k := by
    refine ⟨⟨more, by rw [← split]; simp⟩, h.nodup, fun x => ?_, h.ready, h.ordered⟩
    simpa using h.pending x
  have visited := start.foldl distinct untaken (succs taken) (by simpa using succs_nodup taken)
    fun x mem => (mem_succs taken x).mp mem
  refine ⟨visited.lead, visited.nodup, fun x => ?_, visited.ready, visited.ordered⟩
  rw [visited.pending, List.nil_append]
  split
  · rfl
  · next unseen =>
    -- a vertex that is no successor of `taken` never counted it
    rw [countP_taken distinct untaken x, if_neg fun edge => unseen ((mem_succs taken x).mpr edge),
      add_zero]

/-- With a round for every vertex, the pass takes all of the order it builds. -/
theorem Invariant.loop [Fintype α] {preds succs : α → List α} (distinct : ∀ x, (preds x).Nodup)
    (succs_nodup : ∀ x, (succs x).Nodup) (mem_succs : ∀ x d, d ∈ succs x ↔ x ∈ preds d) :
    ∀ (rounds : ℕ) {done : List α} {k : Kahn α}, Invariant preds done k →
      Fintype.card α ≤ done.length + rounds →
      Invariant preds (Kahn.loop succs rounds done.length k).order
        (Kahn.loop succs rounds done.length k) := by
  intro rounds
  induction rounds with
  | zero =>
    intro done k h enough
    have whole : done = k.order := h.lead.eq_of_length_le
      (h.nodup.length_le_card.trans (by simpa using enough))
    show Invariant preds k.order k
    exact whole ▸ h
  | succ rounds ih =>
    intro done k h enough
    rw [Kahn.loop]
    split
    · next ended =>
      have whole : done = k.order := h.lead.eq_of_length_le (List.getElem?_eq_none_iff.mp ended)
      exact whole ▸ h
    · next taken at_ =>
      have next := h.take distinct succs_nodup mem_succs at_
      have length : (done ++ [taken]).length = done.length + 1 := by simp
      rw [← length]
      exact ih next (by rw [length]; omega)

/-- A vertex of an ordered list lies behind its predecessors. -/
theorem Ordered.idxOf_lt {l : List α} (ordered : Ordered preds l) (nodup : l.Nodup) {x p : α}
    (mem : x ∈ l) (edge : p ∈ preds x) : l.idxOf p < l.idxOf x := by
  have inside := List.idxOf_lt_length_iff.mpr mem
  have at_ : l[l.idxOf x]? = some x := by
    rw [List.getElem?_eq_getElem inside, List.getElem_idxOf]
  obtain ⟨i, small, rfl⟩ := List.mem_take_iff_getElem.mp (ordered _ x at_ p edge)
  rw [nodup.idxOf_getElem]
  exact (lt_min_iff.mp small).1

/-- The pass over all vertices, from those without predecessors on. -/
def topologicalOrder [Fintype α] (preds succs : α → List α) (vertices : List α) : List α :=
  (loop succs (Fintype.card α) 0
    ⟨fun x => (preds x).length, vertices.filter fun x => (preds x).isEmpty⟩).order

section Order

variable [Fintype α] {preds succs : α → List α} {vertices : List α}

/-- The order lists no vertex twice, each after its predecessors, and every vertex
whose predecessors it lists. -/
theorem topologicalOrder_invariant (distinct : ∀ x, (preds x).Nodup) (succs_nodup : ∀ x, (succs x).Nodup)
    (mem_succs : ∀ x d, d ∈ succs x ↔ x ∈ preds d) (nodup : vertices.Nodup)
    (all : ∀ x, x ∈ vertices) :
    (topologicalOrder preds succs vertices).Nodup ∧ Ordered preds (topologicalOrder preds succs vertices) ∧
      ∀ x, (∀ p ∈ preds x, p ∈ topologicalOrder preds succs vertices) → x ∈ topologicalOrder preds succs vertices := by
  have final := (Invariant.start nodup all).loop distinct succs_nodup mem_succs (Fintype.card α)
    (by simp)
  refine ⟨final.nodup, final.ordered, fun x closed => (final.ready x).mpr ?_⟩
  rw [final.pending]
  exact pending_eq_zero.mpr closed

/-- The order lists every vertex exactly when no vertex leads back to itself. -/
theorem topologicalOrder_complete_iff (distinct : ∀ x, (preds x).Nodup) (succs_nodup : ∀ x, (succs x).Nodup)
    (mem_succs : ∀ x d, d ∈ succs x ↔ x ∈ preds d) (nodup : vertices.Nodup)
    (all : ∀ x, x ∈ vertices) :
    (topologicalOrder preds succs vertices).length = Fintype.card α ↔
      ∀ x, ¬ Relation.TransGen (fun p x => p ∈ preds x) x x := by
  obtain ⟨order_nodup, ordered, closed⟩ :=
    topologicalOrder_invariant distinct succs_nodup mem_succs nodup all
  constructor
  · intro complete x cycle
    have whole : ∀ y, y ∈ topologicalOrder preds succs vertices := by
      have card : (topologicalOrder preds succs vertices).toFinset.card = Fintype.card α := by
        rw [List.toFinset_card_of_nodup order_nodup, complete]
      intro y
      rw [← List.mem_toFinset, (Finset.card_eq_iff_eq_univ _).mp card]
      exact Finset.mem_univ y
    have descends : ∀ a b, Relation.TransGen (fun p x => p ∈ preds x) a b →
        (topologicalOrder preds succs vertices).idxOf a < (topologicalOrder preds succs vertices).idxOf b := by
      intro a b path
      induction path with
      | single edge => exact ordered.idxOf_lt order_nodup (whole _) edge
      | tail _ edge ih => exact ih.trans (ordered.idxOf_lt order_nodup (whole _) edge)
    exact lt_irrefl _ (descends x x cycle)
  · intro acyclic
    have irreflexive : Std.Irrefl (Relation.TransGen fun p x => p ∈ preds x) := ⟨acyclic⟩
    have wellFounded : WellFounded (Relation.TransGen fun p x => p ∈ preds x) :=
      Finite.wellFounded_of_trans_of_irrefl _
    have whole : ∀ y, y ∈ topologicalOrder preds succs vertices := by
      intro y
      induction y using wellFounded.induction with
      | _ y ih => exact closed y fun p edge => ih p (.single edge)
    rw [← List.toFinset_card_of_nodup order_nodup, Finset.card_eq_iff_eq_univ]
    exact Finset.eq_univ_iff_forall.mpr fun y => List.mem_toFinset.mpr (whole y)

end Order

end Kahn

/-! ## Filling a function in against the order -/

section Fill

variable {α β : Type*} [DecidableEq α]

/-- Sets the values of the listed vertices from the last one to the first. -/
def fillBack (value : (α → β) → α → β) (l : List α) (init : α → β) : α → β :=
  l.foldr (fun x f => Function.update f x (value f x)) init

/-- Each vertex is followed by its successors. -/
def Follows (succs : α → List α) : List α → Prop
  | [] => True
  | x :: rest => (∀ d ∈ succs x, d ∈ rest) ∧ Follows succs rest

/-- Where a value depends on the successors only, the filled function satisfies the
recursion it was filled by. -/
theorem fillBack_eq {succs : α → List α} {value : (α → β) → α → β}
    (congr : ∀ f g x, (∀ d ∈ succs x, f d = g d) → value f x = value g x) {l : List α}
    (nodup : l.Nodup) (follows : Follows succs l) (init : α → β) :
    ∀ x ∈ l, fillBack value l init x = value (fillBack value l init) x := by
  induction l with
  | nil => simp
  | cons y rest ih =>
    obtain ⟨fresh, rest_nodup⟩ := List.nodup_cons.mp nodup
    obtain ⟨next, later⟩ := follows
    have filled : fillBack value (y :: rest) init =
        Function.update (fillBack value rest init) y (value (fillBack value rest init) y) := rfl
    have rest_same : ∀ d ∈ rest, fillBack value (y :: rest) init d = fillBack value rest init d :=
      fun d mem => by
        rw [filled]
        exact Function.update_of_ne (fun same => fresh (by rwa [← same])) _ _
    have rest_follows : ∀ {x : α}, x ∈ rest → ∀ d ∈ succs x, d ∈ rest := by
      intro x mem
      clear ih fresh rest_nodup next filled rest_same nodup
      induction rest with
      | nil => cases mem
      | cons z more ih =>
        intro d edge
        rcases List.mem_cons.mp mem with rfl | mem
        · exact List.mem_cons_of_mem _ (later.1 d edge)
        · exact List.mem_cons_of_mem _ (ih later.2 mem d edge)
    intro x mem
    rcases List.mem_cons.mp mem with rfl | mem
    · rw [congr _ _ x fun d edge => rest_same d (next d edge), filled, Function.update_self]
    · rw [rest_same x mem, ih rest_nodup later x mem]
      exact congr _ _ x fun d edge => (rest_same d (rest_follows mem d edge)).symm

/-- A full ordered list is followed by its successors. -/
theorem Kahn.Ordered.follows {preds succs : α → List α} {l : List α} (ordered : Kahn.Ordered preds l)
    (nodup : l.Nodup) (mem_succs : ∀ x d, d ∈ succs x ↔ x ∈ preds d) (all : ∀ x, x ∈ l) :
    Follows succs l := by
  -- over the suffixes of the list, from the shortest on
  have suffix : ∀ done rest, l = done ++ rest → Follows succs rest := by
    intro done rest
    induction rest generalizing done with
    | nil => exact fun _ => trivial
    | cons x rest ih =>
      intro split
      refine ⟨fun d edge => ?_, ih (done ++ [x]) (by simp [split])⟩
      have before := ordered.idxOf_lt nodup (all d) ((mem_succs x d).mp edge)
      have place : l.idxOf x = done.length := by
        have outside : x ∉ done := fun mem => by
          rw [split] at nodup
          exact (List.nodup_append.mp nodup).2.2 x mem x (by simp) rfl
        rw [split, List.idxOf_append_of_notMem outside, List.idxOf_cons_self, Nat.add_zero]
      by_contra missing
      have early : d ∈ done ++ [x] := by
        have mem := all d
        rw [split] at mem
        simp only [List.mem_append, List.mem_cons, List.not_mem_nil, or_false] at mem ⊢
        tauto
      have late : l.idxOf d < (done ++ [x]).length := by
        have join : l = (done ++ [x]) ++ rest := by simp [split]
        rw [join, List.idxOf_append_of_mem early]
        exact List.idxOf_lt_length_iff.mpr early
      rw [place] at before
      rw [List.length_append, List.length_singleton] at late
      omega
  exact suffix [] l rfl

end Fill

/-! ## Longest paths -/

section Longest

variable {α : Type*}

/-- The largest of the values at the listed vertices, 0 for none. -/
def longest (value : α → ℕ) (l : List α) : ℕ := l.foldl (fun best d => max best (value d)) 0

theorem foldl_max_le {value : α → ℕ} {bound : ℕ} (l : List α) :
    ∀ {best : ℕ}, l.foldl (fun best d => max best (value d)) best ≤ bound ↔
      best ≤ bound ∧ ∀ d ∈ l, value d ≤ bound := by
  induction l with
  | nil => simp
  | cons d rest ih =>
    intro best
    rw [List.foldl_cons, ih, List.forall_mem_cons, max_le_iff, and_assoc]

theorem le_longest {value : α → ℕ} {l : List α} {d : α} (mem : d ∈ l) : value d ≤ longest value l :=
  ((foldl_max_le l).mp le_rfl).2 d mem

/-- The largest value is 0 or is reached. -/
theorem longest_cases (value : α → ℕ) (l : List α) :
    longest value l = 0 ∨ ∃ d ∈ l, value d = longest value l := by
  by_cases reached : ∃ d ∈ l, value d = longest value l
  · exact .inr reached
  · left
    by_contra positive
    have below : ∀ d ∈ l, value d ≤ longest value l - 1 := fun d mem => by
      have le : value d ≤ longest value l := le_longest mem
      have ne : value d ≠ longest value l := fun same => reached ⟨d, mem, same⟩
      omega
    have bound : longest value l ≤ longest value l - 1 := (foldl_max_le l).mpr ⟨Nat.zero_le _, below⟩
    omega

/-- A path from `x`: each vertex is a successor of the one before it. -/
def IsPath (succs : α → List α) (x : α) (rest : List α) : Prop :=
  List.IsChain (fun a b => b ∈ succs a) (x :: rest)

/-- The saturating longest-path recursion gives the weight of a heaviest path, cut
off at the bound. -/
theorem isGreatest_pathWeight {succs : α → List α} {weight value : α → ℕ} {bound : ℕ}
    (wellFounded : WellFounded fun d x => d ∈ succs x)
    (recursion : ∀ x, value x = min bound (weight x + longest value (succs x))) (x : α) :
    IsGreatest {w | ∃ rest, IsPath succs x rest ∧ w = min bound ((x :: rest).map weight).sum}
      (value x) := by
  induction x using wellFounded.induction with
  | _ x ih =>
    constructor
    · rcases longest_cases value (succs x) with none | ⟨d, edge, reached⟩
      · exact ⟨[], List.IsChain.singleton x, by rw [recursion, none]; simp⟩
      · obtain ⟨rest, path, weighs⟩ := (ih d edge).1
        refine ⟨d :: rest, List.IsChain.cons_cons edge path, ?_⟩
        have sum : ((x :: d :: rest).map weight).sum = weight x + ((d :: rest).map weight).sum := by
          rw [List.map_cons, List.sum_cons]
        rw [recursion, ← reached, weighs, sum]
        omega
    · rintro w ⟨rest, path, rfl⟩
      cases rest with
      | nil =>
        rw [recursion]
        simp only [List.map_cons, List.map_nil, List.sum_cons, List.sum_nil]
        omega
      | cons d rest =>
        have edge : d ∈ succs x := (List.isChain_cons_cons.mp path).1
        have tail := (ih d edge).2 ⟨rest, (List.isChain_cons_cons.mp path).2, rfl⟩
        have below : min bound ((d :: rest).map weight).sum ≤ longest value (succs x) :=
          tail.trans (le_longest edge)
        have sum : ((x :: d :: rest).map weight).sum = weight x + ((d :: rest).map weight).sum := by
          rw [List.map_cons, List.sum_cons]
        rw [recursion, sum]
        omega

end Longest

end Svp.Lib
