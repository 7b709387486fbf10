import Mathlib

/-!
# Breadth-first search

A search keeps the depth at which it discovered each vertex and a queue of the
vertices whose neighbours it has yet to look at. `Explored` is what holds of the
two between any two discoveries; `minimal` says that every depth is then the
distance from the start, `complete` that nothing within the limit is left out
once the queue is empty. `Tree` is what holds of the recorded predecessors, and
`Route` a path read off them.
-/

namespace Svp.Lib.BreadthFirst

variable {V E : Type*}

/-- So many steps lead from one vertex to the other. -/
inductive Walk (Adj : V → V → Prop) (u : V) : Nat → V → Prop
  | nil : Walk Adj u 0 u
  | snoc {n : Nat} {v w : V} : Walk Adj u n v → Adj v w → Walk Adj u (n + 1) w

/-- The depths are found from the start outwards, up to the limit, and the
vertices off the queue have had their neighbours looked at. -/
structure Explored (Adj : V → V → Prop) (limit : Nat) (start : V) (depth : V → Option Nat)
    (frontier : List V) : Prop where
  root : depth start = some 0
  walk : ∀ v d, depth v = some d → Walk Adj start d v
  bounded : ∀ v d, depth v = some d → d ≤ limit
  queued : ∀ u ∈ frontier, ∃ d, depth u = some d
  ordered : frontier.Pairwise fun u v => ∀ du dv, depth u = some du → depth v = some dv → du ≤ dv
  /-- Nothing is discovered more than one level below the queue. -/
  near : ∀ u ∈ frontier, ∀ v du dv, depth u = some du → depth v = some dv → dv ≤ du + 1
  closed : ∀ u d, depth u = some d → d < limit → u ∉ frontier →
    ∀ w, Adj u w → ∃ dw, depth w = some dw ∧ dw ≤ d + 1

namespace Explored

variable {Adj : V → V → Prop} {limit : Nat} {start u v w : V} {depth : V → Option Nat}
  {frontier rest : List V} {d n : Nat}

/-- A walk shorter than some depth stays among the discovered vertices. -/
theorem reach (h : Explored Adj limit start depth frontier) (found : depth v = some d)
    (walk : Walk Adj start n w) (short : n < d) : ∃ dw ≤ n, depth w = some dw := by
  induction walk with
  | nil => exact ⟨0, le_rfl, h.root⟩
  | @snoc n u w _ adj ih =>
    obtain ⟨du, le, atU⟩ := ih (Nat.lt_of_succ_lt short)
    have limited : du < limit := by
      have := h.bounded v d found
      omega
    have looked : u ∉ frontier := fun mem => by
      have := h.near u mem v du d atU found
      omega
    obtain ⟨dw, atW, leW⟩ := h.closed u du atU limited looked w adj
    exact ⟨dw, leW.trans (Nat.succ_le_succ le), atW⟩

/-- Every depth is the distance from the start. -/
theorem minimal (h : Explored Adj limit start depth frontier) (found : depth v = some d)
    (walk : Walk Adj start n v) : d ≤ n := by
  by_contra short
  obtain ⟨dv, le, atV⟩ := h.reach found walk (not_le.mp short)
  rw [found] at atV
  cases atV
  exact short le

/-- Once the queue is empty, everything within the limit is discovered. -/
theorem complete (h : Explored Adj limit start depth []) (walk : Walk Adj start n v)
    (within : n ≤ limit) : ∃ d ≤ n, depth v = some d := by
  induction walk with
  | nil => exact ⟨0, le_rfl, h.root⟩
  | @snoc n u w _ adj ih =>
    obtain ⟨du, le, atU⟩ := ih (Nat.le_of_succ_le within)
    obtain ⟨dw, atW, leW⟩ :=
      h.closed u du atU (lt_of_le_of_lt le within) List.not_mem_nil w adj
    exact ⟨dw, leW.trans (Nat.succ_le_succ le), atW⟩

variable [DecidableEq V]

/-- Before the search only the start is discovered. -/
theorem initial (Adj : V → V → Prop) (limit : Nat) (start : V) :
    Explored Adj limit start (Function.update (fun _ => none) start (some 0)) [start] := by
  have only : ∀ v d, Function.update (fun _ => none) start (some 0) v = some d → v = start ∧ d = 0 := by
    intro v d found
    rw [Function.update_apply] at found
    split at found
    · next same =>
      cases found
      exact ⟨same, rfl⟩
    · cases found
  refine ⟨Function.update_self .., fun v d found => ?_, fun v d found => ?_, fun u mem => ?_,
    List.pairwise_singleton _ _, fun u _ v du dv _ found => ?_, fun u d found _ looked => ?_⟩
  · obtain ⟨rfl, rfl⟩ := only v d found
    exact .nil
  · rw [(only v d found).2]
    exact Nat.zero_le _
  · rw [List.mem_singleton.mp mem]
    exact ⟨0, Function.update_self ..⟩
  · rw [(only v dv found).2]
    exact Nat.zero_le _
  · exact absurd (List.mem_singleton.mpr (only u d found).1) looked

/-- A new vertex is discovered from the head of the queue. -/
theorem discover (h : Explored Adj limit start depth (u :: rest)) (atU : depth u = some d)
    (limited : d < limit) (new : depth w = none) (adj : Adj u w) :
    Explored Adj limit start (Function.update depth w (some (d + 1))) (u :: (rest ++ [w])) := by
  have isNew : ∀ v dv, depth v = some dv → v ≠ w := by
    rintro v dv found rfl
    rw [new] at found
    cases found
  have old : ∀ v dv, depth v = some dv → Function.update depth w (some (d + 1)) v = some dv :=
    fun v dv found => (Function.update_of_ne (isNew v dv found) _ _).trans found
  -- a discovered vertex is an old one, or the new one a level below the head
  have cases_ : ∀ v dv, Function.update depth w (some (d + 1)) v = some dv →
      depth v = some dv ∨ v = w ∧ dv = d + 1 := by
    intro v dv found
    rw [Function.update_apply] at found
    split at found
    · next same =>
      cases found
      exact .inr ⟨same, rfl⟩
    · exact .inl found
  have head : u ∈ u :: rest := List.mem_cons_self
  have oldQueue : ∀ x ∈ u :: (rest ++ [w]), x ∈ u :: rest ∨ x = w := fun x mem => by
    rw [← List.cons_append] at mem
    exact (List.mem_append.mp mem).imp_right List.mem_singleton.mp
  -- the head is the least of the queue
  have least : ∀ x ∈ u :: rest, ∀ dx, depth x = some dx → d ≤ dx := by
    intro x mem dx atX
    rcases List.mem_cons.mp mem with rfl | mem
    · rw [atU] at atX
      cases atX
      exact le_rfl
    · exact (List.pairwise_cons.mp h.ordered).1 x mem d dx atU atX
  refine ⟨old _ _ h.root, fun v dv found => ?_, fun v dv found => ?_, fun x mem => ?_, ?_,
    fun x mem v dx dv atX atV => ?_, fun x dx atX limitedX looked y adjY => ?_⟩
  · rcases cases_ v dv found with found | ⟨rfl, rfl⟩
    · exact h.walk v dv found
    · exact .snoc (h.walk u d atU) adj
  · rcases cases_ v dv found with found | ⟨rfl, rfl⟩
    · exact h.bounded v dv found
    · exact limited
  · rcases oldQueue x mem with mem | rfl
    · obtain ⟨dx, atX⟩ := h.queued x mem
      exact ⟨dx, old x dx atX⟩
    · exact ⟨d + 1, Function.update_self ..⟩
  · rw [← List.cons_append]
    refine List.pairwise_append.mpr ⟨?_, List.pairwise_singleton _ _, fun x mem y isLast => ?_⟩
    · refine List.Pairwise.imp_of_mem (fun memX memY le dx dy atX atY => ?_) h.ordered
      obtain ⟨dx', atX'⟩ := h.queued _ memX
      obtain ⟨dy', atY'⟩ := h.queued _ memY
      rw [old _ _ atX'] at atX
      rw [old _ _ atY'] at atY
      cases atX
      cases atY
      exact le _ _ atX' atY'
    · intro dx dy atX atY
      obtain ⟨dx', atX'⟩ := h.queued x mem
      rw [old _ _ atX'] at atX
      rw [List.mem_singleton.mp isLast, Function.update_self] at atY
      cases atX
      cases atY
      exact h.near u head x d dx atU atX'
  · have oldX : depth x = some dx → x ∈ u :: rest := fun atX' =>
      (oldQueue x mem).resolve_right (isNew x dx atX')
    rcases cases_ v dv atV with atV' | ⟨rfl, rfl⟩
    · rcases cases_ x dx atX with atX' | ⟨-, rfl⟩
      · exact h.near x (oldX atX') v dx dv atX' atV'
      · exact (h.near u head v d dv atU atV').trans (Nat.le_succ _)
    · rcases cases_ x dx atX with atX' | ⟨-, rfl⟩
      · exact Nat.succ_le_succ (least x (oldX atX') dx atX')
      · exact Nat.le_succ _
  · have queued : ∀ z ∈ u :: rest, z ∈ u :: (rest ++ [w]) := fun z mem => by
      rw [← List.cons_append]
      exact List.mem_append_left _ mem
    rcases cases_ x dx atX with atX | ⟨rfl, -⟩
    · obtain ⟨dy, atY, le⟩ := h.closed x dx atX limitedX (fun mem => looked (queued x mem)) y adjY
      exact ⟨dy, old y dy atY, le⟩
    · refine absurd ?_ looked
      rw [← List.cons_append]
      exact List.mem_append_right _ List.mem_cons_self

omit [DecidableEq V] in
/-- The head leaves the queue when its neighbours are discovered. -/
theorem leave (h : Explored Adj limit start depth (u :: rest))
    (looked : ∀ d, depth u = some d → d < limit → ∀ w, Adj u w → ∃ dw, depth w = some dw) :
    Explored Adj limit start depth rest := by
  have queued : ∀ x ∈ rest, x ∈ u :: rest := fun x mem => List.mem_cons_of_mem u mem
  refine ⟨h.root, h.walk, h.bounded, fun x mem => h.queued x (queued x mem),
    (List.pairwise_cons.mp h.ordered).2, fun x mem => h.near x (queued x mem),
    fun x d atX limited notIn w adj => ?_⟩
  by_cases same : x = u
  · subst same
    obtain ⟨dw, atW⟩ := looked d atX limited w adj
    exact ⟨dw, atW, h.near x List.mem_cons_self w d dw atX atW⟩
  · exact h.closed x d atX limited (List.not_mem_cons_of_ne_of_not_mem same notIn) w adj

end Explored

/-! ## Predecessors -/

/-- Every vertex but the start was discovered over an edge from a vertex one level
above. -/
structure Tree (Step : V → E → V → Prop) (start : V) (depth : V → Option Nat)
    (parent : V → Option V) (edge : V → Option E) : Prop where
  root : ∀ v, depth v = some 0 → v = start
  step : ∀ v d, depth v = some (d + 1) →
    ∃ u e, parent v = some u ∧ edge v = some e ∧ depth u = some d ∧ Step u e v

/-- A path from the start: its vertices, its edges and its end. -/
inductive Route (Step : V → E → V → Prop) (start : V) : List V → List E → V → Prop
  | nil : Route Step start [start] [] start
  | snoc {ids : List V} {edges : List E} {u v : V} {e : E} :
      Route Step start ids edges u → Step u e v → Route Step start (ids ++ [v]) (edges ++ [e]) v

variable {Step : V → E → V → Prop} {start v w u : V} {depth : V → Option Nat} {e : E} {d : Nat}
  {parent : V → Option V} {edge : V → Option E}

theorem Tree.initial [DecidableEq V] (Step : V → E → V → Prop) (start : V) :
    Tree Step start (Function.update (fun _ => none) start (some 0)) (fun _ => none)
      (fun _ => none) := by
  constructor
  · intro v found
    by_contra other
    rw [Function.update_of_ne other] at found
    cases found
  · intro v d found
    rw [Function.update_apply] at found
    split at found <;> cases found

theorem Tree.discover [DecidableEq V] (h : Tree Step start depth parent edge)
    (atU : depth u = some d) (new : depth w = none) (step : Step u e w) :
    Tree Step start (Function.update depth w (some (d + 1))) (Function.update parent w (some u))
      (Function.update edge w (some e)) := by
  have kept : ∀ x dx, depth x = some dx → x ≠ w := by
    rintro x dx found rfl
    rw [new] at found
    cases found
  constructor
  · intro v found
    rw [Function.update_apply] at found
    split at found
    · cases found
    · exact h.root v found
  · intro v dv found
    by_cases same : v = w
    · subst same
      rw [Function.update_self] at found
      cases found
      refine ⟨u, e, Function.update_self .., Function.update_self .., ?_, step⟩
      rw [Function.update_of_ne (kept u d atU)]
      exact atU
    · rw [Function.update_of_ne same] at found
      obtain ⟨x, f, isParent, isEdge, atX, step⟩ := h.step v dv found
      refine ⟨x, f, ?_, ?_, ?_, step⟩
      · rw [Function.update_of_ne same]
        exact isParent
      · rw [Function.update_of_ne same]
        exact isEdge
      · rw [Function.update_of_ne (kept x dv atX)]
        exact atX

namespace Route

variable {ids : List V} {edges : List E}

theorem length (route : Route Step start ids edges v) : ids.length = edges.length + 1 := by
  induction route with
  | nil => rfl
  | snoc _ _ ih => simp [ih]

theorem first (route : Route Step start ids edges v) : ids[0]? = some start := by
  induction route with
  | nil => rfl
  | snoc route _ ih =>
    rw [List.getElem?_append_left (by rw [route.length]; exact Nat.succ_pos _)]
    exact ih

theorem last (route : Route Step start ids edges v) : ids[edges.length]? = some v := by
  cases route with
  | nil => rfl
  | snoc route _ => simp [route.length]

/-- Consecutive edges share their end vertices. -/
theorem step (route : Route Step start ids edges v) {i : Nat} (isEdge : edges[i]? = some e) :
    ∃ u w, ids[i]? = some u ∧ ids[i + 1]? = some w ∧ Step u e w := by
  induction route with
  | nil => cases isEdge
  | @snoc ids edges x y f route step ih =>
    rcases lt_or_ge i edges.length with lt | ge
    · rw [List.getElem?_append_left lt] at isEdge
      obtain ⟨u, w, atI, next, step⟩ := ih isEdge
      have within : i + 1 < ids.length := by
        rw [route.length]
        exact Nat.succ_lt_succ lt
      refine ⟨u, w, ?_, ?_, step⟩
      · rw [List.getElem?_append_left (Nat.lt_of_succ_lt within)]
        exact atI
      · rw [List.getElem?_append_left within]
        exact next
    · have isLast : i = edges.length ∧ f = e := by
        rw [List.getElem?_append_right ge, List.getElem?_singleton] at isEdge
        split at isEdge
        · next zero =>
          cases isEdge
          exact ⟨le_antisymm (Nat.sub_eq_zero_iff_le.mp zero) ge, rfl⟩
        · cases isEdge
      obtain ⟨rfl, rfl⟩ := isLast
      have size : edges.length < ids.length := by
        rw [route.length]
        exact Nat.lt_succ_self _
      refine ⟨x, y, ?_, ?_, step⟩
      · rw [List.getElem?_append_left size]
        exact route.last
      · rw [← route.length]
        simp

end Route

/-! ## Termination -/

/-- The vertices not yet discovered. -/
def unseen [DecidableEq V] (vertices : Finset V) (depth : V → Option Nat) : Nat :=
  (vertices.filter fun v => depth v = none).card

theorem unseen_discover [DecidableEq V] {vertices : Finset V} (mem : w ∈ vertices)
    (new : depth w = none) (d : Nat) :
    unseen vertices (Function.update depth w (some d)) + 1 = unseen vertices depth := by
  have same : (vertices.filter fun v => Function.update depth w (some d) v = none) =
      (vertices.filter fun v => depth v = none).erase w := by
    ext v
    by_cases isW : v = w
    · simp [isW]
    · simp [isW]
  rw [unseen, same]
  exact Finset.card_erase_add_one (Finset.mem_filter.mpr ⟨mem, new⟩)

end Svp.Lib.BreadthFirst
