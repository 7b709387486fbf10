import Svp.Lib.BreadthFirst

/-!
# Breadth-first layers

A breadth-first search comes to the vertices layer by layer. `layer` is the layer
at a distance, in the order of the search: what the layer before leads to and no
earlier layer has, each vertex at its first mention. `firstBy` keeps the first
mentions.

The layers are the vertices at each distance (`mem_layer`), and no vertex is in
two of them or in one of them twice (`nodup_layers`).
-/

namespace Svp.Lib.BreadthFirst

/-! ## First mentions -/

section FirstBy

variable {M K : Type*} [DecidableEq K] {key : M → K} {seen : List K} {ms : List M} {m : M}

/-- The first entry of every key not seen before. -/
def firstBy (key : M → K) (seen : List K) : List M → List M
  | [] => []
  | m :: ms =>
    if key m ∈ seen then firstBy key seen ms else m :: firstBy key (seen ++ [key m]) ms

@[simp] theorem firstBy_nil : firstBy key seen [] = [] := rfl

theorem firstBy_append (ms ms' : List M) : firstBy key seen (ms ++ ms') =
    firstBy key seen ms ++ firstBy key (seen ++ (firstBy key seen ms).map key) ms' := by
  induction ms generalizing seen with
  | nil => simp
  | cons m ms ih =>
    simp only [List.cons_append, firstBy]
    split
    · exact ih
    · rw [ih, List.map_cons, List.append_assoc, List.cons_append]
      rfl

theorem mem_map_firstBy {k : K} :
    k ∈ (firstBy key seen ms).map key ↔ k ∈ ms.map key ∧ k ∉ seen := by
  induction ms generalizing seen with
  | nil => simp
  | cons m ms ih =>
    simp only [firstBy]
    split
    · next old =>
      rw [ih, List.map_cons, List.mem_cons]
      refine ⟨fun h => ⟨.inr h.1, h.2⟩, fun h => ⟨h.1.resolve_left ?_, h.2⟩⟩
      rintro rfl
      exact h.2 old
    · next new =>
      rw [List.map_cons, List.mem_cons, ih, List.map_cons, List.mem_cons, List.mem_append,
        List.mem_singleton, not_or]
      constructor
      · rintro (rfl | ⟨mem, unseen, -⟩)
        · exact ⟨.inl rfl, new⟩
        · exact ⟨.inr mem, unseen⟩
      · rintro ⟨here, unseen⟩
        by_cases same : k = key m
        · exact .inl same
        · exact .inr ⟨here.resolve_left same, unseen, same⟩

/-- One entry more is kept if its key is new. -/
theorem firstBy_concat (ms : List M) (m : M) : firstBy key seen (ms ++ [m]) =
    if key m ∈ seen ++ (firstBy key seen ms).map key then firstBy key seen ms
    else firstBy key seen ms ++ [m] := by
  rw [firstBy_append, firstBy]
  split
  · exact List.append_nil _
  · rfl

theorem sublist_firstBy (key : M → K) (seen : List K) (ms : List M) :
    (firstBy key seen ms).Sublist ms := by
  induction ms generalizing seen with
  | nil => exact .slnil
  | cons m ms ih =>
    simp only [firstBy]
    split
    · exact (ih seen).cons m
    · exact (ih _).cons_cons m

theorem nodup_firstBy (distinct : seen.Nodup) (ms : List M) :
    (seen ++ (firstBy key seen ms).map key).Nodup := by
  induction ms generalizing seen with
  | nil => simpa using distinct
  | cons m ms ih =>
    simp only [firstBy]
    split
    · exact ih distinct
    · next new =>
      rw [List.map_cons, ← List.singleton_append, ← List.append_assoc]
      refine ih (List.nodup_append.mpr ⟨distinct, List.nodup_singleton _, ?_⟩)
      rintro k mem k' isLast rfl
      rw [List.mem_singleton.mp isLast] at mem
      exact new mem

theorem map_firstBy (key : M → K) (seen : List K) (ms : List M) :
    (firstBy key seen ms).map key = firstBy id seen (ms.map key) := by
  induction ms generalizing seen with
  | nil => rfl
  | cons m ms ih =>
    simp only [firstBy, List.map_cons, id]
    split
    · exact ih seen
    · rw [List.map_cons, ih]

/-- What is kept comes before the other entries of its key. -/
theorem firstBy_first {R : M → M → Prop} (ordered : ms.Pairwise R) {m' : M}
    (kept : m ∈ firstBy key seen ms) (mem : m' ∈ ms) (same : key m' = key m) : m' = m ∨ R m m' := by
  induction ms generalizing seen with
  | nil => cases mem
  | cons x ms ih =>
    obtain ⟨first, ordered⟩ := List.pairwise_cons.mp ordered
    have unseen : key m ∉ seen := (mem_map_firstBy.mp (List.mem_map_of_mem kept)).2
    simp only [firstBy] at kept
    split at kept
    · next old =>
      rcases List.mem_cons.mp mem with rfl | mem
      · exact absurd (same ▸ old) unseen
      · exact ih ordered kept mem
    · rcases List.mem_cons.mp kept with rfl | later
      · exact (List.mem_cons.mp mem).imp_right (first m')
      · rcases List.mem_cons.mp mem with rfl | mem
        · have new := (mem_map_firstBy.mp (List.mem_map_of_mem later)).2
          rw [← same] at new
          exact absurd (List.mem_append_right _ (List.mem_singleton.mpr rfl)) new
        · exact ih ordered later mem

end FirstBy

/-! ## Layers -/

variable {V : Type*} [DecidableEq V] (next : V → List V) (start : V)

/-- The vertex is so far from the start and no nearer. -/
def Distance (Adj : V → V → Prop) (start : V) (d : Nat) (v : V) : Prop :=
  Walk Adj start d v ∧ ∀ n, Walk Adj start n v → d ≤ n

/-- The vertices nearer than a distance, and those at it. -/
def layers : Nat → List V × List V
  | 0 => ([], [start])
  | d + 1 =>
    let (nearer, layer) := layers d
    (nearer ++ layer, firstBy id (nearer ++ layer) (layer.flatMap next))

def nearer (d : Nat) : List V := (layers next start d).1

def layer (d : Nat) : List V := (layers next start d).2

@[simp] theorem nearer_zero : nearer next start 0 = [] := rfl

@[simp] theorem layer_zero : layer next start 0 = [start] := rfl

theorem nearer_succ (d : Nat) :
    nearer next start (d + 1) = nearer next start d ++ layer next start d := rfl

theorem layer_succ (d : Nat) : layer next start (d + 1) =
    firstBy id (nearer next start (d + 1)) ((layer next start d).flatMap next) := rfl

variable {next start}

theorem mem_layer_succ {d : Nat} {v : V} : v ∈ layer next start (d + 1) ↔
    (∃ u ∈ layer next start d, v ∈ next u) ∧ v ∉ nearer next start (d + 1) := by
  have mem := @mem_map_firstBy V V _ id (nearer next start (d + 1))
    ((layer next start d).flatMap next) v
  rw [List.map_id, List.map_id, ← layer_succ, List.mem_flatMap] at mem
  exact mem

/-- The layers so far are the vertices that short walks lead to. -/
theorem mem_layers (d : Nat) :
    (∀ v, v ∈ nearer next start d ↔ ∃ n < d, Walk (fun u v => v ∈ next u) start n v) ∧
      ∀ v, v ∈ layer next start d ↔ Distance (fun u v => v ∈ next u) start d v := by
  induction d with
  | zero =>
    refine ⟨fun v => by simp, fun v => ?_⟩
    rw [layer_zero, List.mem_singleton]
    constructor
    · rintro rfl
      exact ⟨.nil, fun n _ => n.zero_le⟩
    · rintro ⟨walk, -⟩
      cases walk
      rfl
  | succ d ih =>
    obtain ⟨near, far⟩ := ih
    have near' : ∀ v, v ∈ nearer next start (d + 1) ↔
        ∃ n < d + 1, Walk (fun u v => v ∈ next u) start n v := fun v => by
      rw [nearer_succ, List.mem_append, near, far]
      constructor
      · rintro (⟨n, short, walk⟩ | ⟨walk, -⟩)
        · exact ⟨n, Nat.lt_succ_of_lt short, walk⟩
        · exact ⟨d, Nat.lt_succ_self d, walk⟩
      · rintro ⟨n, short, walk⟩
        by_cases shorter : ∃ m < d, Walk (fun u v => v ∈ next u) start m v
        · exact .inl shorter
        · have least : ∀ m, Walk (fun u v => v ∈ next u) start m v → d ≤ m := fun m walk =>
            not_lt.mp fun lt => shorter ⟨m, lt, walk⟩
          have same : n = d := le_antisymm (Nat.le_of_lt_succ short) (least n walk)
          exact .inr ⟨same ▸ walk, least⟩
    refine ⟨near', fun v => ?_⟩
    rw [mem_layer_succ, near']
    constructor
    · rintro ⟨⟨u, atU, adj⟩, new⟩
      refine ⟨.snoc ((far u).mp atU).1 adj, fun n walk => not_lt.mp fun short => ?_⟩
      exact new ⟨n, short, walk⟩
    · rintro ⟨walk, least⟩
      refine ⟨?_, fun ⟨n, short, walk⟩ => (least n walk).not_gt short⟩
      cases walk with
      | @snoc _ u _ walk adj =>
        -- a shorter way to the vertex before would be a shorter way on
        refine ⟨u, (far u).mpr ⟨walk, fun n shorter => ?_⟩, adj⟩
        exact Nat.le_of_succ_le_succ (least (n + 1) (.snoc shorter adj))

theorem mem_layer {d : Nat} {v : V} :
    v ∈ layer next start d ↔ Distance (fun u v => v ∈ next u) start d v := (mem_layers d).2 v

theorem nodup_layers (d : Nat) : (nearer next start d ++ layer next start d).Nodup := by
  induction d with
  | zero => simp
  | succ d ih =>
    have distinct := @nodup_firstBy V V _ id _ ih ((layer next start d).flatMap next)
    rw [List.map_id] at distinct
    exact distinct

theorem nearer_eq (d : Nat) : nearer next start d = (List.range d).flatMap (layer next start) := by
  induction d with
  | zero => rfl
  | succ d ih => rw [List.range_succ, List.flatMap_append, List.flatMap_singleton, ← ih, nearer_succ]

theorem nearer_extends {d d' : Nat} (le : d ≤ d') : nearer next start d <+: nearer next start d' := by
  induction le with
  | refl => exact List.prefix_refl _
  | step _ ih => exact ih.trans (List.prefix_append _ _)

/-- Whatever is found is the start or follows some vertex. -/
theorem eq_or_next {d : Nat} {v : V} (mem : v ∈ nearer next start d) :
    v = start ∨ ∃ u, v ∈ next u := by
  obtain ⟨n, -, walk⟩ := ((mem_layers d).1 v).mp mem
  cases walk with
  | nil => exact .inl rfl
  | @snoc n u _ _ adj => exact .inr ⟨u, adj⟩

section Search

variable {M N : Type*} {neighbor : M → V} {entries : Nat → V → List M}

/-- The entries a search reads at the vertices nearer than a distance, in its order. -/
def entriesBefore (next : V → List V) (start : V) (entries : Nat → V → List M) (d : Nat) : List M :=
  (List.range d).flatMap fun j => (layer next start j).flatMap (entries j)

theorem entriesBefore_succ (d : Nat) : entriesBefore next start entries (d + 1) =
    entriesBefore next start entries d ++ (layer next start d).flatMap (entries d) := by
  rw [entriesBefore, List.range_succ, List.flatMap_append, List.flatMap_singleton]
  rfl

theorem mem_entriesBefore {d : Nat} {m : M} : m ∈ entriesBefore next start entries d ↔
    ∃ j < d, ∃ u ∈ layer next start j, m ∈ entries j u := by
  simp only [entriesBefore, List.mem_flatMap, List.mem_range]

theorem entriesBefore_ordered {depth : M → Nat} (atDepth : ∀ d u, ∀ m ∈ entries d u, depth m = d)
    (d : Nat) : (entriesBefore next start entries d).Pairwise fun m m' => depth m ≤ depth m' := by
  induction d with
  | zero => exact .nil
  | succ d ih =>
    have atLayer : ∀ m ∈ (layer next start d).flatMap (entries d), depth m = d := fun m mem => by
      obtain ⟨u, -, mem⟩ := List.mem_flatMap.mp mem
      exact atDepth d u m mem
    rw [entriesBefore_succ]
    refine List.pairwise_append.mpr ⟨ih, ?_, fun m mem m' mem' => ?_⟩
    · refine List.Pairwise.imp_of_mem (fun mem mem' _ => ?_) (List.pairwise_of_forall fun _ _ => trivial)
      rw [atLayer _ mem, atLayer _ mem']
    · obtain ⟨j, lt, u, -, mem⟩ := mem_entriesBefore.mp mem
      rw [atDepth j u m mem, atLayer m' mem']
      exact lt.le

/-- A search that notes where every entry leads notes the layers in turn. -/
theorem noted_layers (leads : ∀ d u, (entries d u).map neighbor = next u) (d : Nat) :
    start :: (firstBy neighbor [start] (entriesBefore next start entries d)).map neighbor =
      nearer next start d ++ layer next start d := by
  induction d with
  | zero => rfl
  | succ d ih =>
    rw [entriesBefore_succ, firstBy_append, List.map_append, ← List.cons_append,
      List.singleton_append, ih, map_firstBy, List.map_flatMap]
    simp only [leads]
    rfl

/-- What it makes of a vertex and its depth, it makes of the layers in turn. -/
theorem noted_depths (leads : ∀ d u, (entries d u).map neighbor = next u) {depth : M → Nat}
    (atDepth : ∀ d u, ∀ m ∈ entries d u, depth m = d) (node : V → Nat → N) (d : Nat) :
    node start 0 :: (firstBy neighbor [start] (entriesBefore next start entries d)).map
        (fun m => node (neighbor m) (depth m + 1)) =
      (List.range (d + 1)).flatMap fun j => (layer next start j).map (node · j) := by
  induction d with
  | zero => rfl
  | succ d ih =>
    have noted : [start] ++ (firstBy neighbor [start]
        (entriesBefore next start entries d)).map neighbor = nearer next start (d + 1) :=
      noted_layers leads d
    rw [entriesBefore_succ, firstBy_append, noted, List.map_append, ← List.cons_append, ih,
      @List.range_succ (d + 1), List.flatMap_append, List.flatMap_singleton]
    refine congrArg _ ?_
    have below : layer next start (d + 1) =
        (firstBy neighbor (nearer next start (d + 1))
          ((layer next start d).flatMap (entries d))).map neighbor := by
      rw [map_firstBy, List.map_flatMap]
      simp only [leads]
      rfl
    rw [below, List.map_map]
    refine List.map_congr_left fun m kept => ?_
    obtain ⟨u, -, mem⟩ := List.mem_flatMap.mp ((sublist_firstBy _ _ _).subset kept)
    rw [atDepth d u m mem]
    rfl

end Search

end Svp.Lib.BreadthFirst
