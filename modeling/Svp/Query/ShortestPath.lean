import Svp.Lib.BreadthFirst
import Svp.Query.PackageGraph

/-!
# Shortest paths between objects

`findShortestPath` searches breadth first from the start and reads the path off
the recorded predecessors. Its loop is `search`, with as many rounds as there can
be vertices. Between two discoveries the maps satisfy `Searching`, which is the
library's `Explored` and `Tree` for the graph of the qualifying relationships.

The result is a shortest path within the depth exactly when there is one
(`shortest_path`). A query from an object to itself is answered whatever the
depth, and one without a start or a target is refused (`path_to_itself`).
-/

namespace Svp.Query

open Exec (Json)
open Lib.BreadthFirst

/-! ## The program -/

structure TraversalNode where
  objectId : String
  depth : Nat := 0
  resolved : Bool := false
  sourceLayer : String := ""
  summary : Json := .null

structure TraversalEdge where
  relationshipId : String
  relationshipType : String
  relationshipClass : String
  sourceId : String
  targetId : String
  direction : String
  depth : Nat
  record : Json

structure PathResult where
  startId : String
  targetId : String
  pathFound : Bool := false
  pathNodes : List TraversalNode := []
  pathEdges : List TraversalEdge := []
  errorMessage : String := ""

/-- The maps and the queue of the search. -/
structure Search where
  depthMap : String → Option Nat
  parentMap : String → Option String := fun _ => none
  parentEdgeIdx : String → Option Nat := fun _ => none
  frontier : List String
  found : Bool := false

namespace Search

/-- One turn of the loop over the edges at a node; `loaded.edges` has the edge. -/
def visit (options : TraversalOptions) (edges : List GraphEdge) (currentId : String)
    (currentDepth : Nat) (direction : String) (s : Search) (idx : Nat) : Search :=
  if s.found then s
  else
    match edges[idx]? with
    | none => s
    | some edge =>
      let neighborId := if direction = "outgoing" then edge.targetId else edge.sourceId
      if (s.depthMap neighborId).isSome then s
      else
        let s :=
          { s with
            depthMap := Function.update s.depthMap neighborId (some (currentDepth + 1))
            parentMap := Function.update s.parentMap neighborId (some currentId)
            parentEdgeIdx := Function.update s.parentEdgeIdx neighborId (some idx) }
        if neighborId = options.targetId then { s with found := true }
        else { s with frontier := s.frontier ++ [neighborId] }

def processNeighbors (options : TraversalOptions) (edges : List GraphEdge) (currentId : String)
    (currentDepth : Nat) (edgeIndices : List Nat) (direction : String) (s : Search) : Search :=
  edgeIndices.foldl (visit options edges currentId currentDepth direction) s

/-- The edges at the current node, in the directions asked for. -/
def processNode (options : TraversalOptions) (edges : List GraphEdge) (currentId : String)
    (currentDepth : Nat) (node : GraphNode) (s : Search) : Search :=
  let s :=
    if options.direction = .outgoing ∨ options.direction = .both then
      s.processNeighbors options edges currentId currentDepth node.outgoing "outgoing"
    else s
  if options.direction = .incoming ∨ options.direction = .both then
    s.processNeighbors options edges currentId currentDepth node.incoming "incoming"
  else s

/-- One round of the main loop, the queue not empty. -/
def round (loaded : LoadedEdges) (options : TraversalOptions) (s : Search) : Search :=
  match s.frontier with
  | [] => s
  | currentId :: frontier =>
    let s := { s with frontier }
    let currentDepth : Nat := (s.depthMap currentId).getD 0
    if options.maxDepth ≤ currentDepth then s
    else
      match loaded.nodes currentId with
      | none => s
      | some node => s.processNode options loaded.edges currentId currentDepth node

/-- The main loop, with a bound on its rounds. -/
def run (loaded : LoadedEdges) (options : TraversalOptions) : Nat → Search → Search
  | 0, s => s
  | rounds + 1, s =>
    if s.frontier.isEmpty || s.found then s else run loaded options rounds (round loaded options s)

def start (startId : String) : Search where
  depthMap := Function.update (fun _ => none) startId (some 0)
  frontier := [startId]

/-- The vertices from `current` back to the start, the start left out, and the
edges they were discovered over. -/
def walkBack (s : Search) (startId : String) : Nat → String → List String × List Nat
  | 0, _ => ([], [])
  | steps + 1, current =>
    if current = startId then ([], [])
    else
      let (pathIds, pathEdgeIndices) := s.walkBack startId steps ((s.parentMap current).getD "")
      (current :: pathIds, (s.parentEdgeIdx current).getD 0 :: pathEdgeIndices)

end Search

/-- The search with enough rounds for every end of an edge. -/
def search (loaded : LoadedEdges) (options : TraversalOptions) : Search :=
  .run loaded options (2 * loaded.edges.length + 1) (.start options.startId)

def ObjectCatalog.pathNode (catalog : ObjectCatalog) (id : String) (depth : Nat) : TraversalNode where
  objectId := id
  depth
  resolved := (catalog.find id).isSome
  sourceLayer := ((catalog.find id).map CatalogEntry.sourceLayer).getD ""
  summary := catalog.nodeSummary id

def GraphEdge.pathEdge (edge : GraphEdge) (fromId : String) (depth : Nat) : TraversalEdge where
  relationshipId := edge.relationshipId
  relationshipType := edge.relationshipType
  relationshipClass := edge.relationshipClass
  sourceId := edge.sourceId
  targetId := edge.targetId
  direction := if edge.sourceId = fromId then "outgoing" else "incoming"
  depth
  record := edge.record

def noEdge : GraphEdge :=
  { relationshipId := "", relationshipType := "", relationshipClass := "", sourceId := "",
    targetId := "", record := .null }

/-- The path that ends at the target. -/
def readPath (package : Package) (options : TraversalOptions) (loaded : LoadedEdges) (s : Search) :
    PathResult :=
  let catalog := buildObjectCatalog package
  let (ids, indices) := s.walkBack options.startId options.maxDepth.toNat options.targetId
  let pathIds := (ids ++ [options.startId]).reverse
  let pathEdgeIndices := indices.reverse
  { startId := options.startId
    targetId := options.targetId
    pathFound := true
    pathNodes := pathIds.zipIdx.map fun entry => catalog.pathNode entry.1 entry.2
    pathEdges := pathEdgeIndices.zipIdx.map fun entry =>
      (loaded.edges.getD entry.1 noEdge).pathEdge (pathIds.getD entry.2 "") (entry.2 + 1) }

def findShortestPath (package : Package) (options : TraversalOptions) : PathResult :=
  let result : PathResult := { startId := options.startId, targetId := options.targetId }
  if options.startId = "" ∨ options.targetId = "" then
    { result with errorMessage := "both --from and --to are required for path finding" }
  else if options.startId = options.targetId then
    { result with
      pathFound := true
      pathNodes := [(buildObjectCatalog package).pathNode options.startId 0] }
  else
    let loaded := loadRelationshipEdges package options
    if loaded.errorMessage ≠ "" then { result with errorMessage := loaded.errorMessage }
    else
      let s := search loaded options
      if s.found then readPath package options loaded s
      else
        { result with
          errorMessage := "no path found from " ++ options.startId ++ " to " ++ options.targetId ++
            " within depth " ++ toString options.maxDepth }

/-! ## The graph of a query -/

/-- The edge of that index may be crossed between the two objects, in a direction
the query asks for. -/
def Crosses (loaded : LoadedEdges) (options : TraversalOptions) (u : String) (idx : Nat)
    (v : String) : Prop :=
  ∃ edge, loaded.edges[idx]? = some edge ∧
    ((options.direction = .outgoing ∨ options.direction = .both) ∧
        edge.sourceId = u ∧ edge.targetId = v ∨
      (options.direction = .incoming ∨ options.direction = .both) ∧
        edge.targetId = u ∧ edge.sourceId = v)

/-- Some qualifying relationship leads from one object to the other. -/
def Adjacent (loaded : LoadedEdges) (options : TraversalOptions) (u v : String) : Prop :=
  ∃ idx, Crosses loaded options u idx v

/-- An edge crossed to another object. -/
def Step (loaded : LoadedEdges) (options : TraversalOptions) (u : String) (idx : Nat) (v : String) :
    Prop :=
  Crosses loaded options u idx v ∧ u ≠ v

/-- The ends of the edges. -/
def endpoints (loaded : LoadedEdges) : Finset String :=
  (loaded.edges.flatMap fun edge => [edge.sourceId, edge.targetId]).toFinset

variable {loaded : LoadedEdges} {options : TraversalOptions}

theorem card_endpoints (loaded : LoadedEdges) :
    (endpoints loaded).card ≤ 2 * loaded.edges.length := by
  refine (List.toFinset_card_le _).trans ?_
  rw [List.length_flatMap]
  simp [mul_comm]

theorem Crosses.mem_endpoints {u v : String} {idx : Nat} (crosses : Crosses loaded options u idx v) :
    v ∈ endpoints loaded := by
  obtain ⟨edge, found, either⟩ := crosses
  have mem := List.mem_of_getElem? found
  refine List.mem_toFinset.mpr (List.mem_flatMap.mpr ⟨edge, mem, ?_⟩)
  rcases either with ⟨-, -, rfl⟩ | ⟨-, -, rfl⟩
  · simp
  · simp

/-! ## What the search keeps -/

/-- The library's invariants of the maps, with this queue. -/
structure Searching (loaded : LoadedEdges) (options : TraversalOptions) (s : Search)
    (frontier : List String) : Prop where
  explored : Explored (Adjacent loaded options) options.maxDepth.toNat options.startId s.depthMap
    frontier
  tree : Tree (Step loaded options) options.startId s.depthMap s.parentMap s.parentEdgeIdx
  target : s.found = (s.depthMap options.targetId).isSome

/-- From `s` to `s'` the depths stay, and the queue grows by at most what is
discovered. -/
structure Discovers (loaded : LoadedEdges) (s s' : Search) : Prop where
  kept : ∀ v d, s.depthMap v = some d → s'.depthMap v = some d
  paid : s'.frontier.length + unseen (endpoints loaded) s'.depthMap ≤
    s.frontier.length + unseen (endpoints loaded) s.depthMap

theorem Discovers.refl (s : Search) : Discovers loaded s s := ⟨fun _ _ found => found, le_rfl⟩

theorem Discovers.trans {s s' s'' : Search} (h : Discovers loaded s s')
    (h' : Discovers loaded s' s'') : Discovers loaded s s'' :=
  ⟨fun v d found => h'.kept v d (h.kept v d found), h'.paid.trans h.paid⟩

theorem searching_start (different : options.startId ≠ options.targetId) :
    Searching loaded options (.start options.startId) [options.startId] where
  explored := .initial _ _ _
  tree := .initial _ _
  target := by
    simp [Search.start, Function.update_of_ne different.symm]

/-- What is known while the edges at the current node are gone through. The
current node still counts as queued; once the target is found, so does it. -/
structure Visiting (loaded : LoadedEdges) (options : TraversalOptions) (currentId : String)
    (currentDepth : Nat) (s : Search) : Prop where
  searching : ∃ frontier, Searching loaded options s (currentId :: frontier) ∧
    (s.found = false → frontier = s.frontier)
  current : s.depthMap currentId = some currentDepth
  limited : currentDepth < options.maxDepth.toNat

/-- The maps with a new vertex discovered from the current one. -/
theorem visiting_discover {currentId w : String} {currentDepth idx : Nat} {s s' : Search}
    (h : Visiting loaded options currentId currentDepth s) (going : s.found = false)
    (new : s.depthMap w = none) (crosses : Crosses loaded options currentId idx w)
    (depthMap : s'.depthMap = Function.update s.depthMap w (some (currentDepth + 1)))
    (parentMap : s'.parentMap = Function.update s.parentMap w (some currentId))
    (parentEdgeIdx : s'.parentEdgeIdx = Function.update s.parentEdgeIdx w (some idx))
    (found : s'.found = decide (w = options.targetId))
    (frontier : s'.frontier = if w = options.targetId then s.frontier else s.frontier ++ [w]) :
    Visiting loaded options currentId currentDepth s' ∧ Discovers loaded s s' ∧
      s'.depthMap w = some (currentDepth + 1) := by
  obtain ⟨queue, searching, same⟩ := h.searching
  have same := same going
  have different : currentId ≠ w := by
    rintro rfl
    rw [h.current] at new
    cases new
  have old : ∀ v d, s.depthMap v = some d → v ≠ w := by
    rintro v d atV rfl
    rw [atV] at new
    cases new
  have kept : ∀ v d, s.depthMap v = some d → s'.depthMap v = some d := fun v d atV => by
    rw [depthMap, Function.update_of_ne (old v d atV), atV]
  refine ⟨⟨⟨queue ++ [w], ⟨?_, ?_, ?_⟩, fun still => ?_⟩, kept _ _ h.current, h.limited⟩,
    ⟨kept, ?_⟩, ?_⟩
  · rw [depthMap]
    exact searching.explored.discover h.current h.limited new ⟨idx, crosses⟩
  · rw [depthMap, parentMap, parentEdgeIdx]
    exact searching.tree.discover h.current new ⟨crosses, different⟩
  · rw [found, depthMap, Function.update_apply]
    by_cases isTarget : w = options.targetId
    · simp [isTarget]
    · rw [if_neg (Ne.symm isTarget), ← searching.target, going]
      simp [isTarget]
  · rw [found, decide_eq_false_iff_not] at still
    rw [frontier, if_neg still, same]
  · have seen := unseen_discover crosses.mem_endpoints new (currentDepth + 1)
    rw [frontier, depthMap]
    split
    · omega
    · rw [List.length_append, List.length_singleton]
      omega
  · rw [depthMap, Function.update_self]

theorem visiting_visit {currentId : String} {currentDepth idx : Nat} {direction : String} {s : Search}
    (h : Visiting loaded options currentId currentDepth s) {edge : GraphEdge}
    (found : loaded.edges[idx]? = some edge)
    (crosses : Crosses loaded options currentId idx
      (if direction = "outgoing" then edge.targetId else edge.sourceId)) :
    let s' := s.visit options loaded.edges currentId currentDepth direction idx
    Visiting loaded options currentId currentDepth s' ∧ Discovers loaded s s' ∧
      (s'.found = false → ∃ d, s'.depthMap
        (if direction = "outgoing" then edge.targetId else edge.sourceId) = some d) := by
  intro s'
  generalize isNeighbor : (if direction = "outgoing" then edge.targetId else edge.sourceId) =
    neighborId at crosses ⊢
  cases going : s.found with
  | true =>
    have same : s' = s := if_pos going
    rw [same, going]
    exact ⟨h, .refl s, fun impossible => by cases impossible⟩
  | false =>
    cases atNeighbor : s.depthMap neighborId with
    | some d =>
      have same : s' = s := by
        simp [s', Search.visit, going, found, isNeighbor, atNeighbor]
      rw [same]
      exact ⟨h, .refl s, fun _ => ⟨d, atNeighbor⟩⟩
    | none =>
      -- the record of the discovery, on the queue unless it ends the search
      let discovered : Search :=
        { s with
          depthMap := Function.update s.depthMap neighborId (some (currentDepth + 1))
          parentMap := Function.update s.parentMap neighborId (some currentId)
          parentEdgeIdx := Function.update s.parentEdgeIdx neighborId (some idx) }
      have value : s' = if neighborId = options.targetId then { discovered with found := true }
          else { discovered with frontier := s.frontier ++ [neighborId] } := by
        simp [s', Search.visit, going, found, isNeighbor, atNeighbor, discovered]
      by_cases isTarget : neighborId = options.targetId
      · rw [if_pos isTarget] at value
        rw [value]
        have ends : ({ discovered with found := true } : Search).frontier =
            if neighborId = options.targetId then s.frontier else s.frontier ++ [neighborId] := by
          rw [if_pos isTarget]
        obtain ⟨visiting, discovers, depth⟩ := visiting_discover h going atNeighbor crosses
          (rfl : ({ discovered with found := true } : Search).depthMap = _) rfl rfl
          (by simp [isTarget]) ends
        exact ⟨visiting, discovers, fun _ => ⟨_, depth⟩⟩
      · rw [if_neg isTarget] at value
        rw [value]
        have queued : ({ discovered with frontier := s.frontier ++ [neighborId] } : Search).frontier =
            if neighborId = options.targetId then s.frontier else s.frontier ++ [neighborId] := by
          rw [if_neg isTarget]
        obtain ⟨visiting, discovers, depth⟩ := visiting_discover h going atNeighbor crosses
          (rfl : ({ discovered with frontier := s.frontier ++ [neighborId] } : Search).depthMap = _)
          rfl rfl (by simp [discovered, going, isTarget]) queued
        exact ⟨visiting, discovers, fun _ => ⟨_, depth⟩⟩

/-- The edges at the current node are gone through. -/
theorem visiting_processNeighbors {currentId : String} {currentDepth : Nat} {direction : String}
    (edgeIndices : List Nat) {s : Search}
    (h : Visiting loaded options currentId currentDepth s)
    (crosses : ∀ idx ∈ edgeIndices, ∃ edge, loaded.edges[idx]? = some edge ∧
      Crosses loaded options currentId idx
        (if direction = "outgoing" then edge.targetId else edge.sourceId)) :
    let s' := s.processNeighbors options loaded.edges currentId currentDepth edgeIndices direction
    Visiting loaded options currentId currentDepth s' ∧ Discovers loaded s s' ∧
      (s'.found = false → s.found = false ∧
        ∀ idx ∈ edgeIndices, ∀ edge, loaded.edges[idx]? = some edge →
          ∃ d, s'.depthMap (if direction = "outgoing" then edge.targetId else edge.sourceId) =
            some d) := by
  induction edgeIndices generalizing s with
  | nil => exact ⟨h, .refl s, fun still => ⟨still, List.forall_mem_nil _⟩⟩
  | cons idx rest ih =>
    obtain ⟨edge, found, crossesFirst⟩ := crosses idx List.mem_cons_self
    obtain ⟨visiting, discovers, first⟩ := visiting_visit h found crossesFirst
    obtain ⟨after, discoversRest, others⟩ :=
      ih visiting fun i mem => crosses i (List.mem_cons_of_mem idx mem)
    refine ⟨after, discovers.trans discoversRest, fun still => ?_⟩
    obtain ⟨stillFirst, others⟩ := others still
    have before : s.found = false := by
      by_contra was
      have same : s.visit options loaded.edges currentId currentDepth direction idx = s :=
        if_pos (by simpa using was)
      rw [same] at stillFirst
      exact was stillFirst
    refine ⟨before, fun i mem e isEdge => ?_⟩
    rcases List.mem_cons.mp mem with rfl | mem
    · rw [found] at isEdge
      cases isEdge
      obtain ⟨d, atNeighbor⟩ := first stillFirst
      exact ⟨d, discoversRest.kept _ d atNeighbor⟩
    · exact others i mem e isEdge

/-- The edges in one direction are gone through if the query asks for them. -/
theorem visiting_side {currentId : String} {currentDepth : Nat} {direction : String}
    {edgeIndices : List Nat} {s : Search} {asked : Prop} [Decidable asked]
    (h : Visiting loaded options currentId currentDepth s)
    (crosses : asked → ∀ idx ∈ edgeIndices, ∃ edge, loaded.edges[idx]? = some edge ∧
      Crosses loaded options currentId idx
        (if direction = "outgoing" then edge.targetId else edge.sourceId)) :
    let s' := if asked then
        s.processNeighbors options loaded.edges currentId currentDepth edgeIndices direction
      else s
    Visiting loaded options currentId currentDepth s' ∧ Discovers loaded s s' ∧
      (s'.found = false → s.found = false ∧
        (asked → ∀ idx ∈ edgeIndices, ∀ edge, loaded.edges[idx]? = some edge →
          ∃ d, s'.depthMap (if direction = "outgoing" then edge.targetId else edge.sourceId) =
            some d)) := by
  intro s'
  by_cases isAsked : asked
  · have same : s' = s.processNeighbors options loaded.edges currentId currentDepth edgeIndices
        direction := if_pos isAsked
    obtain ⟨visiting, discovers, looked⟩ := visiting_processNeighbors edgeIndices h (crosses isAsked)
    rw [same]
    exact ⟨visiting, discovers, fun still => ⟨(looked still).1, fun _ => (looked still).2⟩⟩
  · have same : s' = s := if_neg isAsked
    rw [same]
    exact ⟨h, .refl s, fun still => ⟨still, fun impossible => absurd impossible isAsked⟩⟩

/-- All neighbours of the current node are discovered, unless the target is found. -/
theorem visiting_processNode {currentId : String} {currentDepth : Nat} {node : GraphNode} {s : Search}
    (h : Visiting loaded options currentId currentDepth s)
    (outgoing : ∀ idx, idx ∈ node.outgoing ↔
      ∃ edge, loaded.edges[idx]? = some edge ∧ edge.sourceId = currentId)
    (incoming : ∀ idx, idx ∈ node.incoming ↔
      ∃ edge, loaded.edges[idx]? = some edge ∧ edge.targetId = currentId) :
    let s' := s.processNode options loaded.edges currentId currentDepth node
    Visiting loaded options currentId currentDepth s' ∧ Discovers loaded s s' ∧
      (s'.found = false → ∀ w, Adjacent loaded options currentId w → ∃ d, s'.depthMap w = some d) := by
  obtain ⟨visitingOut, discoversOut, lookedOut⟩ :=
    @visiting_side loaded options currentId currentDepth "outgoing" node.outgoing s
      (options.direction = .outgoing ∨ options.direction = .both) _ h
      fun asked idx mem => by
        obtain ⟨edge, found, source⟩ := (outgoing idx).mp mem
        exact ⟨edge, found, edge, found, .inl ⟨asked, source, rfl⟩⟩
  obtain ⟨visitingIn, discoversIn, lookedIn⟩ :=
    @visiting_side loaded options currentId currentDepth "incoming" node.incoming _
      (options.direction = .incoming ∨ options.direction = .both) _ visitingOut
      fun asked idx mem => by
        obtain ⟨edge, found, target⟩ := (incoming idx).mp mem
        exact ⟨edge, found, edge, found, .inr ⟨asked, target, rfl⟩⟩
  refine ⟨visitingIn, discoversOut.trans discoversIn, fun still w adjacent => ?_⟩
  obtain ⟨stillOut, lookedIn⟩ := lookedIn still
  obtain ⟨idx, edge, found, ⟨asked, source, rfl⟩ | ⟨asked, target, rfl⟩⟩ := adjacent
  · obtain ⟨d, atTarget⟩ :=
      (lookedOut stillOut).2 asked idx ((outgoing idx).mpr ⟨edge, found, source⟩) edge found
    exact ⟨d, discoversIn.kept _ d atTarget⟩
  · exact lookedIn asked idx ((incoming idx).mpr ⟨edge, found, target⟩) edge found

/-! ## Rounds -/

/-- A round looks at the head of the queue, unless it ends the search. -/
theorem searching_round (indexed : loaded.Indexed) {s : Search} {currentId : String}
    {frontier : List String} (isFrontier : s.frontier = currentId :: frontier)
    (h : Searching loaded options s s.frontier) :
    let s' := s.round loaded options
    (∃ queue, Searching loaded options s' queue ∧ (s'.found = false → queue = s'.frontier)) ∧
      s'.frontier.length + unseen (endpoints loaded) s'.depthMap + 1 ≤
        s.frontier.length + unseen (endpoints loaded) s.depthMap := by
  rw [isFrontier] at h
  obtain ⟨currentDepth, current⟩ := h.explored.queued currentId List.mem_cons_self
  let popped : Search := { s with frontier }
  -- the head leaves the queue, its neighbours discovered or out of reach
  have skips : (∀ d, s.depthMap currentId = some d → d < options.maxDepth.toNat →
      ∀ w, Adjacent loaded options currentId w → ∃ dw, s.depthMap w = some dw) →
      (∃ queue, Searching loaded options popped queue ∧ (popped.found = false →
        queue = popped.frontier)) ∧
      popped.frontier.length + unseen (endpoints loaded) popped.depthMap + 1 ≤
        (currentId :: frontier).length + unseen (endpoints loaded) s.depthMap := fun looked => by
    refine ⟨⟨frontier, ⟨h.explored.leave looked, h.tree, h.target⟩, fun _ => rfl⟩, ?_⟩
    rw [List.length_cons, Nat.add_right_comm]
  unfold Search.round
  rw [isFrontier]
  simp only [current, Option.getD_some]
  split
  · next deep =>
    -- the depth is used up
    refine skips fun d atHead limited => ?_
    rw [current] at atHead
    cases atHead
    exact absurd limited (not_lt.mpr (Int.toNat_le.mpr deep))
  · next shallow =>
    have limited : currentDepth < options.maxDepth.toNat := Int.lt_toNat.mpr (not_le.mp shallow)
    have sides := And.intro (indexed.outgoing currentId) (indexed.incoming currentId)
    split
    · next noNode =>
      refine skips fun _ _ _ w adjacent => ?_
      obtain ⟨idx, edge, found, either⟩ := adjacent
      rw [noNode] at sides
      rcases either with ⟨-, source, -⟩ | ⟨-, target, -⟩
      · cases (sides.1 idx).mpr ⟨edge, found, source⟩
      · cases (sides.2 idx).mpr ⟨edge, found, target⟩
    · next node isNode =>
      rw [isNode, Option.getD_some] at sides
      have visiting : Visiting loaded options currentId currentDepth popped :=
        ⟨⟨frontier, ⟨h.explored, h.tree, h.target⟩, fun _ => rfl⟩, current, limited⟩
      obtain ⟨after, discovers, looked⟩ := visiting_processNode visiting sides.1 sides.2
      obtain ⟨queue, searching, same⟩ := after.searching
      refine ⟨?_, ?_⟩
      · cases still : (popped.processNode options loaded.edges currentId currentDepth node).found with
        | true =>
          refine ⟨currentId :: queue, searching, fun impossible => ?_⟩
          cases impossible
        | false =>
          exact ⟨queue, ⟨searching.explored.leave fun _ _ _ => looked still, searching.tree,
            searching.target⟩, fun _ => same still⟩
      · have paid : _ ≤ frontier.length + unseen (endpoints loaded) s.depthMap := discovers.paid
        rw [List.length_cons, Nat.add_right_comm frontier.length]
        exact Nat.succ_le_succ paid

/-- With enough rounds the loop ends, the target found or the queue empty. -/
theorem searching_run (indexed : loaded.Indexed) (rounds : Nat) {s : Search}
    (h : Searching loaded options s s.frontier) (going : s.found = false)
    (enough : s.frontier.length + unseen (endpoints loaded) s.depthMap ≤ rounds) :
    ∃ queue, Searching loaded options (.run loaded options rounds s) queue ∧
      ((Search.run loaded options rounds s).found = false → queue = []) := by
  induction rounds generalizing s with
  | zero =>
    have none : s.frontier = [] := by
      refine List.eq_nil_of_length_eq_zero ?_
      omega
    exact ⟨s.frontier, h, fun _ => none⟩
  | succ rounds ih =>
    unfold Search.run
    split
    · next ended =>
      refine ⟨s.frontier, h, fun still => ?_⟩
      rw [still, Bool.or_false, List.isEmpty_iff] at ended
      exact ended
    · next goesOn =>
      cases isFrontier : s.frontier with
      | nil => simp [isFrontier] at goesOn
      | cons currentId frontier =>
        obtain ⟨⟨queue, searching, same⟩, paid⟩ := searching_round indexed isFrontier h
        cases still : (s.round loaded options).found with
        | false =>
          refine ih ((same still) ▸ searching) still ?_
          omega
        | true =>
          -- the loop stops at once
          have stops : Search.run loaded options rounds (s.round loaded options) =
              s.round loaded options := by
            cases rounds with
            | zero => rfl
            | succ rounds => simp [Search.run, still]
          rw [stops]
          refine ⟨queue, searching, fun impossible => ?_⟩
          rw [still] at impossible
          cases impossible

theorem searching_search (indexed : loaded.Indexed) (different : options.startId ≠ options.targetId) :
    ∃ queue, Searching loaded options (search loaded options) queue ∧
      ((search loaded options).found = false → queue = []) := by
  refine searching_run indexed _ (searching_start different) rfl ?_
  have few := (Finset.card_filter_le (endpoints loaded) fun v =>
    (Search.start options.startId).depthMap v = none).trans (card_endpoints loaded)
  show 1 + unseen _ _ ≤ _
  rw [Nat.add_comm]
  exact Nat.succ_le_succ few

/-- The target is found exactly when it is within the depth. -/
theorem found_iff (indexed : loaded.Indexed) (different : options.startId ≠ options.targetId) :
    (search loaded options).found = true ↔ ∃ n : Nat, (n : Int) ≤ options.maxDepth ∧
      Walk (Adjacent loaded options) options.startId n options.targetId := by
  obtain ⟨queue, searching, empty⟩ := searching_search indexed different
  constructor
  · intro found
    rw [searching.target] at found
    obtain ⟨d, atTarget⟩ := Option.isSome_iff_exists.mp found
    have walk := searching.explored.walk _ d atTarget
    refine ⟨d, ?_, walk⟩
    have bounded := searching.explored.bounded _ d atTarget
    have notStart : d ≠ 0 := by
      rintro rfl
      exact different (searching.tree.root _ atTarget).symm
    omega
  · rintro ⟨n, within, walk⟩
    by_contra lost
    have lost := Bool.eq_false_iff.mpr lost
    rw [empty lost] at searching
    obtain ⟨d, -, atTarget⟩ := searching.explored.complete walk (by omega)
    rw [searching.target, atTarget] at lost
    cases lost

/-! ## The path -/

/-- Reading the predecessors back gives a route from the start. -/
theorem route_walkBack {s : Search} {queue : List String} (h : Searching loaded options s queue)
    {steps d : Nat} {v : String} (found : s.depthMap v = some d) (enough : d ≤ steps) :
    let walked := s.walkBack options.startId steps v
    walked.2.length = d ∧ Route (Step loaded options) options.startId
      (walked.1 ++ [options.startId]).reverse walked.2.reverse v := by
  induction steps generalizing v d with
  | zero =>
    cases Nat.le_zero.mp enough
    rw [h.tree.root v found]
    exact ⟨rfl, .nil⟩
  | succ steps ih =>
    unfold Search.walkBack
    by_cases atStart : v = options.startId
    · rw [if_pos atStart]
      subst atStart
      rw [h.explored.root] at found
      cases found
      exact ⟨rfl, .nil⟩
    · rw [if_neg atStart]
      cases d with
      | zero => exact absurd (h.tree.root v found) atStart
      | succ d =>
        obtain ⟨u, idx, isParent, isEdge, atU, step⟩ := h.tree.step v d found
        obtain ⟨length, route⟩ := ih atU (Nat.le_of_succ_le_succ enough)
        simp only [isParent, isEdge, Option.getD_some]
        refine ⟨congrArg Nat.succ length, ?_⟩
        rw [List.cons_append, List.reverse_cons, List.reverse_cons]
        exact route.snoc step

/-! ## The relationships -/

/-- Some qualifying relationship leads from one object to the other, in a direction
the query asks for. -/
def Related (relationships : List Relationship) (options : TraversalOptions) (u v : String) : Prop :=
  ∃ relationship ∈ relationships, Qualifies options relationship = true ∧
    ((options.direction = .outgoing ∨ options.direction = .both) ∧
        relationship.edge.sourceId = u ∧ relationship.edge.targetId = v ∨
      (options.direction = .incoming ∨ options.direction = .both) ∧
        relationship.edge.targetId = u ∧ relationship.edge.sourceId = v)

/-- The edges are those of the qualifying relationships. -/
theorem mem_edges_iff {relationships : List Relationship} (loads : loaded.Loads options relationships)
    {edge : GraphEdge} : (∃ idx : Nat, loaded.edges[idx]? = some edge) ↔
      ∃ relationship ∈ relationships, Qualifies options relationship = true ∧
        relationship.edge = edge := by
  rw [← List.mem_iff_getElem?, loads.edges, List.mem_map]
  refine exists_congr fun relationship => ?_
  rw [List.mem_filter, and_assoc]

theorem adjacent_eq {relationships : List Relationship}
    (loads : loaded.Loads options relationships) :
    Adjacent loaded options = Related relationships options := by
  funext u v
  refine propext ⟨?_, ?_⟩
  · rintro ⟨idx, edge, found, crossed⟩
    obtain ⟨relationship, mem, qualifies, rfl⟩ := (mem_edges_iff loads).mp ⟨idx, found⟩
    exact ⟨relationship, mem, qualifies, crossed⟩
  · rintro ⟨relationship, mem, qualifies, crossed⟩
    obtain ⟨idx, found⟩ := (mem_edges_iff loads).mpr ⟨relationship, mem, qualifies, rfl⟩
    exact ⟨idx, relationship.edge, found, crossed⟩

/-- The step of a path over a relationship, labelled with the way it was crossed. -/
structure Crossed (options : TraversalOptions) (edge : GraphEdge) (step : TraversalEdge) (u v : String)
    (depth : Nat) : Prop where
  copied : step = edge.pathEdge u depth
  way : step.direction = "outgoing" ∧ (options.direction = .outgoing ∨ options.direction = .both) ∧
      edge.sourceId = u ∧ edge.targetId = v ∨
    step.direction = "incoming" ∧ (options.direction = .incoming ∨ options.direction = .both) ∧
      edge.targetId = u ∧ edge.sourceId = v

/-- A step to another object is labelled rightly: the label is chosen by the source
alone. -/
theorem crossed_of_step {u v : String} {idx depth : Nat} (step : Step loaded options u idx v) :
    ∃ edge, loaded.edges[idx]? = some edge ∧
      Crossed options edge (edge.pathEdge u depth) u v depth := by
  obtain ⟨⟨edge, found, either⟩, different⟩ := step
  refine ⟨edge, found, rfl, ?_⟩
  rcases either with ⟨asked, source, target⟩ | ⟨asked, target, source⟩
  · exact .inl ⟨if_pos source, asked, source, target⟩
  · refine .inr ⟨if_neg fun same => different ?_, asked, target, source⟩
    exact same.symm.trans source

/-- A shortest path from the start to the target. -/
structure IsShortestPath (package : Package) (options : TraversalOptions) (result : PathResult) :
    Prop where
  length : result.pathNodes.length = result.pathEdges.length + 1
  first : ∃ node, result.pathNodes[0]? = some node ∧ node.objectId = options.startId
  last : ∃ node, result.pathNodes[result.pathEdges.length]? = some node ∧
    node.objectId = options.targetId
  /-- Nodes tell what the package knows of them. -/
  nodes : ∀ (i : Nat) (node : TraversalNode), result.pathNodes[i]? = some node →
    node = (buildObjectCatalog package).pathNode node.objectId i
  /-- Each step crosses a qualifying relationship between consecutive nodes. -/
  steps : ∀ (i : Nat) (step : TraversalEdge), result.pathEdges[i]? = some step →
    ∃ (u v : TraversalNode) (relationship : Relationship), result.pathNodes[i]? = some u ∧
      result.pathNodes[i + 1]? = some v ∧ relationship ∈ package.relationships ∧
      Qualifies options relationship = true ∧
      Crossed options relationship.edge step u.objectId v.objectId (i + 1)
  within : (result.pathEdges.length : Int) ≤ options.maxDepth
  minimal : ∀ n, Walk (Related package.relationships options) options.startId n options.targetId →
    result.pathEdges.length ≤ n

/-- The path read off the predecessors is a shortest one. -/
theorem isShortestPath_readPath (package : Package) {options : TraversalOptions}
    (loads : loaded.Loads options package.relationships)
    (different : options.startId ≠ options.targetId) {s : Search} {queue : List String}
    (searching : Searching loaded options s queue) (found : s.found = true) :
    IsShortestPath package options (readPath package options loaded s) := by
  rw [searching.target] at found
  obtain ⟨d, atTarget⟩ := Option.isSome_iff_exists.mp found
  have bounded := searching.explored.bounded _ d atTarget
  obtain ⟨walked, route⟩ := route_walkBack searching atTarget bounded
  -- the two lists the path is made of
  let back := s.walkBack options.startId options.maxDepth.toNat options.targetId
  generalize isIds : (back.1 ++ [options.startId]).reverse = pathIds at route
  generalize isIndices : back.2.reverse = pathEdgeIndices at route
  have size : pathEdgeIndices.length = d := by
    rw [← isIndices, List.length_reverse]
    exact walked
  have nodes : (readPath package options loaded s).pathNodes = pathIds.zipIdx.map fun entry =>
      (buildObjectCatalog package).pathNode entry.1 entry.2 := by
    rw [← isIds]
    rfl
  have edges : (readPath package options loaded s).pathEdges = pathEdgeIndices.zipIdx.map fun entry =>
      (loaded.edges.getD entry.1 noEdge).pathEdge (pathIds.getD entry.2 "") (entry.2 + 1) := by
    rw [← isIds, ← isIndices]
    rfl
  have count : (readPath package options loaded s).pathEdges.length = d := by
    rw [edges, List.length_map, List.length_zipIdx, size]
  have node : ∀ i : Nat, (readPath package options loaded s).pathNodes[i]? =
      pathIds[i]?.map fun id => (buildObjectCatalog package).pathNode id i := by
    intro i
    rw [nodes, List.getElem?_map, List.getElem?_zipIdx]
    cases pathIds[i]? <;> simp
  let catalog := buildObjectCatalog package
  refine ⟨?_, ⟨catalog.pathNode options.startId 0, ?_, rfl⟩,
    ⟨catalog.pathNode options.targetId d, ?_, rfl⟩, fun i n isNode => ?_, fun i step isStep => ?_, ?_, ?_⟩
  · rw [nodes, List.length_map, List.length_zipIdx, route.length, count, size]
  · rw [node, route.first]
    rfl
  · rw [count, node, ← size, route.last]
    rfl
  · rw [node] at isNode
    obtain ⟨id, -, rfl⟩ := Option.map_eq_some_iff.mp isNode
    rfl
  · rw [edges, List.getElem?_map, List.getElem?_zipIdx] at isStep
    obtain ⟨entry, isEntry, rfl⟩ := Option.map_eq_some_iff.mp isStep
    obtain ⟨idx, atI, rfl⟩ := Option.map_eq_some_iff.mp isEntry
    obtain ⟨u, v, isU, isV, step⟩ := route.step atI
    obtain ⟨edge, found, crossed⟩ := crossed_of_step step
    obtain ⟨relationship, mem, qualifies, rfl⟩ := (mem_edges_iff loads).mp ⟨idx, found⟩
    refine ⟨catalog.pathNode u i, catalog.pathNode v (i + 1), relationship, ?_, ?_, mem, qualifies, ?_⟩
    · rw [node, isU]
      rfl
    · rw [node, isV]
      rfl
    · simp only [Nat.zero_add, List.getD_eq_getElem?_getD, found, isU, Option.getD_some]
      exact crossed
  · have notStart : d ≠ 0 := by
      rintro rfl
      exact different (searching.tree.root _ atTarget).symm
    rw [count]
    omega
  · rw [count, ← adjacent_eq loads]
    exact fun n walk => searching.explored.minimal atTarget walk

/-! ## The query -/

/-- What a path query answers. -/
structure PathQuery (package : Package) (options : TraversalOptions) (result : PathResult) :
    Prop where
  refused : options.startId = "" ∨ options.targetId = "" → result.pathFound = false ∧
    result.errorMessage = "both --from and --to are required for path finding"
  /-- A query from an object to itself needs no relationship and no depth. -/
  itself : options.startId ≠ "" → options.startId = options.targetId → result.pathFound = true ∧
    result.pathNodes = [(buildObjectCatalog package).pathNode options.startId 0] ∧
    result.pathEdges = []
  unreadable : options.startId ≠ "" → options.targetId ≠ "" → options.startId ≠ options.targetId →
    (loadRelationshipEdges package options).errorMessage ≠ "" → result.pathFound = false ∧
      result.errorMessage = (loadRelationshipEdges package options).errorMessage
  found_iff : options.startId ≠ "" → options.targetId ≠ "" → options.startId ≠ options.targetId →
    (loadRelationshipEdges package options).errorMessage = "" →
    (result.pathFound = true ↔ ∃ n : Nat, (n : Int) ≤ options.maxDepth ∧
      Walk (Related package.relationships options) options.startId n options.targetId)
  path : options.startId ≠ options.targetId → result.pathFound = true →
    IsShortestPath package options result

theorem shortest_path (package : Package) (options : TraversalOptions) :
    PathQuery package options (findShortestPath package options) := by
  have loads := loads_loadRelationshipEdges package options
  unfold findShortestPath
  simp only
  split
  · next missing =>
    refine ⟨fun _ => ⟨rfl, rfl⟩, fun named same => ?_, fun named isTarget => ?_,
      fun named isTarget => ?_, fun _ impossible => by cases impossible⟩
    · exact absurd missing (not_or.mpr ⟨named, same ▸ named⟩)
    · exact absurd missing (not_or.mpr ⟨named, isTarget⟩)
    · exact absurd missing (not_or.mpr ⟨named, isTarget⟩)
  · next named =>
    split
    · next same =>
      refine ⟨fun missing => absurd missing named, fun _ _ => ⟨rfl, rfl, rfl⟩,
        fun _ _ different => absurd same different, fun _ _ different => absurd same different,
        fun different => absurd same different⟩
    · next different =>
      have itself : ∀ {P : Prop}, options.startId ≠ "" → options.startId = options.targetId → P :=
        fun _ same => absurd same different
      split
      · next failed =>
        exact ⟨fun missing => absurd missing named, itself, fun _ _ _ _ => ⟨rfl, rfl⟩,
          fun _ _ _ readable => absurd readable failed, fun _ impossible => by cases impossible⟩
      · next readable =>
        have decides := found_iff loads.indexed different
        rw [adjacent_eq loads] at decides
        obtain ⟨queue, searching, -⟩ := searching_search loads.indexed different
        split
        · next found =>
          exact ⟨fun missing => absurd missing named, itself,
            fun _ _ _ failed => absurd failed readable,
            fun _ _ _ _ => iff_of_true rfl (decides.mp found),
            fun _ _ => isShortestPath_readPath package loads different searching found⟩
        · next lost =>
          exact ⟨fun missing => absurd missing named, itself,
            fun _ _ _ failed => absurd failed readable,
            fun _ _ _ _ => iff_of_false (fun impossible => by cases impossible)
              fun walk => lost (decides.mpr walk),
            fun _ impossible => by cases impossible⟩

/-- A package without relationships. -/
def emptyPackage : Package where
  readJsonlEntry _ := { present := true, readable := true }
  index := none

/-- Without ids no path is found, though no step is needed; from an object to itself
one is found, though no path is short enough. -/
theorem path_to_itself :
    (findShortestPath emptyPackage { startId := "", targetId := "" }).pathFound = false ∧
      Walk (Related emptyPackage.relationships { startId := "", targetId := "" }) "" 0 "" ∧
      (findShortestPath emptyPackage
        { startId := "a", targetId := "a", maxDepth := -1 }).pathFound = true ∧
      ¬ ∃ n : Nat, (n : Int) ≤ -1 := by
  refine ⟨rfl, .nil, by simp [findShortestPath], ?_⟩
  rintro ⟨n, within⟩
  omega

end Svp.Query
