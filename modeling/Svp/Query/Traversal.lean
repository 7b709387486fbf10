import Svp.Lib.Layers
import Svp.Query.ShortestPath

/-!
# Bounded traversal

`traverseRelationships` walks the graph breadth first from the start and returns
what it comes to: the objects with their depths, and every edge it crosses, the
ones to objects already visited included. It stops at the first edge it meets
with the limit used up, and says so in `limitApplied`.

The edges are met in the order of `meetings`, layer by layer. When no limit is hit
the nodes are the objects within the depth at their distances, and every
qualifying relationship at an object nearer than the depth is returned once. The
limit is tested before an edge is known to be one returned already, so that
`limitApplied` can be set with nothing left out: exactly when the limit is the
number of these relationships and the last meeting repeats an earlier one
(`traversal_exact_iff`).
-/

namespace Svp.Query

open Exec (Json)
open Lib.BreadthFirst

/-! ## The program -/

structure GraphHealthReport where
  totalEdges : Nat := 0
  totalNodes : Nat := 0
  unresolvedEndpoints : Nat := 0
  unknownRelationshipTypes : Nat := 0
  classCounts : String → Nat := fun _ => 0
  typeCounts : String → Nat := fun _ => 0
  unresolvedIds : List String := []
  unknownTypes : List String := []

structure TraversalResult where
  startId : String
  requestedDepth : Int := 0
  visitedNodeCount : Nat := 0
  edgeCount : Nat := 0
  limitApplied : Bool := false
  nodes : List TraversalNode := []
  edges : List TraversalEdge := []
  missingObjectIds : List String := []
  errorMessage : String := ""
  graphHealth : GraphHealthReport := {}
  timeWindowJson : Json := .null

/-- Null without a bound; the keys of an object are sorted. -/
def timeWindowToJson (window : TimeWindow) : Json :=
  let field (key : String) (bound : Option Int) : List (String × Json) :=
    bound.toList.map fun us => (key, .integer us)
  match field "at_us" window.atUs ++ field "end_us" window.endUs ++ field "start_us" window.startUs with
  | [] => .null
  | fields => .object fields

def GraphEdge.traversed (edge : GraphEdge) (direction : String) (depth : Nat) : TraversalEdge where
  relationshipId := edge.relationshipId
  relationshipType := edge.relationshipType
  relationshipClass := edge.relationshipClass
  sourceId := edge.sourceId
  targetId := edge.targetId
  direction
  depth
  record := edge.record

/-- The sets and the queue of the traversal, with the nodes and edges of the result. -/
structure Traversal where
  visited : List String
  emittedEdgeIds : List String := []
  frontier : List (String × Nat)
  nodes : List TraversalNode
  edges : List TraversalEdge := []
  limitHit : Bool := false

namespace Traversal

/-- An edge met with the limit not used up. One without an id is never a repeat. -/
def emitEdge (catalog : ObjectCatalog) (edges : List GraphEdge) (depth : Nat) (direction : String)
    (t : Traversal) (idx : Nat) : Traversal :=
  let edge := edges.getD idx noEdge
  if edge.relationshipId ≠ "" ∧ edge.relationshipId ∈ t.emittedEdgeIds then t
  else
    let neighborId := if direction = "outgoing" then edge.targetId else edge.sourceId
    let t :=
      { t with
        emittedEdgeIds :=
          if edge.relationshipId ≠ "" then t.emittedEdgeIds ++ [edge.relationshipId]
          else t.emittedEdgeIds
        edges := t.edges ++ [edge.traversed direction (depth + 1)] }
    if neighborId ∈ t.visited then t
    else
      { t with
        visited := t.visited ++ [neighborId]
        nodes := t.nodes ++ [catalog.pathNode neighborId (depth + 1)]
        frontier := t.frontier ++ [(neighborId, depth + 1)] }

/-- One turn of the loop over the edges at a node. -/
def collectEdge (limit : Nat) (catalog : ObjectCatalog) (edges : List GraphEdge) (depth : Nat)
    (direction : String) (t : Traversal) (idx : Nat) : Traversal :=
  if t.limitHit then t
  else if limit ≤ t.edges.length then { t with limitHit := true }
  else t.emitEdge catalog edges depth direction idx

def collectEdges (limit : Nat) (catalog : ObjectCatalog) (edges : List GraphEdge) (depth : Nat)
    (edgeIndices : List Nat) (direction : String) (t : Traversal) : Traversal :=
  edgeIndices.foldl (collectEdge limit catalog edges depth direction) t

/-- The edges at the current node, in the directions asked for. -/
def collectNode (options : TraversalOptions) (limit : Nat) (catalog : ObjectCatalog)
    (edges : List GraphEdge) (depth : Nat) (node : GraphNode) (t : Traversal) : Traversal :=
  let t :=
    if options.direction = .outgoing ∨ options.direction = .both then
      t.collectEdges limit catalog edges depth node.outgoing "outgoing"
    else t
  if options.direction = .incoming ∨ options.direction = .both then
    t.collectEdges limit catalog edges depth node.incoming "incoming"
  else t

/-- One round of the main loop. -/
def round (loaded : LoadedEdges) (options : TraversalOptions) (limit : Nat) (catalog : ObjectCatalog)
    (t : Traversal) : Traversal :=
  match t.frontier with
  | [] => t
  | (currentId, depth) :: frontier =>
    let t := { t with frontier }
    if options.maxDepth ≤ depth then t
    else
      match loaded.nodes currentId with
      | none => t
      | some node => t.collectNode options limit catalog loaded.edges depth node

/-- The main loop, with a bound on its rounds. -/
def run (loaded : LoadedEdges) (options : TraversalOptions) (limit : Nat) (catalog : ObjectCatalog) :
    Nat → Traversal → Traversal
  | 0, t => t
  | rounds + 1, t =>
    if t.frontier.isEmpty || t.limitHit then t
    else run loaded options limit catalog rounds (round loaded options limit catalog t)

def start (catalog : ObjectCatalog) (startId : String) : Traversal where
  visited := [startId]
  frontier := [(startId, 0)]
  nodes := [catalog.pathNode startId 0]

end Traversal

/-- The nodes are those made for the ends of edges. -/
def graphHealth (catalog : ObjectCatalog) (loaded : LoadedEdges) : GraphHealthReport :=
  let unresolvedIds := loaded.edges.flatMap fun edge =>
    [edge.sourceId, edge.targetId].filter fun id => (catalog.find id).isNone
  let unknownTypes :=
    (loaded.edges.filter fun edge => edge.relationshipClass == "unknown").map
      GraphEdge.relationshipType
  { totalEdges := loaded.edges.length
    totalNodes := (endpoints loaded).card
    unresolvedEndpoints := unresolvedIds.length
    unknownRelationshipTypes := unknownTypes.length
    classCounts := fun name => (loaded.edges.map GraphEdge.relationshipClass).count name
    typeCounts := fun name => (loaded.edges.map GraphEdge.relationshipType).count name
    unresolvedIds
    unknownTypes }

/-- The traversal with enough rounds for every end of an edge. -/
def traverse (loaded : LoadedEdges) (options : TraversalOptions) (limit : Nat)
    (catalog : ObjectCatalog) : Traversal :=
  .run loaded options limit catalog (2 * loaded.edges.length + 1) (.start catalog options.startId)

/-- The limit of the options is an argument of its own here: no other query reads it. -/
def traverseRelationships (package : Package) (options : TraversalOptions) (limit : Nat) :
    TraversalResult :=
  let result : TraversalResult :=
    { startId := options.startId
      requestedDepth := options.maxDepth
      timeWindowJson := timeWindowToJson options.timeWindow }
  if options.startId = "" then
    { result with errorMessage := "start_id is required for traversal" }
  else if options.timeWindow.atUs.isSome ∧
      (options.timeWindow.startUs.isSome ∨ options.timeWindow.endUs.isSome) then
    { result with errorMessage := "cannot specify both --at-us and --start-us/--end-us" }
  else
    let loaded := loadRelationshipEdges package options
    if loaded.errorMessage ≠ "" then { result with errorMessage := loaded.errorMessage }
    else
      let catalog := buildObjectCatalog package
      let t := traverse loaded options limit catalog
      { result with
        nodes := t.nodes
        edges := t.edges
        missingObjectIds := (t.nodes.filter fun node => !node.resolved).map TraversalNode.objectId
        visitedNodeCount := t.nodes.length
        edgeCount := t.edges.length
        limitApplied := t.limitHit
        graphHealth := graphHealth catalog loaded }

/-! ## The order of the edges -/

/-- An edge as it is met at an object. -/
structure Meeting where
  objectId : String
  depth : Nat
  direction : String
  idx : Nat

namespace Meeting

def edge (loaded : LoadedEdges) (m : Meeting) : GraphEdge := loaded.edges.getD m.idx noEdge

def relationshipId (loaded : LoadedEdges) (m : Meeting) : String := (m.edge loaded).relationshipId

def neighborId (loaded : LoadedEdges) (m : Meeting) : String :=
  if m.direction = "outgoing" then (m.edge loaded).targetId else (m.edge loaded).sourceId

def node (loaded : LoadedEdges) (catalog : ObjectCatalog) (m : Meeting) : TraversalNode :=
  catalog.pathNode (m.neighborId loaded) (m.depth + 1)

def traversed (loaded : LoadedEdges) (m : Meeting) : TraversalEdge :=
  (m.edge loaded).traversed m.direction (m.depth + 1)

end Meeting

/-- The edges at an object in the directions the query asks for. -/
def meetingsAt (loaded : LoadedEdges) (options : TraversalOptions) (depth : Nat) (id : String) :
    List Meeting :=
  let node := (loaded.nodes id).getD {}
  (if options.direction = .outgoing ∨ options.direction = .both then
      node.outgoing.map (Meeting.mk id depth "outgoing")
    else []) ++
  if options.direction = .incoming ∨ options.direction = .both then
    node.incoming.map (Meeting.mk id depth "incoming")
  else []

/-- The other ends of these edges. -/
def neighbors (loaded : LoadedEdges) (options : TraversalOptions) (id : String) : List String :=
  (meetingsAt loaded options 0 id).map (Meeting.neighborId loaded)

/-- The edges at the objects nearer than a depth, layer by layer. -/
def meetingsBefore (loaded : LoadedEdges) (options : TraversalOptions) (depth : Nat) : List Meeting :=
  entriesBefore (neighbors loaded options) options.startId (meetingsAt loaded options) depth

/-- All edges a query meets without a limit. -/
def meetings (loaded : LoadedEdges) (options : TraversalOptions) : List Meeting :=
  meetingsBefore loaded options options.maxDepth.toNat

variable {loaded : LoadedEdges} {options : TraversalOptions} {catalog : ObjectCatalog} {limit : Nat}

namespace Meeting

/-- The edge is at the object the meeting names, and asked for in its direction. -/
def Valid (loaded : LoadedEdges) (options : TraversalOptions) (m : Meeting) : Prop :=
  ∃ edge, loaded.edges[m.idx]? = some edge ∧
    (m.direction = "outgoing" ∧ (options.direction = .outgoing ∨ options.direction = .both) ∧
        edge.sourceId = m.objectId ∨
      m.direction = "incoming" ∧ (options.direction = .incoming ∨ options.direction = .both) ∧
        edge.targetId = m.objectId)

theorem edge_eq {m : Meeting} {edge : GraphEdge} (found : loaded.edges[m.idx]? = some edge) :
    m.edge loaded = edge := by
  rw [Meeting.edge, List.getD_eq_getElem?_getD, found, Option.getD_some]

/-- An edge joins the object it is met at to the neighbour. -/
theorem Valid.ends {m : Meeting} (valid : m.Valid loaded options) :
    (m.edge loaded).sourceId = m.objectId ∧ (m.edge loaded).targetId = m.neighborId loaded ∨
      (m.edge loaded).targetId = m.objectId ∧ (m.edge loaded).sourceId = m.neighborId loaded := by
  obtain ⟨edge, found, ⟨out, -, source⟩ | ⟨inward, -, target⟩⟩ := valid
  · rw [neighborId, if_pos out, edge_eq found]
    exact .inl ⟨source, rfl⟩
  · rw [neighborId, inward, if_neg (by decide), edge_eq found]
    exact .inr ⟨target, rfl⟩

theorem Valid.mem {m : Meeting} (valid : m.Valid loaded options) : m.edge loaded ∈ loaded.edges := by
  obtain ⟨edge, found, -⟩ := valid
  rw [edge_eq found]
  exact List.mem_of_getElem? found

end Meeting

/-- The meetings at an object are the edges at it that the query may cross. -/
theorem mem_meetingsAt (indexed : loaded.Indexed) {depth : Nat} {id : String} {m : Meeting} :
    m ∈ meetingsAt loaded options depth id ↔
      m.Valid loaded options ∧ m.objectId = id ∧ m.depth = depth := by
  obtain ⟨objectId, d, direction, idx⟩ := m
  have side : ∀ (asked : Prop) [Decidable asked] (way : String) (indices : List Nat),
      (⟨objectId, d, direction, idx⟩ : Meeting) ∈
          (if asked then indices.map (Meeting.mk id depth way) else []) ↔
        asked ∧ idx ∈ indices ∧ objectId = id ∧ d = depth ∧ direction = way := by
    intro asked _ way indices
    split
    · next isAsked =>
      simp only [List.mem_map, Meeting.mk.injEq, isAsked, true_and]
      constructor
      · rintro ⟨i, mem, rfl, rfl, rfl, rfl⟩
        exact ⟨mem, rfl, rfl, rfl⟩
      · rintro ⟨mem, rfl, rfl, rfl⟩
        exact ⟨idx, mem, rfl, rfl, rfl, rfl⟩
    · next notAsked => simp [notAsked]
  simp only [meetingsAt, List.mem_append]
  rw [side, side, indexed.outgoing, indexed.incoming]
  constructor
  · rintro (⟨asked, ⟨edge, found, source⟩, rfl, rfl, rfl⟩ | ⟨asked, ⟨edge, found, target⟩, rfl, rfl, rfl⟩)
    · exact ⟨⟨edge, found, .inl ⟨rfl, asked, source⟩⟩, rfl, rfl⟩
    · exact ⟨⟨edge, found, .inr ⟨rfl, asked, target⟩⟩, rfl, rfl⟩
  · rintro ⟨⟨edge, found, ⟨rfl, asked, source⟩ | ⟨rfl, asked, target⟩⟩, rfl, rfl⟩
    · exact .inl ⟨asked, ⟨edge, found, source⟩, rfl, rfl, rfl⟩
    · exact .inr ⟨asked, ⟨edge, found, target⟩, rfl, rfl, rfl⟩

/-- The depth of a meeting does not say where its edge leads. -/
theorem map_neighborId_meetingsAt (loaded : LoadedEdges) (options : TraversalOptions) (depth : Nat)
    (id : String) : (meetingsAt loaded options depth id).map (Meeting.neighborId loaded) =
      neighbors loaded options id := by
  simp only [neighbors, meetingsAt, List.map_append]
  congr 1
  · split
    · rw [List.map_map, List.map_map]
      rfl
    · rfl
  · split
    · rw [List.map_map, List.map_map]
      rfl
    · rfl

theorem mem_neighbors (indexed : loaded.Indexed) {u v : String} :
    v ∈ neighbors loaded options u ↔ Adjacent loaded options u v := by
  rw [neighbors, List.mem_map]
  constructor
  · rintro ⟨m, mem, rfl⟩
    obtain ⟨⟨edge, found, either⟩, rfl, -⟩ := (mem_meetingsAt indexed).mp mem
    refine ⟨m.idx, edge, found, ?_⟩
    rw [Meeting.neighborId, Meeting.edge_eq found]
    rcases either with ⟨out, asked, source⟩ | ⟨inward, asked, target⟩
    · rw [if_pos out]
      exact .inl ⟨asked, source, rfl⟩
    · rw [inward, if_neg (by decide)]
      exact .inr ⟨asked, target, rfl⟩
  · rintro ⟨idx, edge, found, ⟨asked, source, rfl⟩ | ⟨asked, target, rfl⟩⟩
    · let m : Meeting := ⟨u, 0, "outgoing", idx⟩
      refine ⟨m, (mem_meetingsAt indexed).mpr ⟨⟨edge, found, .inl ⟨rfl, asked, source⟩⟩, rfl, rfl⟩, ?_⟩
      rw [Meeting.neighborId, Meeting.edge_eq (found : loaded.edges[m.idx]? = _), if_pos rfl]
    · let m : Meeting := ⟨u, 0, "incoming", idx⟩
      refine ⟨m, (mem_meetingsAt indexed).mpr ⟨⟨edge, found, .inr ⟨rfl, asked, target⟩⟩, rfl, rfl⟩, ?_⟩
      rw [Meeting.neighborId, Meeting.edge_eq (found : loaded.edges[m.idx]? = _), if_neg]
      show ¬ "incoming" = "outgoing"
      decide

/-! ## What one edge does -/

/-- Every edge has an id, and no two have the same. -/
structure Identified (edges : List GraphEdge) : Prop where
  named : ∀ edge ∈ edges, edge.relationshipId ≠ ""
  distinct : (edges.map GraphEdge.relationshipId).Nodup

theorem Identified.eq_of_id {edges : List GraphEdge} (h : Identified edges) {e e' : GraphEdge}
    (mem : e ∈ edges) (mem' : e' ∈ edges) (same : e.relationshipId = e'.relationshipId) : e = e' :=
  List.inj_on_of_nodup_map h.distinct mem mem' same

/-- The edges met so far that are not repeats. -/
def returned (loaded : LoadedEdges) (ms : List Meeting) : List Meeting :=
  firstBy (Meeting.relationshipId loaded) [] ms

/-- The edges met so far that led somewhere new. -/
def discovered (loaded : LoadedEdges) (options : TraversalOptions) (ms : List Meeting) : List Meeting :=
  firstBy (Meeting.neighborId loaded) [options.startId] ms

/-- What is recorded of the meetings so far, the limit left aside. -/
structure Emitted (loaded : LoadedEdges) (options : TraversalOptions) (catalog : ObjectCatalog)
    (ms : List Meeting) (t : Traversal) : Prop where
  visited : t.visited =
    options.startId :: (discovered loaded options ms).map (Meeting.neighborId loaded)
  nodes : t.nodes =
    catalog.pathNode options.startId 0 :: (discovered loaded options ms).map (Meeting.node loaded catalog)
  emittedEdgeIds : t.emittedEdgeIds = (returned loaded ms).map (Meeting.relationshipId loaded)
  edges : t.edges = (returned loaded ms).map (Meeting.traversed loaded)
  met : ∀ m ∈ ms, m.Valid loaded options ∧ m.objectId ∈ t.visited

theorem emitted_start : Emitted loaded options catalog [] (.start catalog options.startId) :=
  ⟨rfl, rfl, rfl, rfl, List.forall_mem_nil _⟩

/-- Both ends of an edge met before are visited. -/
theorem Emitted.ends_visited {ms : List Meeting} {t : Traversal}
    (h : Emitted loaded options catalog ms t) {m : Meeting} (mem : m ∈ ms) :
    (m.edge loaded).sourceId ∈ t.visited ∧ (m.edge loaded).targetId ∈ t.visited := by
  obtain ⟨valid, here⟩ := h.met m mem
  have there : m.neighborId loaded ∈ t.visited := by
    rw [h.visited, List.mem_cons, discovered, mem_map_firstBy, List.mem_singleton]
    by_cases isStart : m.neighborId loaded = options.startId
    · exact .inl isStart
    · exact .inr ⟨List.mem_map_of_mem mem, isStart⟩
  rcases valid.ends with ⟨source, target⟩ | ⟨target, source⟩
  · rw [source, target]
    exact ⟨here, there⟩
  · rw [source, target]
    exact ⟨there, here⟩

/-- `emitEdge` for a meeting. -/
def Traversal.emit (loaded : LoadedEdges) (catalog : ObjectCatalog) (t : Traversal) (m : Meeting) :
    Traversal :=
  t.emitEdge catalog loaded.edges m.depth m.direction m.idx

theorem Traversal.emit_eq {m : Meeting} (named : m.relationshipId loaded ≠ "") (t : Traversal) :
    t.emit loaded catalog m =
      if m.relationshipId loaded ∈ t.emittedEdgeIds then t
      else if m.neighborId loaded ∈ t.visited then
        { t with
          emittedEdgeIds := t.emittedEdgeIds ++ [m.relationshipId loaded]
          edges := t.edges ++ [m.traversed loaded] }
      else
        { t with
          emittedEdgeIds := t.emittedEdgeIds ++ [m.relationshipId loaded]
          edges := t.edges ++ [m.traversed loaded]
          visited := t.visited ++ [m.neighborId loaded]
          nodes := t.nodes ++ [m.node loaded catalog]
          frontier := t.frontier ++ [(m.neighborId loaded, m.depth + 1)] } := by
  have named' : (loaded.edges.getD m.idx noEdge).relationshipId ≠ "" := named
  simp only [Traversal.emit, Traversal.emitEdge, ne_eq, named', not_false_eq_true, true_and, if_true]
  rfl

/-- A meeting leads somewhere new unless its neighbour was visited. -/
theorem Emitted.discovered_concat {ms : List Meeting} {t : Traversal}
    (h : Emitted loaded options catalog ms t) (m : Meeting) :
    discovered loaded options (ms ++ [m]) =
      if m.neighborId loaded ∈ t.visited then discovered loaded options ms
      else discovered loaded options ms ++ [m] := by
  rw [discovered, firstBy_concat, h.visited]
  rfl

/-- A meeting is returned unless its edge was. -/
theorem Emitted.returned_concat {ms : List Meeting} {t : Traversal}
    (h : Emitted loaded options catalog ms t) (m : Meeting) :
    returned loaded (ms ++ [m]) =
      if m.relationshipId loaded ∈ t.emittedEdgeIds then returned loaded ms
      else returned loaded ms ++ [m] := by
  rw [returned, firstBy_concat, List.nil_append, h.emittedEdgeIds]
  rfl

/-- What was met before is still visited when more is. -/
theorem Emitted.met_concat {ms : List Meeting} {t : Traversal}
    (h : Emitted loaded options catalog ms t) {m : Meeting} (valid : m.Valid loaded options)
    (here : m.objectId ∈ t.visited) {visited : List String}
    (kept : ∀ objectId ∈ t.visited, objectId ∈ visited) :
    ∀ m' ∈ ms ++ [m], m'.Valid loaded options ∧ m'.objectId ∈ visited := by
  intro m' mem
  rcases List.mem_append.mp mem with mem | last
  · exact ⟨(h.met m' mem).1, kept _ (h.met m' mem).2⟩
  · rw [List.mem_singleton.mp last]
    exact ⟨valid, kept _ here⟩

/-- A repeated edge was met at its other end, and so leads back. -/
theorem Emitted.neighbor_of_repeat (identified : Identified loaded.edges) {ms : List Meeting}
    {t : Traversal} (h : Emitted loaded options catalog ms t) {m : Meeting}
    (valid : m.Valid loaded options) (repeated : m.relationshipId loaded ∈ t.emittedEdgeIds) :
    m.neighborId loaded ∈ t.visited := by
  rw [h.emittedEdgeIds] at repeated
  obtain ⟨m', mem, same⟩ := List.mem_map.mp (mem_map_firstBy.mp repeated).1
  have sameEdge := identified.eq_of_id (h.met m' mem).1.mem valid.mem same
  have visited := h.ends_visited mem
  rw [sameEdge] at visited
  rcases valid.ends with ⟨-, target⟩ | ⟨-, source⟩
  · exact target ▸ visited.2
  · exact source ▸ visited.1

/-- An edge is recorded unless it is a repeat, and its neighbour if it is new. The
neighbour of a repeat is never new. -/
theorem Emitted.emit (identified : Identified loaded.edges) {ms : List Meeting} {t : Traversal}
    (h : Emitted loaded options catalog ms t) {m : Meeting} (valid : m.Valid loaded options)
    (here : m.objectId ∈ t.visited) :
    Emitted loaded options catalog (ms ++ [m]) (t.emit loaded catalog m) := by
  have nodes := h.discovered_concat m
  have edges := h.returned_concat m
  rw [Traversal.emit_eq (identified.named _ valid.mem)]
  split
  · next repeated =>
    rw [if_pos (h.neighbor_of_repeat identified valid repeated)] at nodes
    rw [if_pos repeated] at edges
    refine ⟨?_, ?_, ?_, ?_, h.met_concat valid here fun _ => id⟩
    · rw [nodes, h.visited]
    · rw [nodes, h.nodes]
    · rw [edges, h.emittedEdgeIds]
    · rw [edges, h.edges]
  · next new =>
    rw [if_neg new] at edges
    have ids : t.emittedEdgeIds ++ [m.relationshipId loaded] =
        (returned loaded (ms ++ [m])).map (Meeting.relationshipId loaded) := by
      rw [edges, List.map_append, h.emittedEdgeIds]
      rfl
    have taken : t.edges ++ [m.traversed loaded] =
        (returned loaded (ms ++ [m])).map (Meeting.traversed loaded) := by
      rw [edges, List.map_append, h.edges]
      rfl
    split
    · next atNeighbor =>
      rw [if_pos atNeighbor] at nodes
      refine ⟨?_, ?_, ids, taken, h.met_concat valid here fun _ => id⟩
      · rw [nodes, ← h.visited]
      · rw [nodes, ← h.nodes]
    · next unseen =>
      rw [if_neg unseen] at nodes
      refine ⟨?_, ?_, ids, taken, h.met_concat valid here fun _ => List.mem_append_left _⟩
      · rw [nodes, List.map_append, ← List.cons_append, ← h.visited]
        rfl
      · rw [nodes, List.map_append, ← List.cons_append, ← h.nodes]
        rfl

/-! ## The limit -/

/-- `collectEdge` for a meeting. -/
def Traversal.collect (loaded : LoadedEdges) (limit : Nat) (catalog : ObjectCatalog) (t : Traversal)
    (m : Meeting) : Traversal :=
  t.collectEdge limit catalog loaded.edges m.depth m.direction m.idx

namespace Traversal

theorem collect_eq (t : Traversal) (m : Meeting) : t.collect loaded limit catalog m =
    if t.limitHit then t
    else if limit ≤ t.edges.length then { t with limitHit := true }
    else t.emit loaded catalog m := rfl

theorem limitHit_emit (t : Traversal) (m : Meeting) :
    (t.emit loaded catalog m).limitHit = t.limitHit := by
  unfold emit emitEdge
  simp only
  split_ifs <;> rfl

theorem visited_emit (t : Traversal) (m : Meeting) :
    t.visited ⊆ (t.emit loaded catalog m).visited := by
  unfold emit emitEdge
  simp only
  split_ifs
  all_goals first
    | exact List.Subset.refl _
    | exact List.subset_append_left _ _

/-- The traversal was not stopped before, and has forgotten no object. -/
theorem going_collect {t : Traversal} {m : Meeting}
    (going : (t.collect loaded limit catalog m).limitHit = false) :
    t.limitHit = false ∧ t.visited ⊆ (t.collect loaded limit catalog m).visited := by
  rw [collect_eq] at going ⊢
  cases hit : t.limitHit with
  | true =>
    rw [hit, if_pos rfl, hit] at going
    cases going
  | false =>
    refine ⟨rfl, ?_⟩
    rw [if_neg Bool.false_ne_true]
    split
    · exact List.Subset.refl _
    · exact t.visited_emit m

/-- The queue is the nodes not yet taken off it. -/
structure Queued (popped : Nat) (t : Traversal) : Prop where
  queue : t.frontier = (t.nodes.drop popped).map fun node => (node.objectId, node.depth)
  within : popped ≤ t.nodes.length

theorem Queued.collect {popped : Nat} {t : Traversal} (h : t.Queued popped) (m : Meeting) :
    (t.collect loaded limit catalog m).Queued popped := by
  unfold Traversal.collect collectEdge emitEdge
  simp only
  split_ifs
  all_goals first
    | exact ⟨h.queue, h.within⟩
    | refine ⟨?_, h.within.trans (List.length_append ▸ Nat.le_add_right _ _)⟩
      rw [List.drop_append_of_le_length h.within, List.map_append, ← h.queue]
      rfl

end Traversal

theorem returned_extends (ms ms' : List Meeting) : returned loaded ms <+: returned loaded (ms ++ ms') :=
  ⟨_, (firstBy_append ms ms').symm⟩

theorem length_returned_concat (ms : List Meeting) (m : Meeting) :
    (returned loaded (ms ++ [m])).length ≤ (returned loaded ms).length + 1 := by
  unfold returned
  rw [firstBy_concat]
  split
  · exact Nat.le_succ _
  · rw [List.length_append, List.length_singleton]

/-- What is recorded of the meetings so far under the limit: the edges are the first
ones, and the traversal is stopped by a meeting after the last of them. -/
structure Collected (loaded : LoadedEdges) (options : TraversalOptions) (limit : Nat)
    (catalog : ObjectCatalog) (ms : List Meeting) (t : Traversal) : Prop where
  going : t.limitHit = false →
    Emitted loaded options catalog ms t ∧ (returned loaded ms).length ≤ limit
  edges : t.edges = ((returned loaded ms).take limit).map (Meeting.traversed loaded)
  hit : t.limitHit = true ↔
    ∃ early last, ms = early ++ [last] ∧ limit ≤ (returned loaded early).length

theorem collected_start :
    Collected loaded options limit catalog [] (.start catalog options.startId) := by
  refine ⟨fun _ => ⟨emitted_start, Nat.zero_le _⟩, by simp [returned, Traversal.start], ?_⟩
  constructor
  · intro impossible
    cases impossible
  · rintro ⟨early, last, impossible, -⟩
    exact absurd impossible.symm (List.append_ne_nil_of_right_ne_nil _ (List.cons_ne_nil _ _))

theorem Collected.collect (identified : Identified loaded.edges) {ms : List Meeting} {t : Traversal}
    (h : Collected loaded options limit catalog ms t) {m : Meeting} (valid : m.Valid loaded options)
    (here : t.limitHit = false → m.objectId ∈ t.visited) :
    Collected loaded options limit catalog (ms ++ [m]) (t.collect loaded limit catalog m) := by
  -- past the limit, later meetings change no edge
  have cutOff : limit ≤ (returned loaded ms).length →
      (returned loaded (ms ++ [m])).take limit = (returned loaded ms).take limit := fun used => by
    obtain ⟨more, same⟩ := @returned_extends loaded ms [m]
    rw [← same, List.take_append_of_le_length used]
  rw [Traversal.collect_eq]
  cases hit : t.limitHit with
  | true =>
    obtain ⟨early, last, rfl, used⟩ := h.hit.mp hit
    have used := used.trans (returned_extends early [last]).length_le
    rw [if_pos rfl]
    refine ⟨fun going => ?_, ?_, iff_of_true hit ⟨_, m, rfl, used⟩⟩
    · rw [hit] at going
      cases going
    · rw [cutOff used]
      exact h.edges
  | false =>
    obtain ⟨emitted, within⟩ := h.going hit
    have count : t.edges.length = (returned loaded ms).length := by
      rw [emitted.edges, List.length_map]
    rw [if_neg Bool.false_ne_true, count]
    split
    · next used =>
      refine ⟨fun going => (by cases going), ?_, iff_of_true rfl ⟨ms, m, rfl, used⟩⟩
      rw [cutOff used]
      exact h.edges
    · next free =>
      have more := @length_returned_concat loaded ms m
      have within' : (returned loaded (ms ++ [m])).length ≤ limit :=
        more.trans (Nat.succ_le_of_lt (not_le.mp free))
      have emitted' := emitted.emit identified valid (here hit)
      refine ⟨fun _ => ⟨emitted', within'⟩, ?_, ?_⟩
      · rw [List.take_of_length_le within']
        exact emitted'.edges
      · rw [Traversal.limitHit_emit, hit]
        refine iff_of_false Bool.false_ne_true ?_
        rintro ⟨early, last, same, used⟩
        rw [(List.append_inj' same rfl).1] at free
        exact free used

/-- The edges at a node are gone through. -/
theorem collected_foldl (identified : Identified loaded.edges) {popped : Nat} (more : List Meeting)
    {ms : List Meeting} {t : Traversal} (h : Collected loaded options limit catalog ms t)
    (queued : t.limitHit = false → t.Queued popped)
    (valid : ∀ m ∈ more, m.Valid loaded options ∧ (t.limitHit = false → m.objectId ∈ t.visited)) :
    let t' := more.foldl (Traversal.collect loaded limit catalog) t
    Collected loaded options limit catalog (ms ++ more) t' ∧
      (t'.limitHit = false → t'.Queued popped) := by
  induction more generalizing ms t with
  | nil => exact ⟨(List.append_nil ms).symm ▸ h, queued⟩
  | cons m more ih =>
    have first := valid m List.mem_cons_self
    rw [List.foldl_cons, List.append_cons]
    refine ih (h.collect identified first.1 first.2) (fun going => ?_) fun m' mem => ?_
    · exact (queued (Traversal.going_collect going).1).collect m
    · have later := valid m' (List.mem_cons_of_mem m mem)
      refine ⟨later.1, fun going => ?_⟩
      obtain ⟨before, kept⟩ := Traversal.going_collect going
      exact kept (later.2 before)

/-! ## Rounds -/

theorem Collected.pop {ms : List Meeting} {t : Traversal}
    (h : Collected loaded options limit catalog ms t) (frontier : List (String × Nat)) :
    Collected loaded options limit catalog ms { t with frontier } := by
  refine ⟨fun going => ?_, h.edges, h.hit⟩
  obtain ⟨emitted, within⟩ := h.going going
  exact ⟨⟨emitted.visited, emitted.nodes, emitted.emittedEdgeIds, emitted.edges, emitted.met⟩, within⟩

namespace Traversal

/-- A round goes through the edges at the head of the queue. -/
theorem round_eq {t : Traversal} {currentId : String} {depth : Nat} {frontier : List (String × Nat)}
    (isFrontier : t.frontier = (currentId, depth) :: frontier) (shallow : (depth : Int) < options.maxDepth) :
    t.round loaded options limit catalog =
      (meetingsAt loaded options depth currentId).foldl (collect loaded limit catalog)
        { t with frontier } := by
  have side : ∀ (asked : Prop) [Decidable asked] (direction : String) (indices : List Nat)
      (t : Traversal), (if asked then indices.map (Meeting.mk currentId depth direction) else []).foldl
          (collect loaded limit catalog) t =
        if asked then t.collectEdges limit catalog loaded.edges depth indices direction else t := by
    intro asked _ direction indices t
    split
    · exact List.foldl_map
    · rfl
  unfold round
  rw [isFrontier]
  simp only
  rw [if_neg (not_le.mpr shallow), meetingsAt, List.foldl_append, side, side]
  cases loaded.nodes currentId with
  | none => simp [collectEdges]
  | some node => rfl

theorem run_stopped {t : Traversal} (hit : t.limitHit = true) (rounds : Nat) :
    run loaded options limit catalog rounds t = t := by
  cases rounds with
  | zero => rfl
  | succ rounds => simp [run, hit]

theorem foldl_stopped {t : Traversal} (hit : t.limitHit = true) (ms : List Meeting) :
    ms.foldl (collect loaded limit catalog) t = t := by
  induction ms with
  | nil => rfl
  | cons m ms ih =>
    rw [List.foldl_cons, collect_eq, if_pos hit]
    exact ih

/-- Nodes at the full depth are only taken off the queue. -/
theorem run_deep (rounds : Nat) {t : Traversal} (deep : ∀ e ∈ t.frontier, options.maxDepth ≤ e.2) :
    ∃ frontier, run loaded options limit catalog rounds t = { t with frontier } := by
  induction rounds generalizing t with
  | zero => exact ⟨t.frontier, rfl⟩
  | succ rounds ih =>
    unfold run
    split
    · exact ⟨t.frontier, rfl⟩
    · next goesOn =>
      cases isFrontier : t.frontier with
      | nil => simp [isFrontier] at goesOn
      | cons head frontier =>
        have popped : t.round loaded options limit catalog = { t with frontier } := by
          unfold round
          rw [isFrontier]
          exact if_pos (deep head (isFrontier ▸ List.mem_cons_self))
        rw [popped]
        exact ih fun e mem => deep e (isFrontier ▸ List.mem_cons_of_mem head mem)

end Traversal

/-- The layers above a depth are gone through, and these of the layer at it. -/
structure Expanding (loaded : LoadedEdges) (options : TraversalOptions) (limit : Nat)
    (catalog : ObjectCatalog) (d : Nat) (done : List String) (t : Traversal) : Prop where
  collected : Collected loaded options limit catalog
    (meetingsBefore loaded options d ++ done.flatMap (meetingsAt loaded options d)) t
  queued : t.limitHit = false →
    t.Queued ((nearer (neighbors loaded options) options.startId d).length + done.length)

theorem depth_meetingsAt (indexed : loaded.Indexed) (d : Nat) (u : String) :
    ∀ m ∈ meetingsAt loaded options d u, m.depth = d := fun _ mem =>
  ((mem_meetingsAt indexed).mp mem).2.2

/-- Nothing is discovered from a layer but the layer below. -/
theorem discovered_append (d : Nat) (done : List String) :
    ∃ more : List Meeting,
      discovered loaded options
          (meetingsBefore loaded options d ++ done.flatMap (meetingsAt loaded options d)) =
        discovered loaded options (meetingsBefore loaded options d) ++ more ∧
      ∀ m ∈ more, ∃ u, m ∈ meetingsAt loaded options d u := by
  refine ⟨_, firstBy_append _ _, fun m kept => ?_⟩
  obtain ⟨u, -, mem⟩ := List.mem_flatMap.mp ((sublist_firstBy _ _ _).subset kept)
  exact ⟨u, mem⟩

/-- The rest of the layer is visited, and leads the queue. -/
theorem Expanding.frontier_eq (indexed : loaded.Indexed) {d : Nat} {done rest : List String}
    {t : Traversal} (h : Expanding loaded options limit catalog d done t) (going : t.limitHit = false)
    (isLayer : layer (neighbors loaded options) options.startId d = done ++ rest) :
    (∀ u ∈ rest, u ∈ t.visited) ∧
      ∃ more : List (String × Nat), t.frontier = rest.map (fun u => (u, d)) ++ more ∧
        ∀ e ∈ more, e.2 = d + 1 := by
  obtain ⟨emitted, -⟩ := h.collected.going going
  obtain ⟨queue, -⟩ := h.queued going
  have leads := map_neighborId_meetingsAt loaded options
  obtain ⟨more, split, below⟩ := @discovered_append loaded options d done
  constructor
  · intro u mem
    rw [emitted.visited, split, List.map_append, ← List.cons_append, discovered, meetingsBefore,
      noted_layers leads, isLayer]
    exact List.mem_append_left _ (List.mem_append_right _ (List.mem_append_right _ mem))
  · refine ⟨more.map fun m => (m.neighborId loaded, m.depth + 1), ?_, fun e isMore => ?_⟩
    · have noted := @noted_depths _ _ _ options.startId _ _ _ _ leads _ (depth_meetingsAt indexed)
        catalog.pathNode d
      have nodes : t.nodes = ((List.range d).flatMap fun j =>
            (layer (neighbors loaded options) options.startId j).map (catalog.pathNode · j)) ++
          (done ++ rest).map (catalog.pathNode · d) ++ more.map (Meeting.node loaded catalog) := by
        rw [emitted.nodes, split, List.map_append, ← List.cons_append]
        refine congrArg (· ++ _) (noted.trans ?_)
        rw [List.range_succ, List.flatMap_append, List.flatMap_singleton, isLayer]
      have gone : ((List.range d).flatMap fun j =>
            (layer (neighbors loaded options) options.startId j).map (catalog.pathNode · j)).length =
          (nearer (neighbors loaded options) options.startId d).length := by
        rw [nearer_eq, List.length_flatMap, List.length_flatMap]
        simp only [List.length_map]
      rw [queue, nodes, List.map_append, List.append_assoc, List.append_assoc, ← List.append_assoc,
        List.drop_left' (by rw [List.length_append, gone, List.length_map]), List.map_append,
        List.map_map, List.map_map]
      rfl
    · obtain ⟨m, mem, rfl⟩ := List.mem_map.mp isMore
      obtain ⟨u, atU⟩ := below m mem
      exact congrArg Nat.succ (depth_meetingsAt indexed d u m atU)

/-- A vertex of the layer is done with after its round. -/
theorem Expanding.round (indexed : loaded.Indexed) (identified : Identified loaded.edges) {d : Nat}
    (shallow : (d : Int) < options.maxDepth) {done rest : List String} {u : String} {t : Traversal}
    (h : Expanding loaded options limit catalog d done t) (going : t.limitHit = false)
    (isLayer : layer (neighbors loaded options) options.startId d = done ++ u :: rest) :
    t.frontier ≠ [] ∧
      Expanding loaded options limit catalog d (done ++ [u]) (t.round loaded options limit catalog) := by
  obtain ⟨visited, more, frontier, -⟩ := h.frontier_eq indexed going isLayer
  refine ⟨by rw [frontier]; exact List.cons_ne_nil _ _, ?_⟩
  have popped : Traversal.Queued ((nearer (neighbors loaded options) options.startId d).length +
      (done ++ [u]).length) { t with frontier := rest.map (fun u => (u, d)) ++ more } := by
    obtain ⟨queue, within⟩ := h.queued going
    rw [List.length_append, List.length_singleton, ← Nat.add_assoc]
    rw [frontier, List.map_cons, List.cons_append] at queue
    constructor
    · rw [← List.drop_drop, List.drop_one, List.map_tail, ← queue]
      rfl
    · refine Nat.succ_le_of_lt (lt_of_le_of_ne within fun full => ?_)
      rw [full, List.drop_length] at queue
      cases queue
  rw [Traversal.round_eq frontier shallow]
  obtain ⟨collected, queued⟩ := collected_foldl identified (meetingsAt loaded options d u)
    (h.collected.pop _) (fun _ => popped) fun m mem => by
      obtain ⟨valid, rfl, -⟩ := (mem_meetingsAt indexed).mp mem
      exact ⟨valid, fun _ => visited _ List.mem_cons_self⟩
  refine ⟨?_, queued⟩
  rw [List.flatMap_append, List.flatMap_singleton, ← List.append_assoc]
  exact collected

/-- A stopped traversal stays as it is, whatever is still to come. -/
theorem Expanding.stopped (indexed : loaded.Indexed) (identified : Identified loaded.edges) {d : Nat}
    {done : List String} {t : Traversal} (h : Expanding loaded options limit catalog d done t)
    (hit : t.limitHit = true) (rest : List String) :
    Expanding loaded options limit catalog d (done ++ rest) t := by
  have idle : t.limitHit = false → False := fun going => by
    rw [hit] at going
    cases going
  obtain ⟨collected, -⟩ := @collected_foldl loaded options catalog limit identified 0
    (rest.flatMap (meetingsAt loaded options d)) _ t h.collected (fun going => (idle going).elim)
    fun m mem => by
      obtain ⟨u, -, mem⟩ := List.mem_flatMap.mp mem
      exact ⟨((mem_meetingsAt indexed).mp mem).1, fun going => (idle going).elim⟩
  rw [Traversal.foldl_stopped hit, List.append_assoc, ← List.flatMap_append] at collected
  exact ⟨collected, fun going => (idle going).elim⟩

/-- The rest of a layer takes a round for each of its vertices. -/
theorem expanding_layer (indexed : loaded.Indexed) (identified : Identified loaded.edges) {d : Nat}
    (shallow : (d : Int) < options.maxDepth) (rounds : Nat) (rest : List String) {done : List String}
    {t : Traversal} (h : Expanding loaded options limit catalog d done t)
    (isLayer : layer (neighbors loaded options) options.startId d = done ++ rest) :
    ∃ t', Traversal.run loaded options limit catalog (rest.length + rounds) t =
        .run loaded options limit catalog rounds t' ∧
      Expanding loaded options limit catalog d (done ++ rest) t' := by
  induction rest generalizing done t with
  | nil => exact ⟨t, by rw [List.length_nil, Nat.zero_add], (List.append_nil done).symm ▸ h⟩
  | cons u rest ih =>
    cases hit : t.limitHit with
    | true =>
      refine ⟨t, ?_, h.stopped indexed identified hit _⟩
      rw [Traversal.run_stopped hit, Traversal.run_stopped hit]
    | false =>
      obtain ⟨queued, after⟩ := h.round indexed identified shallow hit isLayer
      rw [List.append_cons] at isLayer ⊢
      obtain ⟨t', same, after⟩ := ih after isLayer
      refine ⟨t', ?_, after⟩
      rw [List.length_cons, Nat.succ_add, Traversal.run, if_neg, same]
      rw [hit, Bool.or_false, List.isEmpty_iff]
      exact queued

/-- The rounds left suffice for the layers left. -/
theorem expanding_run (indexed : loaded.Indexed) (identified : Identified loaded.edges) (n : Nat)
    {d rounds : Nat} {t : Traversal} (depth : d + n = options.maxDepth.toNat)
    (h : Expanding loaded options limit catalog d [] t)
    (enough : (nearer (neighbors loaded options) options.startId options.maxDepth.toNat).length ≤
      (nearer (neighbors loaded options) options.startId d).length + rounds) :
    Collected loaded options limit catalog (meetings loaded options)
      (.run loaded options limit catalog rounds t) := by
  induction n generalizing d rounds t with
  | zero =>
    have collected := h.collected
    rw [List.flatMap_nil, List.append_nil, show d = options.maxDepth.toNat from depth] at collected
    cases hit : t.limitHit with
    | true =>
      rw [Traversal.run_stopped hit]
      exact collected
    | false =>
      obtain ⟨-, more, frontier, below⟩ := h.frontier_eq indexed hit (List.nil_append _).symm
      have deep : options.maxDepth ≤ d := Int.toNat_le.mp depth.ge
      obtain ⟨left, same⟩ := @Traversal.run_deep loaded options catalog limit rounds t fun e mem => by
        rw [frontier] at mem
        rcases List.mem_append.mp mem with mem | mem
        · obtain ⟨u, -, rfl⟩ := List.mem_map.mp mem
          exact deep
        · rw [below e mem]
          exact deep.trans (Int.ofNat_le.mpr d.le_succ)
      rw [same]
      exact collected.pop left
  | succ n ih =>
    have lt : d < options.maxDepth.toNat := depth ▸ Nat.lt_add_of_pos_right n.succ_pos
    have longer := (@nearer_extends _ _ (neighbors loaded options) options.startId _ _
      (Nat.succ_le_of_lt lt)).length_le
    rw [nearer_succ, List.length_append] at longer
    obtain ⟨rounds, rfl⟩ := Nat.exists_eq_add_of_le
      (Nat.le_of_add_le_add_left (longer.trans enough))
    obtain ⟨t', same, after⟩ := expanding_layer indexed identified (Int.lt_toNat.mp lt) rounds _ h
      (List.nil_append _).symm
    rw [same]
    refine ih (by rw [← depth, Nat.succ_add_eq_add_succ]) ⟨?_, fun going => ?_⟩ ?_
    · have collected := after.collected
      rw [List.nil_append, meetingsBefore, ← entriesBefore_succ] at collected
      rw [List.flatMap_nil, List.append_nil]
      exact collected
    · rw [nearer_succ, List.length_append]
      exact after.queued going
    · rw [nearer_succ, List.length_append, Nat.add_assoc]
      exact enough

/-- The queue holds no more objects than there are ends of edges, and the start. -/
theorem length_nearer_le (indexed : loaded.Indexed) (d : Nat) :
    (nearer (neighbors loaded options) options.startId d).length ≤ 2 * loaded.edges.length + 1 := by
  have distinct := (@nodup_layers _ _ (neighbors loaded options) options.startId d).sublist
    (List.sublist_append_left _ _)
  rw [← List.toFinset_card_of_nodup distinct]
  refine (Finset.card_le_card fun v mem => ?_).trans
    ((Finset.card_insert_le options.startId (endpoints loaded)).trans
      (Nat.succ_le_succ (card_endpoints loaded)))
  rw [Finset.mem_insert]
  refine (eq_or_next (List.mem_toFinset.mp mem)).imp_right ?_
  rintro ⟨u, follows⟩
  obtain ⟨idx, crosses⟩ := (mem_neighbors indexed).mp follows
  exact crosses.mem_endpoints

theorem collected_traverse (indexed : loaded.Indexed) (identified : Identified loaded.edges) :
    Collected loaded options limit catalog (meetings loaded options)
      (traverse loaded options limit catalog) := by
  refine expanding_run indexed identified _ (Nat.zero_add _) ⟨collected_start, fun _ => ?_⟩ ?_
  · exact ⟨rfl, Nat.zero_le _⟩
  · rw [nearer_zero, List.length_nil, Nat.zero_add]
    exact length_nearer_le indexed _

/-! ## What the edges met are -/

theorem mem_meetings (indexed : loaded.Indexed) {m : Meeting} : m ∈ meetings loaded options ↔
    (m.depth : Int) < options.maxDepth ∧
      Distance (Adjacent loaded options) options.startId m.depth m.objectId ∧
      m.Valid loaded options := by
  have adjacent : (fun u v => v ∈ neighbors loaded options u) = Adjacent loaded options := by
    funext u v
    exact propext (mem_neighbors indexed)
  rw [meetings, meetingsBefore, mem_entriesBefore, ← adjacent, ← mem_layer, ← Int.lt_toNat]
  constructor
  · rintro ⟨d, lt, u, atU, mem⟩
    obtain ⟨valid, rfl, rfl⟩ := (mem_meetingsAt indexed).mp mem
    exact ⟨lt, atU, valid⟩
  · rintro ⟨lt, atU, valid⟩
    exact ⟨m.depth, lt, m.objectId, atU, (mem_meetingsAt indexed).mpr ⟨valid, rfl, rfl⟩⟩

/-- The last edge a query meets without a limit is one it has met before, and
the limit is the number of different edges. -/
def EndsOnRepeat (package : Package) (options : TraversalOptions) (limit : Nat) : Prop :=
  let loaded := loadRelationshipEdges package options
  (returned loaded (meetings loaded options)).length = limit ∧
    ∃ early last, meetings loaded options = early ++ [last] ∧
      last.relationshipId loaded ∈ early.map (Meeting.relationshipId loaded)

/-- The relationship leads from one object to the other, crossed in a direction the
query asks for. -/
def CrossedFrom (options : TraversalOptions) (relationship : Relationship) (direction u v : String) :
    Prop :=
  direction = "outgoing" ∧ (options.direction = .outgoing ∨ options.direction = .both) ∧
      relationship.edge.sourceId = u ∧ relationship.edge.targetId = v ∨
    direction = "incoming" ∧ (options.direction = .incoming ∨ options.direction = .both) ∧
      relationship.edge.targetId = u ∧ relationship.edge.sourceId = v

/-- The relationship qualifies, and leads on from an object so far from the start
and nearer than the depth. -/
structure WithinReach (package : Package) (options : TraversalOptions) (relationship : Relationship)
    (direction u : String) (d : Nat) : Prop where
  mem : relationship ∈ package.relationships
  qualifies : Qualifies options relationship = true
  distance : Distance (Related package.relationships options) options.startId d u
  within : (d : Int) < options.maxDepth
  crossed : ∃ v, CrossedFrom options relationship direction u v

/-- The nodes are the objects within the depth, and the edges the qualifying
relationships that lead on from objects nearer than it, each once and at its
nearer end. -/
structure ExactTraversal (package : Package) (options : TraversalOptions) (result : TraversalResult) :
    Prop where
  nodes : ∀ id d, (∃ node ∈ result.nodes, node.objectId = id ∧ node.depth = d) ↔
    (d : Int) ≤ options.maxDepth ∧
      Distance (Related package.relationships options) options.startId d id
  nodesOnce : (result.nodes.map TraversalNode.objectId).Nodup
  described : ∀ node ∈ result.nodes,
    node = (buildObjectCatalog package).pathNode node.objectId node.depth
  edges : ∀ relationship direction u d, WithinReach package options relationship direction u d →
    ∃ step ∈ result.edges, step.relationshipId = relationship.edge.relationshipId
  edgesOnce : (result.edges.map TraversalEdge.relationshipId).Nodup
  copied : ∀ step ∈ result.edges, ∃ relationship u d,
    WithinReach package options relationship step.direction u d ∧
      step = relationship.edge.traversed step.direction (d + 1) ∧
      ∀ direction u' d', WithinReach package options relationship direction u' d' → d ≤ d'

/-- What the query promises of its result. -/
structure TraversalAccount (package : Package) (options : TraversalOptions)
    (result : TraversalResult) : Prop where
  exact : result.limitApplied = false → ExactTraversal package options result
  /-- The flag tells whether a relationship is left out. -/
  limitApplied : result.limitApplied = true ↔
    ∃ relationship direction u d, WithinReach package options relationship direction u d ∧
      relationship.edge.relationshipId ∉ result.edges.map TraversalEdge.relationshipId

section Account

variable {package : Package}

/-- The edges met are the relationships within reach. -/
theorem withinReach_iff (loads : loaded.Loads options package.relationships)
    {relationship : Relationship} {direction u : String} {d : Nat} :
    WithinReach package options relationship direction u d ↔
      relationship ∈ package.relationships ∧ Qualifies options relationship = true ∧
        ∃ m ∈ meetings loaded options, m.edge loaded = relationship.edge ∧
          m.direction = direction ∧ m.objectId = u ∧ m.depth = d := by
  constructor
  · intro h
    obtain ⟨idx, found⟩ := (mem_edges_iff loads).mpr ⟨relationship, h.mem, h.qualifies, rfl⟩
    have distance := h.distance
    rw [← adjacent_eq loads] at distance
    let m : Meeting := ⟨u, d, direction, idx⟩
    refine ⟨h.mem, h.qualifies, m, (mem_meetings loads.indexed).mpr ⟨h.within, distance, _, found, ?_⟩,
      Meeting.edge_eq found, rfl, rfl, rfl⟩
    obtain ⟨v, ⟨out, asked, source, -⟩ | ⟨inward, asked, target, -⟩⟩ := h.crossed
    · exact .inl ⟨out, asked, source⟩
    · exact .inr ⟨inward, asked, target⟩
  · rintro ⟨mem, qualifies, m, met, same, rfl, rfl, rfl⟩
    obtain ⟨within, distance, edge, found, either⟩ := (mem_meetings loads.indexed).mp met
    rw [adjacent_eq loads] at distance
    rw [Meeting.edge_eq found] at same
    subst same
    refine ⟨mem, qualifies, distance, within, ?_⟩
    rcases either with ⟨out, asked, source⟩ | ⟨inward, asked, target⟩
    · exact ⟨_, .inl ⟨out, asked, source, rfl⟩⟩
    · exact ⟨_, .inr ⟨inward, asked, target, rfl⟩⟩

/-- Every edge met is a relationship within reach. -/
theorem withinReach_of_met (loads : loaded.Loads options package.relationships) {m : Meeting}
    (met : m ∈ meetings loaded options) : ∃ relationship, m.edge loaded = relationship.edge ∧
      WithinReach package options relationship m.direction m.objectId m.depth := by
  obtain ⟨-, -, valid⟩ := (mem_meetings loads.indexed).mp met
  obtain ⟨relationship, mem, qualifies, same⟩ :=
    (mem_edges_iff loads).mp (List.mem_iff_getElem?.mp valid.mem)
  exact ⟨relationship, same.symm, (withinReach_iff loads).mpr
    ⟨mem, qualifies, m, met, same.symm, rfl, rfl, rfl⟩⟩

theorem identified_of_loads (loads : loaded.Loads options package.relationships)
    (named : ∀ relationship ∈ package.relationships, relationship.edge.relationshipId ≠ "")
    (distinct : (package.relationships.map fun r => r.edge.relationshipId).Nodup) :
    Identified loaded.edges := by
  rw [loads.edges]
  constructor
  · intro edge isEdge
    obtain ⟨relationship, mem, rfl⟩ := List.mem_map.mp isEdge
    exact named relationship (List.mem_of_mem_filter mem)
  · rw [List.map_map]
    exact distinct.sublist (List.filter_sublist.map _)

theorem mem_returned_ids {id : String} {ms : List Meeting} :
    id ∈ (returned loaded ms).map (Meeting.relationshipId loaded) ↔
      id ∈ ms.map (Meeting.relationshipId loaded) := by
  rw [returned, mem_map_firstBy, and_iff_left List.not_mem_nil]

theorem nodup_returned_ids (loaded : LoadedEdges) (ms : List Meeting) :
    ((returned loaded ms).map (Meeting.relationshipId loaded)).Nodup := by
  have distinct := @nodup_firstBy _ _ _ (Meeting.relationshipId loaded) [] List.nodup_nil ms
  rwa [List.nil_append] at distinct

/-- Some relationship is left out exactly when there are more than the limit. -/
theorem leftOut_iff (loads : loaded.Loads options package.relationships)
    {t : Traversal} (h : Collected loaded options limit catalog (meetings loaded options) t) :
    (∃ relationship direction u d, WithinReach package options relationship direction u d ∧
        relationship.edge.relationshipId ∉ t.edges.map TraversalEdge.relationshipId) ↔
      limit < (returned loaded (meetings loaded options)).length := by
  have ids : t.edges.map TraversalEdge.relationshipId =
      ((returned loaded (meetings loaded options)).take limit).map (Meeting.relationshipId loaded) := by
    rw [h.edges, List.map_map]
    rfl
  rw [ids]
  constructor
  · rintro ⟨relationship, direction, u, d, reach, left⟩
    by_contra all
    obtain ⟨-, -, m, met, same, -⟩ := (withinReach_iff loads).mp reach
    rw [List.take_of_length_le (not_lt.mp all), mem_returned_ids, ← same] at left
    exact left (List.mem_map_of_mem met)
  · intro more
    -- the first edge past the limit
    let m := (returned loaded (meetings loaded options))[limit]
    have mem : m ∈ (returned loaded (meetings loaded options)).drop limit :=
      List.mem_drop_iff_getElem.mpr ⟨0, by simpa using more, by simp [m]⟩
    obtain ⟨relationship, same, reach⟩ := withinReach_of_met loads
      ((sublist_firstBy _ _ _).subset (List.mem_of_mem_drop mem))
    refine ⟨relationship, _, _, _, reach, fun early => ?_⟩
    have distinct := nodup_returned_ids loaded (meetings loaded options)
    rw [← List.take_append_drop limit (returned loaded (meetings loaded options)), List.map_append,
      List.nodup_append] at distinct
    rw [← same] at early
    exact distinct.2.2 _ early _ (List.mem_map_of_mem mem) rfl

/-- The flag is right unless the last meeting is a repeat at the limit. -/
theorem hit_iff {t : Traversal} {ms : List Meeting}
    (h : Collected loaded options limit catalog ms t) :
    (t.limitHit = true ↔ limit < (returned loaded ms).length) ↔
      ¬ ((returned loaded ms).length = limit ∧ ∃ early last, ms = early ++ [last] ∧
        last.relationshipId loaded ∈ early.map (Meeting.relationshipId loaded)) := by
  rw [h.hit]
  rcases List.eq_nil_or_concat ms with rfl | ⟨early, last, rfl⟩
  · simp [returned]
  · have only : (∃ e l, early ++ [last] = e ++ [l] ∧ limit ≤ (returned loaded e).length) ↔
        limit ≤ (returned loaded early).length := by
      constructor
      · rintro ⟨e, l, same, used⟩
        rw [(List.append_inj' same rfl).1]
        exact used
      · intro used
        exact ⟨early, last, rfl, used⟩
    have repeats : (∃ e l, early ++ [last] = e ++ [l] ∧
          l.relationshipId loaded ∈ e.map (Meeting.relationshipId loaded)) ↔
        last.relationshipId loaded ∈ early.map (Meeting.relationshipId loaded) := by
      constructor
      · rintro ⟨e, l, same, repeated⟩
        obtain ⟨rfl, isLast⟩ := List.append_inj' same rfl
        cases isLast
        exact repeated
      · intro repeated
        exact ⟨early, last, rfl, repeated⟩
    have concat : returned loaded (early ++ [last]) =
        if last.relationshipId loaded ∈ early.map (Meeting.relationshipId loaded) then
          returned loaded early
        else returned loaded early ++ [last] := by
      refine (firstBy_concat early last).trans (if_congr ?_ rfl rfl)
      rw [List.nil_append]
      exact mem_returned_ids
    rw [List.concat_eq_append, only, repeats, concat]
    split
    · next repeated =>
      -- a repeat adds nothing, and the limit is tested before it
      constructor
      · rintro flag ⟨full, -⟩
        exact absurd (flag.mp full.ge) (not_lt.mpr full.le)
      · intro apart
        refine ⟨fun used => lt_of_le_of_ne used fun full => apart ⟨full.symm, repeated⟩, le_of_lt⟩
    · next new =>
      rw [List.length_append, List.length_singleton, Nat.lt_succ_iff]
      exact iff_of_true Iff.rfl fun h => new h.2

/-- Without a limit hit the result is all that is within reach. -/
theorem exactTraversal_of_going (loads : loaded.Loads options package.relationships)
    {result : TraversalResult} {t : Traversal} (depth : 0 ≤ options.maxDepth)
    (h : Emitted loaded options (buildObjectCatalog package) (meetings loaded options) t)
    (nodes : result.nodes = t.nodes) (edges : result.edges = t.edges) :
    ExactTraversal package options result := by
  have indexed := loads.indexed
  have leads := map_neighborId_meetingsAt loaded options
  have adjacent : (fun u v => v ∈ neighbors loaded options u) = Related package.relationships options := by
    rw [← adjacent_eq loads]
    funext u v
    exact propext (mem_neighbors indexed)
  have layered : result.nodes = (List.range (options.maxDepth.toNat + 1)).flatMap fun j =>
      (layer (neighbors loaded options) options.startId j).map
        ((buildObjectCatalog package).pathNode · j) := by
    rw [nodes, h.nodes]
    exact noted_depths leads (depth_meetingsAt indexed) (buildObjectCatalog package).pathNode _
  have ids : result.edges.map TraversalEdge.relationshipId =
      (returned loaded (meetings loaded options)).map (Meeting.relationshipId loaded) := by
    rw [edges, h.edges, List.map_map]
    rfl
  refine ⟨fun id d => ?_, ?_, fun node mem => ?_, fun relationship direction u d reach => ?_, ?_,
    fun step mem => ?_⟩
  · rw [layered, ← adjacent, ← mem_layer, ← Int.le_toNat depth, ← Nat.lt_succ_iff]
    constructor
    · rintro ⟨node, mem, rfl, rfl⟩
      obtain ⟨j, within, mem⟩ := List.mem_flatMap.mp mem
      obtain ⟨u, atJ, rfl⟩ := List.mem_map.mp mem
      exact ⟨List.mem_range.mp within, atJ⟩
    · rintro ⟨within, atD⟩
      exact ⟨_, List.mem_flatMap.mpr ⟨d, List.mem_range.mpr within, List.mem_map_of_mem atD⟩, rfl, rfl⟩
  · have sameIds : result.nodes.map TraversalNode.objectId =
        (List.range (options.maxDepth.toNat + 1)).flatMap
          (layer (neighbors loaded options) options.startId) := by
      rw [layered, List.map_flatMap]
      simp only [List.map_map]
      refine List.flatMap_congr fun j _ => ?_
      exact List.map_id'' (fun _ => rfl) _
    rw [sameIds, ← nearer_eq]
    exact nodup_layers _
  · rw [layered] at mem
    obtain ⟨j, -, mem⟩ := List.mem_flatMap.mp mem
    obtain ⟨u, -, rfl⟩ := List.mem_map.mp mem
    rfl
  · obtain ⟨-, -, m, met, same, -⟩ := (withinReach_iff loads).mp reach
    have mem : relationship.edge.relationshipId ∈ result.edges.map TraversalEdge.relationshipId := by
      rw [ids, mem_returned_ids, ← same]
      exact List.mem_map_of_mem met
    obtain ⟨step, mem, isId⟩ := List.mem_map.mp mem
    exact ⟨step, mem, isId⟩
  · rw [ids]
    exact nodup_returned_ids loaded _
  · rw [edges, h.edges] at mem
    obtain ⟨m, kept, rfl⟩ := List.mem_map.mp mem
    obtain ⟨relationship, same, reach⟩ :=
      withinReach_of_met loads ((sublist_firstBy _ _ _).subset kept)
    refine ⟨relationship, m.objectId, m.depth, reach, ?_, fun direction u' d' reach' => ?_⟩
    · rw [← same]
      rfl
    · -- the edge is met at its other end too, and the nearer end comes first
      obtain ⟨-, -, m', met, same', -, -, rfl⟩ := (withinReach_iff loads).mp reach'
      have sameId : m'.relationshipId loaded = m.relationshipId loaded := by
        rw [Meeting.relationshipId, same', ← same]
        rfl
      rcases firstBy_first (entriesBefore_ordered (depth_meetingsAt indexed) _) kept met sameId with
        rfl | le
      · exact le_rfl
      · exact le

/-- A query that is not refused returns what the traversal comes to. -/
theorem traverseRelationships_answered {options : TraversalOptions} {limit : Nat}
    (answered : (traverseRelationships package options limit).errorMessage = "") :
    let result := traverseRelationships package options limit
    let t := traverse (loadRelationshipEdges package options) options limit (buildObjectCatalog package)
    result.nodes = t.nodes ∧ result.edges = t.edges ∧ result.limitApplied = t.limitHit := by
  unfold traverseRelationships at answered ⊢
  simp only at answered ⊢
  split
  · next missing =>
    rw [if_pos missing] at answered
    have impossible : "start_id is required for traversal" = "" := answered
    exact absurd impossible (by decide)
  · next started =>
    rw [if_neg started] at answered
    split
    · next twoWindows =>
      rw [if_pos twoWindows] at answered
      have impossible : "cannot specify both --at-us and --start-us/--end-us" = "" := answered
      exact absurd impossible (by decide)
    · next window =>
      rw [if_neg window] at answered
      split
      · next failed =>
        rw [if_pos failed] at answered
        exact absurd answered failed
      · exact ⟨rfl, rfl, rfl⟩

/-- A traversal keeps its account exactly when the depth is not negative and the
limit is not the number of the relationships within reach with the last of them
met again at its other end. -/
theorem traversal_exact_iff (package : Package) (options : TraversalOptions) (limit : Nat)
    (named : ∀ relationship ∈ package.relationships, relationship.edge.relationshipId ≠ "")
    (distinct : (package.relationships.map fun r => r.edge.relationshipId).Nodup)
    (answered : (traverseRelationships package options limit).errorMessage = "") :
    TraversalAccount package options (traverseRelationships package options limit) ↔
      0 ≤ options.maxDepth ∧ ¬ EndsOnRepeat package options limit := by
  have loads := loads_loadRelationshipEdges package options
  have identified := identified_of_loads loads named distinct
  have collected := @collected_traverse _ options (buildObjectCatalog package) limit loads.indexed
    identified
  obtain ⟨nodes, edges, limitApplied⟩ := traverseRelationships_answered answered
  have leftOut := leftOut_iff loads collected
  rw [← edges] at leftOut
  have flag := hit_iff collected
  rw [← limitApplied, ← leftOut] at flag
  constructor
  · intro account
    refine ⟨?_, flag.mp account.limitApplied⟩
    by_contra negative
    -- nothing is met, and still the start is returned
    have noDepth : options.maxDepth.toNat = 0 := Int.toNat_of_nonpos (not_le.mp negative).le
    have nothing : meetings (loadRelationshipEdges package options) options = [] := by
      rw [meetings, noDepth]
      rfl
    have free : (traverseRelationships package options limit).limitApplied = false := by
      rw [limitApplied, Bool.eq_false_iff, ne_eq, collected.hit, nothing]
      rintro ⟨early, last, impossible, -⟩
      exact absurd impossible.symm (List.append_ne_nil_of_right_ne_nil _ (List.cons_ne_nil _ _))
    obtain ⟨emitted, -⟩ := collected.going (limitApplied ▸ free)
    refine negative (((account.exact free).nodes options.startId 0).mp
      ⟨(buildObjectCatalog package).pathNode options.startId 0, ?_, rfl, rfl⟩).1
    rw [nodes, emitted.nodes]
    exact List.mem_cons_self
  · rintro ⟨depth, apart⟩
    refine ⟨fun free => ?_, flag.mpr apart⟩
    obtain ⟨emitted, -⟩ := collected.going (limitApplied ▸ free)
    exact exactTraversal_of_going loads depth emitted nodes edges

/-- One relationship, from a to b. -/
def onePackage : Package where
  readJsonlEntry _ :=
    { present := true
      readable := true
      records := [.object [("id", .string "r"), ("source_id", .string "a"),
        ("target_id", .string "b"), ("type", .string "near")]] }
  index := none

theorem traversal_exact_iff_one :
    TraversalAccount onePackage { startId := "a", targetId := "" }
      (traverseRelationships onePackage { startId := "a", targetId := "" } 2) ↔
        (0 : Int) ≤ 2 ∧ ¬ EndsOnRepeat onePackage { startId := "a", targetId := "" } 2 :=
  traversal_exact_iff onePackage { startId := "a", targetId := "" } 2 (by decide) (by decide) (by decide)

/-- With a limit of one the only relationship is returned, and met again at b. -/
theorem limit_applied_to_nothing :
    ¬ TraversalAccount onePackage { startId := "a", targetId := "" }
      (traverseRelationships onePackage { startId := "a", targetId := "" } 1) := by
  intro account
  have applied : (traverseRelationships onePackage
      { startId := "a", targetId := "" } 1).limitApplied = true := by decide
  have returned : ∀ relationship ∈ onePackage.relationships, relationship.edge.relationshipId ∈
      (traverseRelationships onePackage { startId := "a", targetId := "" } 1).edges.map
        TraversalEdge.relationshipId := by decide
  obtain ⟨relationship, direction, u, d, reach, left⟩ := account.limitApplied.mp applied
  exact left (returned relationship reach.mem)

end Account

end Svp.Query
