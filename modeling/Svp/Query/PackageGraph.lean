import Svp.Exec.Json

/-!
# The graph a query reads from a package

A package has its relationships twice: as a JSONL file, and as a table of the
index when there is one. `loadRelationshipEdges` reads the table, or the file
when the table cannot be read, and keeps the relationships that meet the filters
of the query, with the indices of the edges out of and into every node. The
objects they relate are found by their ids in `ObjectCatalog`.

The edges are the relationships that qualify, in order, and the nodes list
exactly the edges at them (`loads_loadRelationshipEdges`).
-/

namespace Svp.Query

open Exec (Json)

/-! ## Reading JSON -/

def jsonFind (record : Json) (key : String) : Option Json :=
  match record with
  | .object fields => fields.lookup key
  | _ => none

def jsonStringVal (record : Json) (key : String) : String :=
  match jsonFind record key with
  | some (.string text) => text
  | _ => ""

/-- `get<std::int64_t>` keeps the low 64 bits of an integer. -/
def jsonIntVal (record : Json) (key : String) : Int :=
  match jsonFind record key with
  | some (.integer value) => value.bmod (2 ^ 64)
  | _ => 0

/-! ## Classes of relationships -/

inductive RelationshipClass
  | support
  | semantic
  | unknown
deriving DecidableEq

def relationshipClassToString : RelationshipClass → String
  | .support => "support"
  | .semantic => "semantic"
  | .unknown => "unknown"

def kSupportTypes : List String :=
  ["word_spoken_by", "word_in_speaker_segment", "embedding_source_is", "observation_in_region",
    "color_observation_of", "depth_for_frame", "numeric_value_from_observation",
    "appears_in_frame", "region_in_frame", "has_mask", "track_observation", "has_evidence_crop",
    "text_region_overlaps_entity", "frame_in_shot", "frame_in_scene"]

def kSemanticTypes : List String :=
  ["appears_in_shot", "appears_in_scene", "visible_during_speech", "visible_during_word_range",
    "overlaps", "near", "contains", "contained_by", "enters_frame", "exits_frame", "occludes",
    "occluded_by", "moves_with", "stationary_relative_to_camera", "foreground_relative_to",
    "background_relative_to", "speaker_active_during_entity_visible"]

def classifyRelationshipType (type : String) : RelationshipClass :=
  if kSupportTypes.contains type then .support
  else if kSemanticTypes.contains type then .semantic
  else .unknown

def classMatches (edgeClass classFilter : String) : Bool :=
  if classFilter == "all" || classFilter == "" then true else edgeClass == classFilter

/-! ## Time windows -/

structure TimeWindow where
  atUs : Option Int := none
  startUs : Option Int := none
  endUs : Option Int := none

namespace TimeWindow

def active (window : TimeWindow) : Bool :=
  window.atUs.isSome || window.startUs.isSome || window.endUs.isSome

def kInt64Max : Int := 2 ^ 63 - 1

def «matches» (window : TimeWindow) (relStart relEnd : Int) : Bool :=
  if !window.active then true
  else
    match window.atUs with
    | some t => if relStart = relEnd then relStart = t else t ≥ relStart && t < relEnd
    | none =>
      let winStart := window.startUs.getD 0
      let winEnd := window.endUs.getD kInt64Max
      if relStart = relEnd then relStart ≥ winStart && relStart < winEnd
      else relStart < winEnd && winStart < relEnd

end TimeWindow

/-! ## The graph -/

inductive TraversalDirection
  | outgoing
  | incoming
  | both
deriving DecidableEq

structure TraversalOptions where
  startId : String
  targetId : String
  maxDepth : Int := 2
  direction : TraversalDirection := .both
  classFilter : String := "all"
  typeFilter : Option String := none
  timeWindow : TimeWindow := {}

structure GraphEdge where
  relationshipId : String
  relationshipType : String
  relationshipClass : String
  sourceId : String
  targetId : String
  record : Json

/-- Indices of the edges out of a node and into it. -/
structure GraphNode where
  outgoing : List Nat := []
  incoming : List Nat := []

structure LoadedEdges where
  edges : List GraphEdge := []
  nodes : String → Option GraphNode := fun _ => none
  errorMessage : String := ""

/-- A relationship before it is filtered. -/
structure Relationship where
  edge : GraphEdge
  startUs : Int
  endUs : Int

/-- A row of the index; a column is none where it is NULL. -/
structure RelationshipRow where
  relationshipId : Option String
  relationshipType : Option String
  relationshipClass : Option String
  sourceId : Option String
  targetId : Option String
  startUs : Int
  endUs : Int
  confidence : UInt64

/-- What `read_jsonl_entry` returns. -/
structure JsonlReadResult where
  present : Bool := false
  readable : Bool := false
  hasMalformed : Bool := false
  errorMessage : String := ""
  records : List Json := []

/-- What queries read of a package: its JSONL entries, and the rows of the index
when the package has one, or why they cannot be read. -/
structure Package where
  readJsonlEntry : String → JsonlReadResult
  index : Option (Except String (List RelationshipRow))

def jsonlRelationship (record : Json) : Relationship where
  edge :=
    { relationshipId := jsonStringVal record "id"
      relationshipType := jsonStringVal record "type"
      relationshipClass :=
        relationshipClassToString (classifyRelationshipType (jsonStringVal record "type"))
      sourceId := jsonStringVal record "source_id"
      targetId := jsonStringVal record "target_id"
      record }
  startUs := jsonIntVal record "start_us"
  endUs := jsonIntVal record "end_us"

/-- Rows without both ends are passed over, like those with an empty one. -/
def rowRelationship (row : RelationshipRow) : Relationship where
  edge :=
    { relationshipId := row.relationshipId.getD ""
      relationshipType := row.relationshipType.getD ""
      relationshipClass := row.relationshipClass.getD "unknown"
      sourceId := row.sourceId.getD ""
      targetId := row.targetId.getD ""
      record := .object [("confidence", .float row.confidence), ("end_us", .integer row.endUs),
        ("id", .string (row.relationshipId.getD "")), ("source_id", .string (row.sourceId.getD "")),
        ("start_us", .integer row.startUs), ("target_id", .string (row.targetId.getD "")),
        ("type", .string (row.relationshipType.getD ""))] }
  startUs := row.startUs
  endUs := row.endUs

/-- The relationship has both ends and meets the filters of the query. -/
def Qualifies (options : TraversalOptions) (relationship : Relationship) : Bool :=
  relationship.edge.sourceId != "" && relationship.edge.targetId != "" &&
    classMatches relationship.edge.relationshipClass options.classFilter &&
    (match options.typeFilter with
      | none => true
      | some type => relationship.edge.relationshipType == type) &&
    (!options.timeWindow.active ||
      options.timeWindow.matches relationship.startUs relationship.endUs)

namespace LoadedEdges

/-- Applies `f` to a node, made first when it is new. -/
def modifyNode (nodes : String → Option GraphNode) (id : String) (f : GraphNode → GraphNode) :
    String → Option GraphNode :=
  Function.update nodes id (some (f ((nodes id).getD {})))

def addEdge (loaded : LoadedEdges) (edge : GraphEdge) : LoadedEdges :=
  let edgeIdx := loaded.edges.length
  { loaded with
    edges := loaded.edges ++ [edge]
    nodes := modifyNode
      (modifyNode loaded.nodes edge.sourceId fun node =>
        { node with outgoing := node.outgoing ++ [edgeIdx] })
      edge.targetId fun node => { node with incoming := node.incoming ++ [edgeIdx] } }

/-- Adds the relationship if the query asks for it. -/
def addRelationship (options : TraversalOptions) (loaded : LoadedEdges)
    (relationship : Relationship) : LoadedEdges :=
  if Qualifies options relationship then loaded.addEdge relationship.edge else loaded

end LoadedEdges

def loadEdgesFromSqlite (rows : Except String (List RelationshipRow)) (options : TraversalOptions) :
    LoadedEdges :=
  match rows with
  | .error message => { errorMessage := message }
  | .ok rows => (rows.map rowRelationship).foldl (LoadedEdges.addRelationship options) {}

def loadEdgesFromJsonl (jsonl : JsonlReadResult) (options : TraversalOptions) : LoadedEdges :=
  if !jsonl.present then { errorMessage := "relationships file not present" }
  else if !jsonl.readable || jsonl.hasMalformed then { errorMessage := jsonl.errorMessage }
  else (jsonl.records.map jsonlRelationship).foldl (LoadedEdges.addRelationship options) {}

def loadRelationshipEdges (package : Package) (options : TraversalOptions) : LoadedEdges :=
  let fromJsonl :=
    loadEdgesFromJsonl (package.readJsonlEntry "relationships/relationships.jsonl") options
  match package.index with
  | none => fromJsonl
  | some rows =>
    let fromSqlite := loadEdgesFromSqlite rows options
    if fromSqlite.errorMessage = "" then fromSqlite else fromJsonl

/-! ## What is loaded -/

/-- The relationships a query reads, before it filters them. -/
def Package.relationships (package : Package) : List Relationship :=
  let fromJsonl :=
    let jsonl := package.readJsonlEntry "relationships/relationships.jsonl"
    if jsonl.present && jsonl.readable && !jsonl.hasMalformed then jsonl.records.map jsonlRelationship
    else []
  match package.index with
  | none => fromJsonl
  | some (.error message) => if message = "" then [] else fromJsonl
  | some (.ok rows) => rows.map rowRelationship

namespace LoadedEdges

/-- The nodes list exactly the edges at them. -/
structure Indexed (loaded : LoadedEdges) : Prop where
  outgoing : ∀ id idx, idx ∈ ((loaded.nodes id).getD {}).outgoing ↔
    ∃ edge, loaded.edges[idx]? = some edge ∧ edge.sourceId = id
  incoming : ∀ id idx, idx ∈ ((loaded.nodes id).getD {}).incoming ↔
    ∃ edge, loaded.edges[idx]? = some edge ∧ edge.targetId = id

theorem indexed_empty (message : String) : Indexed { errorMessage := message } :=
  ⟨fun _ _ => by simp, fun _ _ => by simp⟩

theorem getD_modifyNode (nodes : String → Option GraphNode) (id : String)
    (f : GraphNode → GraphNode) (other : String) :
    (modifyNode nodes id f other).getD {} =
      if other = id then f ((nodes id).getD {}) else (nodes other).getD {} := by
  rw [modifyNode, Function.update_apply]
  split <;> rfl

/-- The edges at a node, one edge later. -/
theorem getElem?_append_edge {edges : List GraphEdge} {edge : GraphEdge} {idx : Nat}
    {P : GraphEdge → Prop} :
    (∃ e, (edges ++ [edge])[idx]? = some e ∧ P e) ↔
      (∃ e, edges[idx]? = some e ∧ P e) ∨ idx = edges.length ∧ P edge := by
  constructor
  · rintro ⟨e, found, holds⟩
    rcases lt_or_ge idx edges.length with lt | ge
    · rw [List.getElem?_append_left lt] at found
      exact .inl ⟨e, found, holds⟩
    · rw [List.getElem?_append_right ge, List.getElem?_singleton] at found
      split at found
      · next zero =>
        cases found
        exact .inr ⟨le_antisymm (Nat.sub_eq_zero_iff_le.mp zero) ge, holds⟩
      · cases found
  · rintro (⟨e, found, holds⟩ | ⟨rfl, holds⟩)
    · have lt := (List.getElem?_eq_some_iff.mp found).1
      exact ⟨e, by rw [List.getElem?_append_left lt, found], holds⟩
    · exact ⟨edge, by simp, holds⟩

theorem Indexed.addEdge {loaded : LoadedEdges} (h : loaded.Indexed) (edge : GraphEdge) :
    (loaded.addEdge edge).Indexed := by
  constructor
  · intro id idx
    have outgoing : (((loaded.addEdge edge).nodes id).getD {}).outgoing =
        ((loaded.nodes id).getD {}).outgoing ++
          if id = edge.sourceId then [loaded.edges.length] else [] := by
      simp only [LoadedEdges.addEdge, getD_modifyNode]
      split_ifs with atTarget atSource source <;> simp_all
    have edges : (loaded.addEdge edge).edges = loaded.edges ++ [edge] := rfl
    rw [outgoing, edges, getElem?_append_edge, List.mem_append, h.outgoing]
    refine or_congr_right ?_
    split
    · next same => simp [same]
    · next other => simp [Ne.symm other]
  · intro id idx
    have incoming : (((loaded.addEdge edge).nodes id).getD {}).incoming =
        ((loaded.nodes id).getD {}).incoming ++
          if id = edge.targetId then [loaded.edges.length] else [] := by
      simp only [LoadedEdges.addEdge, getD_modifyNode]
      split_ifs with atTarget atSource source <;> simp_all
    have edges : (loaded.addEdge edge).edges = loaded.edges ++ [edge] := rfl
    rw [incoming, edges, getElem?_append_edge, List.mem_append, h.incoming]
    refine or_congr_right ?_
    split
    · next same => simp [same]
    · next other => simp [Ne.symm other]

/-- The edges that qualify are added in order. -/
theorem foldl_addRelationship (options : TraversalOptions) (relationships : List Relationship)
    {loaded : LoadedEdges} (h : loaded.Indexed) :
    let after := relationships.foldl (addRelationship options) loaded
    after.Indexed ∧ after.errorMessage = loaded.errorMessage ∧
      after.edges = loaded.edges ++
        (relationships.filter (Qualifies options)).map Relationship.edge := by
  induction relationships generalizing loaded with
  | nil => exact ⟨h, rfl, (List.append_nil _).symm⟩
  | cons relationship rest ih =>
    simp only [List.foldl_cons]
    unfold addRelationship
    split
    · next qualifies =>
      obtain ⟨indexed, message, edges⟩ := ih (h.addEdge relationship.edge)
      refine ⟨indexed, message, edges.trans ?_⟩
      rw [List.filter_cons_of_pos qualifies, List.map_cons]
      exact List.append_assoc _ _ _
    · next rejected =>
      rw [List.filter_cons_of_neg rejected]
      exact ih h

end LoadedEdges

/-- What is loaded from one source. -/
structure LoadedEdges.Loads (loaded : LoadedEdges) (options : TraversalOptions)
    (relationships : List Relationship) : Prop where
  indexed : loaded.Indexed
  edges : loaded.edges = (relationships.filter (Qualifies options)).map Relationship.edge

theorem loads_foldl (options : TraversalOptions) (relationships : List Relationship) :
    let loaded := relationships.foldl (LoadedEdges.addRelationship options) {}
    loaded.Loads options relationships ∧ loaded.errorMessage = "" := by
  obtain ⟨indexed, message, edges⟩ :=
    LoadedEdges.foldl_addRelationship options relationships (LoadedEdges.indexed_empty "")
  exact ⟨⟨indexed, edges.trans (List.nil_append _)⟩, message⟩

theorem loads_nothing (message : String) (options : TraversalOptions) :
    LoadedEdges.Loads { errorMessage := message } options [] :=
  ⟨LoadedEdges.indexed_empty message, rfl⟩

theorem loads_loadEdgesFromJsonl (jsonl : JsonlReadResult) (options : TraversalOptions) :
    (loadEdgesFromJsonl jsonl options).Loads options
      (if jsonl.present && jsonl.readable && !jsonl.hasMalformed then
        jsonl.records.map jsonlRelationship else []) := by
  unfold loadEdgesFromJsonl
  cases jsonl.present with
  | false => exact loads_nothing _ _
  | true =>
    cases jsonl.readable with
    | false => exact loads_nothing _ _
    | true =>
      cases jsonl.hasMalformed with
      | true => exact loads_nothing _ _
      | false => exact (loads_foldl options _).1

/-- The edges are the relationships that qualify, in order. -/
theorem loads_loadRelationshipEdges (package : Package) (options : TraversalOptions) :
    (loadRelationshipEdges package options).Loads options package.relationships := by
  have jsonl := loads_loadEdgesFromJsonl
    (package.readJsonlEntry "relationships/relationships.jsonl") options
  unfold loadRelationshipEdges Package.relationships
  cases package.index with
  | none => exact jsonl
  | some rows =>
    simp only
    split
    · next silent =>
      cases rows with
      | error message =>
        have silent : message = "" := silent
        simp only [if_pos silent]
        exact loads_nothing message options
      | ok rows => exact (loads_foldl options (rows.map rowRelationship)).1
    · next failed =>
      cases rows with
      | error message =>
        have failed : message ≠ "" := failed
        simp only [if_neg failed]
        exact jsonl
      | ok rows => exact absurd (loads_foldl options (rows.map rowRelationship)).2 failed

/-! ## The objects -/

structure CatalogEntry where
  objectId : String
  sourceLayer : String
  record : Json

/-- The layers of a package with the fields an object's id may stand in. -/
def kCatalogLayers : List (String × List String) :=
  [("transcript/words.jsonl", ["id", "word_id"]),
    ("transcript/speakers.jsonl", ["id", "speaker_id"]),
    ("transcript/speaker_segments.jsonl", ["segment_id", "id"]),
    ("text/text_regions.jsonl", ["text_region_id", "id"]),
    ("text/text_observations.jsonl", ["text_observation_id", "id"]),
    ("text/numeric_values.jsonl", ["numeric_value_id", "id"]),
    ("text/evidence_crops.jsonl", ["crop_id", "id"]),
    ("colors/color_observations.jsonl", ["color_observation_id", "id"]),
    ("timeline/frames.jsonl", ["id", "frame_id"]),
    ("timeline/shots.jsonl", ["id", "shot_id"]),
    ("timeline/scenes.jsonl", ["id", "scene_id"]),
    ("entities/entities.jsonl", ["id", "entity_id"]),
    ("entities/entity_tracks.jsonl", ["id", "track_id"]),
    ("spatial/regions.jsonl", ["region_id", "id"]),
    ("spatial/masks.index.jsonl", ["mask_id", "block_id", "id"]),
    ("spatial/depth.index.jsonl", ["depth_frame_id", "block_id", "id"]),
    ("embeddings/embeddings.index.jsonl", ["id", "embedding_id", "embedding_set_id"])]

/-- The first of the fields that holds a text; empty when none does. -/
def extractId (record : Json) (idFields : List String) : String :=
  ((idFields.map (jsonStringVal record)).find? (· != "")).getD ""

/-- For each layer, the kind of its objects and the fields their summary copies. -/
def kSummaries : List (String × String × List String) :=
  [("transcript/words.jsonl", "word", ["text", "start_us", "end_us", "speaker_id"]),
    ("transcript/speakers.jsonl", "speaker", ["display_name", "total_speech_us"]),
    ("transcript/speaker_segments.jsonl", "speaker_segment", ["speaker_id", "start_us", "end_us"]),
    ("text/text_regions.jsonl", "text_region",
      ["observation_type", "start_us", "end_us", "shot_id"]),
    ("text/text_observations.jsonl", "text_observation",
      ["raw_text", "normalized_text", "confidence", "text_region_id"]),
    ("text/numeric_values.jsonl", "numeric_value",
      ["raw_text", "numeric_value", "unit", "number_kind"]),
    ("text/evidence_crops.jsonl", "evidence_crop",
      ["crop_file_path", "crop_size_bytes", "image_format"]),
    ("colors/color_observations.jsonl", "color_observation",
      ["dominant_bucket", "target_type", "target_id", "coverage_total"]),
    ("timeline/frames.jsonl", "frame", ["pts_us", "shot_id"]),
    ("timeline/shots.jsonl", "shot", ["start_us", "end_us"]),
    ("timeline/scenes.jsonl", "scene", ["start_us", "end_us"]),
    ("entities/entities.jsonl", "entity", ["entity_type", "label"]),
    ("entities/entity_tracks.jsonl", "entity_track", ["entity_id", "start_us", "end_us"]),
    ("spatial/regions.jsonl", "region", ["frame_id"]),
    ("spatial/masks.index.jsonl", "mask", ["block_path", "block_size_bytes", "frame_id"]),
    ("spatial/depth.index.jsonl", "depth", ["block_path", "block_size_bytes", "frame_id"]),
    ("embeddings/embeddings.index.jsonl", "embedding",
      ["embedding_set_id", "source_type", "source_id", "block_path", "block_size_bytes"])]

/-- The kind and the fields the record has of those asked for, in key order. -/
def makeSummary (kind : String) (fields : List String) (record : Json) : Json :=
  let copied := fields.filterMap fun field => (jsonFind record field).map fun value => (field, value)
  .object ((("kind", .string kind) :: copied).mergeSort fun a b => a.1 ≤ b.1)

def makeSummaryForLayer (sourceLayer : String) (record : Json) : Json :=
  match kSummaries.lookup sourceLayer with
  | some (kind, fields) => makeSummary kind fields record
  | none => makeSummary "unknown" [] record

structure ObjectCatalog where
  entries : String → Option CatalogEntry

namespace ObjectCatalog

def find (catalog : ObjectCatalog) (objectId : String) : Option CatalogEntry :=
  catalog.entries objectId

def nodeSummary (catalog : ObjectCatalog) (objectId : String) : Json :=
  match catalog.find objectId with
  | none => .null
  | some entry => makeSummaryForLayer entry.sourceLayer entry.record

def addRecord (sourceLayer : String) (idFields : List String) (catalog : ObjectCatalog)
    (record : Json) : ObjectCatalog :=
  let id := extractId record idFields
  if id = "" then catalog
  else ⟨Function.update catalog.entries id (some { objectId := id, sourceLayer, record })⟩

end ObjectCatalog

def buildObjectCatalog (package : Package) : ObjectCatalog :=
  kCatalogLayers.foldl (fun catalog layer =>
    let jsonl := package.readJsonlEntry layer.1
    if jsonl.readable then jsonl.records.foldl (ObjectCatalog.addRecord layer.1 layer.2) catalog
    else catalog) ⟨fun _ => none⟩

end Svp.Query
