import Svp.Builder.StagingScope
import Svp.Builder.StagingTree

/-!
# Capturing and restoring a staging scope

`captureStagingScope` lists what a scope covers; `restoreStagingScope` removes from
a tree what the scope covers and the capture does not list, files first and then
directories from the deepest up, and creates what it lists.

Restoring gives back the capture and leaves everything outside the scope alone but
for directories above captured entries, and it fails exactly where a file outside
the scope stands at the path of a directory it needs (`restore_capture`).
-/

namespace Svp.Builder

open Exec (Bytes)
open scoped Lib.ByteStrings

/-! ## The code -/

inductive StagedEntryKind
  | file
  | directory
deriving DecidableEq

/-- One captured staging entry. -/
structure StagedEntry where
  relativePath : EntryName
  kind : StagedEntryKind := .file
  bytes : Bytes := []
deriving DecidableEq

/-- The exceptions of a restore: of `fs::create_directories`, "cannot write staging
file: …", "captured staging entry outside its task's scope: …". -/
inductive StagingError
  | notADirectory (path : EntryName)
  | cannotWrite (path : EntryName)
  | outsideScope (path : EntryName)
deriving DecidableEq

/-- Every entry, sorted by path. -/
def listStagingEntries (tree : StagingTree) : List EntryName := tree.entries.entries.map Prod.fst

def readFileBytes (tree : StagingTree) (path : EntryName) : Bytes := (tree.find? path).getD []

def capturedEntry (tree : StagingTree) (path : EntryName) : StagedEntry :=
  if path.isDirectory then ⟨path, .directory, []⟩ else ⟨path, .file, readFileBytes tree path⟩

def captureStagingScope (tree : StagingTree) (scope : StagingScope) : List StagedEntry :=
  ((listStagingEntries tree).filter fun path => scopeCovers scope path.bytes).map
    (capturedEntry tree)

/-- What a restore removes; a binary search in the sorted wanted paths is
membership. -/
def isUnwanted (scope : StagingScope) (wanted : List EntryName) (path : EntryName) : Bool :=
  scopeCovers scope path.bytes && !wanted.contains path

def removeFiles (scope : StagingScope) (wanted : List EntryName) (tree : StagingTree)
    (existing : List EntryName) : StagingTree :=
  existing.foldl (fun tree path =>
    if !path.isDirectory && isUnwanted scope wanted path then tree.remove path else tree) tree

def removeDirectories (scope : StagingScope) (wanted : List EntryName) (tree : StagingTree)
    (existing : List EntryName) : StagingTree :=
  existing.foldl (fun tree path =>
    if path.isDirectory && isUnwanted scope wanted path && tree.isEmptyDirectory path then
      tree.remove path
    else tree) tree

/-- The removals of a restore; the directories come in reverse order. -/
def sweep (scope : StagingScope) (wanted : List EntryName) (tree : StagingTree) : StagingTree :=
  removeDirectories scope wanted (removeFiles scope wanted tree (listStagingEntries tree))
    (listStagingEntries tree).reverse

def writeFileBytes (tree : StagingTree) (path : EntryName) (bytes : Bytes) :
    Except StagingError StagingTree :=
  match tree.createDirectories path.parents with
  | none => .error (.notADirectory path)
  | some tree =>
    match tree.put path bytes with
    | none => .error (.cannotWrite path)
    | some tree => .ok tree

def restoreEntry (scope : StagingScope) (tree : StagingTree) (entry : StagedEntry) :
    Except StagingError StagingTree :=
  if !scopeCovers scope entry.relativePath.bytes then .error (.outsideScope entry.relativePath)
  else
    match entry.kind with
    | .directory =>
      match tree.createDirectories (entry.relativePath.parents ++ [entry.relativePath]) with
      | none => .error (.notADirectory entry.relativePath)
      | some tree => .ok tree
    | .file => writeFileBytes tree entry.relativePath entry.bytes

/-- The loop over the entries, up to the first exception. -/
def restoreEntries (scope : StagingScope) : StagingTree → List StagedEntry →
    StagingTree × Option StagingError
  | tree, [] => (tree, none)
  | tree, entry :: rest =>
    match restoreEntry scope tree entry with
    | .ok tree => restoreEntries scope tree rest
    | .error error => (tree, some error)

/-- The tree a restore leaves, and the exception it ends with. -/
def restoreStagingScope (tree : StagingTree) (scope : StagingScope) (entries : List StagedEntry) :
    StagingTree × Option StagingError :=
  restoreEntries scope (sweep scope (entries.map StagedEntry.relativePath) tree) entries

/-! ## What the removals leave -/

section
variable {scope : StagingScope} {wanted : List EntryName}

theorem isUnwanted_iff {path : EntryName} : isUnwanted scope wanted path = true ↔
    scopeCovers scope path.bytes = true ∧ path ∉ wanted := by
  simp [isUnwanted]

/-- A scope covers what is below a directory it covers. -/
theorem scopeCovers_of_parent {path d : EntryName} (above : d ∈ path.parents)
    (covers : scopeCovers scope d.bytes = true) : scopeCovers scope path.bytes = true :=
  scopeCovers_of_prefix covers (EntryName.mem_parents.mp above).2.1

theorem find?_removeFiles (tree : StagingTree) (existing : List EntryName) (path : EntryName) :
    (removeFiles scope wanted tree existing).find? path =
      if path ∈ existing ∧ path.isDirectory = false ∧ isUnwanted scope wanted path = true then none
      else tree.find? path := by
  induction existing generalizing tree with
  | nil => simp [removeFiles]
  | cons first rest ih =>
    rw [removeFiles, List.foldl_cons, ← removeFiles, ih]
    by_cases chosen : (!first.isDirectory && isUnwanted scope wanted first) = true
    · have parts := chosen
      rw [Bool.and_eq_true, Bool.not_eq_true'] at parts
      rw [if_pos chosen, StagingTree.find?_remove (StagingTree.isEmptyDirectory_of_file parts.1)]
      by_cases here : path = first
      · simp [here, parts]
      · simp [here]
    · have other : path = first → ¬(path.isDirectory = false ∧ isUnwanted scope wanted path = true) := by
        rintro rfl
        simpa using chosen
      rw [if_neg chosen]
      by_cases here : path = first
      · simp [other here]
      · simp [here]

/-- Directories come from the deepest up, so that each is empty at its turn: what is
below an unwanted directory is unwanted. -/
theorem find?_removeDirectories
    (closed : ∀ path ∈ wanted, ∀ d ∈ path.parents, scopeCovers scope d.bytes = true → d ∈ wanted)
    {tree : StagingTree} {existing : List EntryName} (sorted : existing.Pairwise (· > ·))
    (left : ∀ path, tree.contains path = true → isUnwanted scope wanted path = true →
      path.isDirectory = true ∧ path ∈ existing) (path : EntryName) :
    (removeDirectories scope wanted tree existing).find? path =
      if isUnwanted scope wanted path = true then none else tree.find? path := by
  induction existing generalizing tree with
  | nil =>
    split
    · next unwanted =>
      by_contra held
      exact List.not_mem_nil (left path (Option.isSome_iff_ne_none.mpr held) unwanted).2
    · rfl
  | cons first rest ih =>
    obtain ⟨below, sortedRest⟩ := List.pairwise_cons.mp sorted
    rw [removeDirectories, List.foldl_cons, ← removeDirectories]
    by_cases chosen : first.isDirectory = true ∧ isUnwanted scope wanted first = true
    · have alone : tree.isEmptyDirectory first = true := by
        refine StagingTree.isEmptyDirectory_iff.mpr fun other held above => ?_
        have covers := (isUnwanted_iff.mp chosen.2).1
        have unwanted : isUnwanted scope wanted other = true :=
          isUnwanted_iff.mpr ⟨scopeCovers_of_parent above covers, fun inWanted =>
            (isUnwanted_iff.mp chosen.2).2 (closed other inWanted first above covers)⟩
        have later := EntryName.lt_of_mem_parents above
        rcases List.mem_cons.mp (left other held unwanted).2 with same | inRest
        · exact lt_irrefl first (same ▸ later)
        · exact lt_asymm later (below other inRest)
      have gone := StagingTree.find?_remove alone
      rw [if_pos (by simp [chosen, alone]), ih sortedRest, gone]
      · by_cases here : path = first
        · simp [here, chosen.2]
        · simp [here]
      · intro other held unwanted
        rw [StagingTree.contains, gone] at held
        have differs : other ≠ first := by
          rintro rfl
          simp at held
        rw [if_neg differs] at held
        have kept := left other held unwanted
        exact ⟨kept.1, (List.mem_cons.mp kept.2).resolve_left differs⟩
    · rw [if_neg (by simp only [Bool.and_eq_true]; exact fun both => chosen both.1)]
      refine ih sortedRest fun other held unwanted => ?_
      have kept := left other held unwanted
      refine ⟨kept.1, (List.mem_cons.mp kept.2).resolve_left fun same => ?_⟩
      exact chosen (same ▸ ⟨kept.1, unwanted⟩)

theorem listStagingEntries_sorted (tree : StagingTree) :
    (listStagingEntries tree).Pairwise (· < ·) := tree.entries.sorted

theorem mem_listStagingEntries {tree : StagingTree} {path : EntryName} :
    path ∈ listStagingEntries tree ↔ tree.contains path = true := StagingTree.mem_keys

/-- The removals take away what is covered and not wanted, and nothing else. -/
theorem find?_sweep
    (closed : ∀ path ∈ wanted, ∀ d ∈ path.parents, scopeCovers scope d.bytes = true → d ∈ wanted)
    (tree : StagingTree) (path : EntryName) :
    (sweep scope wanted tree).find? path =
      if isUnwanted scope wanted path = true then none else tree.find? path := by
  have files := @find?_removeFiles scope wanted tree (listStagingEntries tree)
  rw [sweep, find?_removeDirectories closed
    (List.pairwise_reverse.mpr (listStagingEntries_sorted tree)), files]
  · by_cases unwanted : isUnwanted scope wanted path = true
    · simp [unwanted]
    · simp [unwanted]
  · intro other held unwanted
    rw [StagingTree.contains, files] at held
    split at held
    · cases held
    · next kept =>
      have listed := mem_listStagingEntries.mpr held
      refine ⟨?_, List.mem_reverse.mpr listed⟩
      by_contra file
      exact kept ⟨listed, by simpa using file, unwanted⟩

end

/-! ## What the creation adds -/

/-- A tree that holds `source` at the paths of `region` and `base` elsewhere. -/
def Overlaid (source base : StagingTree) (region : Set EntryName) (tree : StagingTree) : Prop :=
  ∀ path, (path ∈ region → tree.find? path = source.find? path) ∧
    (path ∉ region → tree.find? path = base.find? path)

/-- No entry of `base` is in the way of `path`. -/
def InPlace (base : StagingTree) (path : EntryName) : Prop :=
  ∀ other, base.contains other = true → ¬StagingTree.OtherKind path other

section
variable {source base tree : StagingTree} {region : Set EntryName}

theorem Overlaid.clear (overlaid : Overlaid source base region tree)
    (within : ∀ path ∈ region, source.contains path = true) {path : EntryName}
    (held : source.contains path = true) (inPlace : InPlace base path) : InPlace tree path := by
  intro other heldOther otherKind
  by_cases inRegion : other ∈ region
  · have heldSource := within other inRegion
    rcases otherKind with same | same
    · exact source.oneKind other path heldSource held same
    · exact source.oneKind path other held heldSource same
  · rw [StagingTree.contains, (overlaid other).2 inRegion] at heldOther
    exact inPlace other heldOther otherKind

theorem Overlaid.contains (overlaid : Overlaid source base region tree) {path : EntryName}
    (inRegion : path ∈ region) : tree.contains path = source.contains path := by
  rw [StagingTree.contains, (overlaid path).1 inRegion, StagingTree.contains]

/-- One more entry written as `source` holds it. -/
theorem Overlaid.insert {after : StagingTree} (overlaid : Overlaid source base region tree)
    {path : EntryName} (written : after.find? path = source.find? path)
    (others : ∀ other, other ≠ path → after.find? other = tree.find? other) :
    Overlaid source base (Set.insert path region) after := by
  intro other
  by_cases here : other = path
  · exact ⟨fun _ => here ▸ written, fun outside => absurd (.inl here) outside⟩
  · rw [others other here]
    refine ⟨fun inside => (overlaid other).1 (inside.resolve_left here), fun outside => ?_⟩
    exact (overlaid other).2 fun inRegion => outside (.inr inRegion)

theorem createDirectory_overlaid (overlaid : Overlaid source base region tree)
    (within : ∀ path ∈ region, source.contains path = true) {d : EntryName}
    (directory : d.isDirectory = true) (held : source.contains d = true)
    (inPlace : InPlace base d) (rooted : ∀ outer ∈ d.parents, outer ∈ region) :
    ∃ after, tree.createDirectory d = some after ∧
      Overlaid source base (Set.insert d region) after := by
  have empty : source.find? d = some [] := StagingTree.find?_of_directory held directory
  rw [StagingTree.createDirectory]
  split
  · next present =>
    refine ⟨tree, rfl, overlaid.insert ?_ fun _ _ => rfl⟩
    rw [empty, StagingTree.find?_of_directory present directory]
  · obtain ⟨after, done⟩ := StagingTree.exists_put [] (overlaid.clear within held inPlace)
      fun outer above => by rw [overlaid.contains (rooted outer above)]
                            exact source.parents d held outer above
    have found := StagingTree.put_eq_some done
    refine ⟨after, done, overlaid.insert ?_ fun other differs => ?_⟩
    · rw [found, if_pos rfl, ite_self, empty]
    · rw [found, if_neg differs]

/-- Directories created from the outermost in. -/
theorem createDirectories_overlaid {ds : List EntryName} (sorted : ds.Pairwise (· ≤ ·))
    (overlaid : Overlaid source base region tree)
    (within : ∀ path ∈ region, source.contains path = true)
    (each : ∀ d ∈ ds, d.isDirectory = true ∧ source.contains d = true ∧ InPlace base d)
    (rooted : ∀ d ∈ ds, ∀ outer ∈ d.parents, outer ∈ region ∨ outer ∈ ds) :
    ∃ after, tree.createDirectories ds = some after ∧
      Overlaid source base (region ∪ {path | path ∈ ds}) after := by
  induction ds generalizing tree region with
  | nil => exact ⟨tree, rfl, by simpa using overlaid⟩
  | cons d rest ih =>
    obtain ⟨first, sortedRest⟩ := List.pairwise_cons.mp sorted
    obtain ⟨directory, held, inPlace⟩ := each d List.mem_cons_self
    have rootedFirst : ∀ outer ∈ d.parents, outer ∈ region := by
      intro outer above
      have before := EntryName.lt_of_mem_parents above
      rcases rooted d List.mem_cons_self outer above with inRegion | listed
      · exact inRegion
      · rcases List.mem_cons.mp listed with same | later
        · exact absurd before (same ▸ lt_irrefl d)
        · exact absurd before (first outer later).not_gt
    obtain ⟨next, created, overlaidNext⟩ :=
      createDirectory_overlaid overlaid within directory held inPlace rootedFirst
    obtain ⟨after, done, overlaidAfter⟩ := ih sortedRest overlaidNext
      (fun path inside => inside.elim (fun same => same ▸ held) (within path))
      (fun e inRest => each e (List.mem_cons_of_mem d inRest))
      (fun e inRest outer above =>
        (rooted e (List.mem_cons_of_mem d inRest) outer above).elim (fun inRegion => .inl (.inr inRegion))
          fun listed => (List.mem_cons.mp listed).imp (fun same => .inl same) id)
    refine ⟨after, ?_, ?_⟩
    · exact StagingTree.createDirectories_cons.mpr ⟨next, created, done⟩
    · have regions : Set.insert d region ∪ {path | path ∈ rest} =
          region ∪ {path | path ∈ d :: rest} := by
        ext path
        simp only [Set.mem_union, Set.mem_ofPred_eq, List.mem_cons]
        exact ⟨fun inside => inside.elim (fun i => i.elim (fun e => .inr (.inl e)) .inl)
          fun r => .inr (.inr r), fun inside => inside.elim (fun i => .inl (.inr i))
          fun r => r.elim (fun e => .inl (.inl e)) .inr⟩
      exact regions ▸ overlaidAfter

end

/-- An entry and the directories above it. -/
def span (path : EntryName) : Set EntryName := {other | other = path ∨ other ∈ path.parents}

section
variable {scope : StagingScope} {source base tree : StagingTree} {region : Set EntryName}

theorem restoreEntry_overlaid (overlaid : Overlaid source base region tree)
    (within : ∀ path ∈ region, source.contains path = true) {path : EntryName}
    (held : source.contains path = true) (covers : scopeCovers scope path.bytes = true)
    (inPlace : ∀ other ∈ span path, InPlace base other) :
    ∃ after, restoreEntry scope tree (capturedEntry source path) = .ok after ∧
      Overlaid source base (region ∪ span path) after := by
  have above : ∀ d ∈ path.parents,
      d.isDirectory = true ∧ source.contains d = true ∧ InPlace base d := fun d isAbove =>
    ⟨(EntryName.mem_parents.mp isAbove).1, source.parents path held d isAbove,
      inPlace d (.inr isAbove)⟩
  have rooted : ∀ d ∈ path.parents, ∀ outer ∈ d.parents, outer ∈ region ∨ outer ∈ path.parents :=
    fun d isAbove outer isOuter => .inr (EntryName.parents_trans isAbove isOuter)
  by_cases directory : path.isDirectory = true
  · have sorted : (path.parents ++ [path]).Pairwise (· ≤ ·) :=
      List.pairwise_append.mpr ⟨path.parents_sorted, List.pairwise_singleton _ _,
        fun d isAbove last isLast => by
          rw [List.mem_singleton.mp isLast]
          exact (EntryName.lt_of_mem_parents isAbove).le⟩
    obtain ⟨after, done, overlaidAfter⟩ := createDirectories_overlaid sorted overlaid within
      (fun d listed => (List.mem_append.mp listed).elim (above d) fun last => by
        rw [List.mem_singleton.mp last]
        exact ⟨directory, held, inPlace path (.inl rfl)⟩)
      (fun d listed outer isOuter => .inr (List.mem_append_left _
        ((List.mem_append.mp listed).elim (fun isAbove => EntryName.parents_trans isAbove isOuter)
          fun last => List.mem_singleton.mp last ▸ isOuter)))
    have spans : span path = {other | other ∈ path.parents ++ [path]} := by
      ext other
      simp [span, or_comm]
    refine ⟨after, ?_, spans ▸ overlaidAfter⟩
    simp [restoreEntry, capturedEntry, directory, covers, done]
  · obtain ⟨next, done, overlaidNext⟩ :=
      createDirectories_overlaid path.parents_sorted overlaid within above rooted
    have withinNext : ∀ other ∈ region ∪ {d | d ∈ path.parents}, source.contains other = true :=
      fun other inside => inside.elim (within other) fun isAbove => (above other isAbove).2.1
    obtain ⟨after, put⟩ := StagingTree.exists_put (readFileBytes source path)
      (overlaidNext.clear withinNext held (inPlace path (.inl rfl)))
      fun d isAbove => by rw [overlaidNext.contains (.inr isAbove)]
                          exact (above d isAbove).2.1
    have found := StagingTree.put_eq_some put
    have spans : region ∪ span path = Set.insert path (region ∪ {d | d ∈ path.parents}) := by
      ext other
      simp only [span, Set.mem_union, Set.mem_ofPred_eq]
      exact or_left_comm
    refine ⟨after, ?_, ?_⟩
    · simp [restoreEntry, capturedEntry, directory, covers, writeFileBytes, done, put]
    · rw [spans]
      refine overlaidNext.insert ?_ fun other differs => ?_
      · obtain ⟨bytes, stored⟩ := Option.isSome_iff_exists.mp held
        rw [found, if_pos rfl, if_neg directory, readFileBytes, stored]
        rfl
      · rw [found, if_neg differs]

theorem restoreEntries_overlaid (overlaid : Overlaid source base region tree)
    (within : ∀ path ∈ region, source.contains path = true) {paths : List EntryName}
    (each : ∀ path ∈ paths, source.contains path = true ∧ scopeCovers scope path.bytes = true ∧
      ∀ other ∈ span path, InPlace base other) :
    ∃ after, restoreEntries scope tree (paths.map (capturedEntry source)) = (after, none) ∧
      Overlaid source base (region ∪ {other | ∃ path ∈ paths, other ∈ span path}) after := by
  induction paths generalizing tree region with
  | nil => exact ⟨tree, rfl, by simpa using overlaid⟩
  | cons path rest ih =>
    obtain ⟨held, covers, inPlace⟩ := each path List.mem_cons_self
    obtain ⟨next, done, overlaidNext⟩ :=
      restoreEntry_overlaid overlaid within held covers inPlace
    have withinNext : ∀ other ∈ region ∪ span path, source.contains other = true := by
      rintro other (inRegion | rfl | isAbove)
      · exact within other inRegion
      · exact held
      · exact source.parents path held other isAbove
    obtain ⟨after, finished, overlaidAfter⟩ := ih overlaidNext withinNext
      fun later inRest => each later (List.mem_cons_of_mem path inRest)
    refine ⟨after, ?_, ?_⟩
    · rw [List.map_cons, restoreEntries, done]
      exact finished
    · have regions : region ∪ span path ∪ {other | ∃ later ∈ rest, other ∈ span later} =
          region ∪ {other | ∃ later ∈ path :: rest, other ∈ span later} := by
        ext other
        simp [or_assoc]
      exact regions ▸ overlaidAfter

end

/-! ## What every restore keeps -/

section
variable {scope : StagingScope} {tree after : StagingTree}

/-- `after` holds what `tree` holds outside the scope, and at most directories of
`made` besides. -/
def Frame (scope : StagingScope) (made : EntryName → Prop) (tree after : StagingTree) : Prop :=
  ∀ path, scopeCovers scope path.bytes = false → after.find? path = tree.find? path ∨
    (tree.find? path = none ∧ after.find? path = some [] ∧ made path)

theorem Frame.trans {made : EntryName → Prop} {later : StagingTree}
    (first : Frame scope made tree after) (second : Frame scope made after later) :
    Frame scope made tree later := by
  intro path outside
  rcases second path outside with same | ⟨absent, there, isMade⟩
  · rw [same]
    exact first path outside
  · rcases first path outside with same | ⟨_, there', _⟩
    · exact .inr ⟨same ▸ absent, there, isMade⟩
    · rw [there'] at absent
      cases absent

theorem Frame.imp {made made' : EntryName → Prop} (frame : Frame scope made tree after)
    (more : ∀ path, scopeCovers scope path.bytes = false → made path → made' path) :
    Frame scope made' tree after := fun path outside =>
  (frame path outside).imp_right fun ⟨absent, there, isMade⟩ => ⟨absent, there, more path outside isMade⟩

theorem createDirectories_frame {ds : List EntryName}
    (done : tree.createDirectories ds = some after) : Frame scope (· ∈ ds) tree after := by
  induction ds generalizing tree with
  | nil =>
    cases done
    exact fun path _ => .inl rfl
  | cons d rest ih =>
    obtain ⟨next, created, finished⟩ := StagingTree.createDirectories_cons.mp done
    have first : Frame scope (· ∈ d :: rest) tree next := by
      intro path _
      rw [StagingTree.createDirectory_eq_some created path]
      split
      · next new =>
        exact .inr ⟨by simpa [StagingTree.contains, new.1] using new.2, rfl,
          new.1 ▸ List.mem_cons_self⟩
      · exact .inl rfl
    exact first.trans ((ih finished).imp fun _ _ inRest => List.mem_cons_of_mem d inRest)

/-- What is held stays held, and the directories asked for are held. -/
theorem createDirectories_contains {ds : List EntryName}
    (done : tree.createDirectories ds = some after) {path : EntryName}
    (held : tree.contains path = true ∨ path ∈ ds) : after.contains path = true := by
  induction ds generalizing tree with
  | nil =>
    cases done
    exact held.resolve_right List.not_mem_nil
  | cons d rest ih =>
    obtain ⟨next, created, finished⟩ := StagingTree.createDirectories_cons.mp done
    have found := StagingTree.createDirectory_eq_some created path
    refine ih finished ?_
    rcases held with held | listed
    · refine .inl ?_
      rw [StagingTree.contains, found]
      split
      · rfl
      · exact held
    · refine (List.mem_cons.mp listed).imp (fun here => ?_) id
      rw [StagingTree.contains, found]
      split
      · rfl
      · next present =>
        rw [here, ← StagingTree.contains]
        simpa [here] using present

theorem writeFileBytes_eq_ok {path : EntryName} {bytes : Bytes}
    (done : writeFileBytes tree path bytes = .ok after) :
    ∃ next, tree.createDirectories path.parents = some next ∧ next.put path bytes = some after := by
  unfold writeFileBytes at done
  split at done
  · cases done
  · next next created =>
    split at done
    · cases done
    · next put =>
      cases done
      exact ⟨next, created, put⟩

theorem restoreEntry_kept {entry : StagedEntry}
    (done : restoreEntry scope tree entry = .ok after) :
    Frame scope (· ∈ entry.relativePath.parents) tree after ∧
      ∀ path, tree.contains path = true ∨ path ∈ span entry.relativePath →
        after.contains path = true := by
  unfold restoreEntry at done
  split at done
  · cases done
  · next covers =>
    rw [Bool.not_eq_true', Bool.not_eq_false] at covers
    have uncovered : ∀ path : EntryName, scopeCovers scope path.bytes = false →
        path ≠ entry.relativePath := by
      rintro path outside rfl
      exact Bool.false_ne_true (outside.symm.trans covers)
    split at done
    · split at done
      · cases done
      · next created =>
        cases done
        refine ⟨(createDirectories_frame created).imp fun path outside listed => ?_, ?_⟩
        · exact (List.mem_append.mp listed).resolve_right fun last =>
            uncovered path outside (List.mem_singleton.mp last)
        · refine fun path held => createDirectories_contains created (held.imp_right fun inSpan => ?_)
          exact List.mem_append.mpr (inSpan.symm.imp_right List.mem_singleton.mpr)
    · obtain ⟨next, created, put⟩ := writeFileBytes_eq_ok done
      have found := StagingTree.put_eq_some put
      refine ⟨(createDirectories_frame created).trans fun path outside => .inl ?_, ?_⟩
      · rw [found, if_neg (uncovered path outside)]
      · intro path held
        rw [StagingTree.contains, found]
        split
        · rfl
        · next differs =>
          exact createDirectories_contains created
            (held.imp_right fun inSpan => inSpan.resolve_left differs)

/-- Whatever a restore ends with, the entries outside the scope stay. -/
theorem restoreEntries_frame (tree : StagingTree) (entries : List StagedEntry) :
    Frame scope (fun path => ∃ entry ∈ entries, path ∈ entry.relativePath.parents) tree
      (restoreEntries scope tree entries).1 := by
  induction entries generalizing tree with
  | nil => exact fun path _ => .inl rfl
  | cons entry rest ih =>
    rw [restoreEntries]
    split
    · next next done =>
      have first : Frame scope
          (fun path => ∃ each ∈ entry :: rest, path ∈ each.relativePath.parents) tree next :=
        (restoreEntry_kept done).1.imp fun path _ above => ⟨entry, List.mem_cons_self, above⟩
      refine first.trans ((ih next).imp fun path _ later => ?_)
      obtain ⟨each, inRest, above⟩ := later
      exact ⟨each, List.mem_cons_of_mem entry inRest, above⟩
    · exact fun path _ => .inl rfl

/-- A restore without an exception holds every entry and the directories above it. -/
theorem restoreEntries_contains {entries : List StagedEntry}
    (done : (restoreEntries scope tree entries).2 = none) {path : EntryName}
    (held : tree.contains path = true ∨ ∃ entry ∈ entries, path ∈ span entry.relativePath) :
    (restoreEntries scope tree entries).1.contains path = true := by
  induction entries generalizing tree with
  | nil => exact held.resolve_right fun ⟨_, listed, _⟩ => List.not_mem_nil listed
  | cons entry rest ih =>
    rw [restoreEntries] at done ⊢
    split at done
    · next next written =>
      have kept := (restoreEntry_kept written).2
      refine ih done ?_
      rcases held with held | ⟨each, listed, inSpan⟩
      · exact .inl (kept path (.inl held))
      · rcases List.mem_cons.mp listed with rfl | inRest
        · exact .inl (kept path (.inr inSpan))
        · exact .inr ⟨each, inRest, inSpan⟩
    · cases done

end

/-! ## Restoring a capture -/

section
variable {tree source : StagingTree} {scope : StagingScope}

theorem mem_capturedPaths {path : EntryName} :
    path ∈ (listStagingEntries source).filter (fun path => scopeCovers scope path.bytes) ↔
      source.contains path = true ∧ scopeCovers scope path.bytes = true := by
  rw [List.mem_filter, mem_listStagingEntries]

theorem relativePath_capturedEntry (path : EntryName) :
    (capturedEntry source path).relativePath = path := by
  unfold capturedEntry
  split <;> rfl

theorem relativePaths_capture : (captureStagingScope source scope).map StagedEntry.relativePath =
    (listStagingEntries source).filter fun path => scopeCovers scope path.bytes := by
  rw [captureStagingScope, List.map_map]
  refine (List.map_congr_left fun path _ => ?_).trans (List.map_id _)
  exact relativePath_capturedEntry path

/-- A capture depends on what the tree holds in the scope. -/
theorem capture_congr {left right : StagingTree}
    (same : ∀ path, scopeCovers scope path.bytes = true → left.find? path = right.find? path) :
    captureStagingScope left scope = captureStagingScope right scope := by
  have paths : (listStagingEntries left).filter (fun path => scopeCovers scope path.bytes) =
      (listStagingEntries right).filter fun path => scopeCovers scope path.bytes := by
    refine List.Pairwise.eq_of_mem_iff (r := (· < ·))
      ((listStagingEntries_sorted left).filter _) ((listStagingEntries_sorted right).filter _)
      fun path => ?_
    rw [mem_capturedPaths, mem_capturedPaths]
    refine and_congr_left fun covers => ?_
    rw [StagingTree.contains, StagingTree.contains, same path covers]
  rw [captureStagingScope, captureStagingScope, paths]
  refine List.map_congr_left fun path captured => ?_
  rw [capturedEntry, capturedEntry, readFileBytes, readFileBytes,
    same path (mem_capturedPaths.mp captured).2]

/-- A file outside the scope stands at the path of a directory that is captured or is
above a captured entry. -/
def Obstructed (tree : StagingTree) (scope : StagingScope) (entries : List StagedEntry) : Prop :=
  ∃ file : EntryName, tree.contains file = true ∧ scopeCovers scope file.bytes = false ∧
    ∃ entry ∈ entries, ∃ d ∈ span entry.relativePath, d.bytes = file.bytes ++ [slash]

theorem wanted_closed : ∀ path ∈ (captureStagingScope source scope).map StagedEntry.relativePath,
    ∀ d ∈ path.parents, scopeCovers scope d.bytes = true →
      d ∈ (captureStagingScope source scope).map StagedEntry.relativePath := by
  rw [relativePaths_capture]
  intro path captured d above covers
  exact mem_capturedPaths.mpr
    ⟨source.parents path (mem_capturedPaths.mp captured).1 d above, covers⟩

theorem span_capture {path : EntryName} (captured : source.contains path = true)
    (covers : scopeCovers scope path.bytes = true) :
    ∃ entry ∈ captureStagingScope source scope, span entry.relativePath = span path :=
  ⟨_, List.mem_map_of_mem (mem_capturedPaths.mpr ⟨captured, covers⟩),
    by rw [relativePath_capturedEntry]⟩

/-- With no file outside the scope in the way, what the removals leave is not in the
way of a captured entry or of a directory above it. -/
theorem inPlace_of_clear (clear : ¬Obstructed tree scope (captureStagingScope source scope))
    {path : EntryName} (captured : source.contains path = true)
    (covers : scopeCovers scope path.bytes = true) :
    ∀ other ∈ span path, InPlace (sweep scope
      ((captureStagingScope source scope).map StagedEntry.relativePath) tree) other := by
  intro needed inSpan other held otherKind
  have heldNeeded : source.contains needed = true := by
    rcases inSpan with rfl | above
    · exact captured
    · exact source.parents path captured needed above
  rw [StagingTree.contains, find?_sweep wanted_closed] at held
  split at held
  · cases held
  · next wanted =>
    by_cases coversOther : scopeCovers scope other.bytes = true
    · -- a kept entry of the scope is one that was captured
      have heldOther : source.contains other = true := by
        by_contra absent
        refine wanted (isUnwanted_iff.mpr ⟨coversOther, fun listed => absent ?_⟩)
        rw [relativePaths_capture] at listed
        exact (mem_capturedPaths.mp listed).1
      rcases otherKind with same | same
      · exact source.oneKind other needed heldOther heldNeeded same
      · exact source.oneKind needed other heldNeeded heldOther same
    · rcases otherKind with same | same
      · obtain ⟨entry, listed, spans⟩ := span_capture captured covers
        exact clear ⟨other, held, by simpa using coversOther, entry, listed, needed,
          spans ▸ inSpan, same⟩
      · -- a directory where a captured file is needed is covered as the file is
        rcases inSpan with rfl | above
        · exact coversOther <| scopeCovers_of_prefix covers (same ▸ List.prefix_append _ _)
        · exact EntryName.not_append_slash (EntryName.mem_parents.mp above).1 same

theorem restore_of_clear (clear : ¬Obstructed tree scope (captureStagingScope source scope)) :
    (restoreStagingScope tree scope (captureStagingScope source scope)).2 = none ∧
      captureStagingScope
          (restoreStagingScope tree scope (captureStagingScope source scope)).1 scope =
        captureStagingScope source scope := by
  have start : ∀ swept : StagingTree, Overlaid source swept ∅ swept := fun swept path =>
    ⟨fun inside => inside.elim, fun _ => rfl⟩
  obtain ⟨after, done, overlaid⟩ := restoreEntries_overlaid (start _) (fun path inside => inside.elim)
    fun path captured => ⟨(mem_capturedPaths.mp captured).1, (mem_capturedPaths.mp captured).2,
      inPlace_of_clear clear (mem_capturedPaths.mp captured).1 (mem_capturedPaths.mp captured).2⟩
  have restored : restoreStagingScope tree scope (captureStagingScope source scope) = (after, none) :=
    done
  rw [restored]
  refine ⟨rfl, capture_congr fun path covers => ?_⟩
  by_cases captured : source.contains path = true
  · exact (overlaid path).1 (.inr ⟨path, mem_capturedPaths.mpr ⟨captured, covers⟩, .inl rfl⟩)
  · have absent : source.find? path = none := by
      simpa [StagingTree.contains] using captured
    rw [absent, (overlaid path).2, find?_sweep wanted_closed, if_pos]
    · refine isUnwanted_iff.mpr ⟨covers, fun listed => captured ?_⟩
      rw [relativePaths_capture] at listed
      exact (mem_capturedPaths.mp listed).1
    · rintro (inside | ⟨other, listed, rfl | above⟩)
      · exact inside
      · exact captured (mem_capturedPaths.mp listed).1
      · exact captured (source.parents other (mem_capturedPaths.mp listed).1 path above)

theorem restore_frame : Frame scope
    (fun path => ∃ entry ∈ captureStagingScope source scope, path ∈ entry.relativePath.parents) tree
    (restoreStagingScope tree scope (captureStagingScope source scope)).1 := by
  refine Frame.trans (fun path outside => .inl ?_) (restoreEntries_frame _ _)
  rw [find?_sweep wanted_closed, if_neg]
  exact fun unwanted => Bool.false_ne_true (outside.symm.trans (isUnwanted_iff.mp unwanted).1)

theorem not_obstructed_of_done
    (done : (restoreStagingScope tree scope (captureStagingScope source scope)).2 = none) :
    ¬Obstructed tree scope (captureStagingScope source scope) := by
  rintro ⟨file, held, outside, entry, listed, d, inSpan, same⟩
  have heldDirectory := restoreEntries_contains done (.inr ⟨entry, listed, inSpan⟩)
  refine StagingTree.oneKind _ file d ?_ heldDirectory same
  rcases @restore_frame tree source scope file outside with kept | ⟨absent, _, _⟩
  · exact (congrArg Option.isSome kept).trans held
  · rw [StagingTree.contains, absent] at held
    cases held

/-- A restore of a capture ends without an exception exactly when no file outside the
scope stands at the path of a directory it needs. It then gives the capture back, and
in every case what is outside the scope is unchanged but for directories above captured
entries. -/
theorem restore_capture (tree source : StagingTree) (scope : StagingScope) :
    ((restoreStagingScope tree scope (captureStagingScope source scope)).2 = none ↔
        ¬Obstructed tree scope (captureStagingScope source scope)) ∧
      ((restoreStagingScope tree scope (captureStagingScope source scope)).2 = none →
        captureStagingScope
            (restoreStagingScope tree scope (captureStagingScope source scope)).1 scope =
          captureStagingScope source scope) ∧
      ∀ path, scopeCovers scope path.bytes = false →
        (restoreStagingScope tree scope (captureStagingScope source scope)).1.find? path =
            tree.find? path ∨
          (tree.find? path = none ∧
            (restoreStagingScope tree scope (captureStagingScope source scope)).1.find? path =
              some [] ∧
            ∃ entry ∈ captureStagingScope source scope, path ∈ entry.relativePath.parents) :=
  ⟨⟨not_obstructed_of_done, fun clear => (restore_of_clear clear).1⟩,
    fun done => (restore_of_clear (not_obstructed_of_done done)).2, restore_frame⟩

end

def fileA : EntryName := ⟨[0x61], by decide⟩

def directoryA : EntryName := ⟨[0x61, 0x2F], by decide⟩

/-- The scope `a/`. -/
def insideA : StagingScope := ⟨[[0x61, 0x2F]]⟩

/-- The tree of one entry. -/
def loneEntry (path : EntryName) : StagingTree := (StagingTree.empty.put path []).getD .empty

/-- The scope `a/` does not cover a file `a`, so the directory `a/` cannot be restored
over it. -/
theorem fileA_obstructs :
    (captureStagingScope (loneEntry directoryA) insideA).map StagedEntry.relativePath =
        [directoryA] ∧
      (restoreStagingScope (loneEntry fileA) insideA
          (captureStagingScope (loneEntry directoryA) insideA)).2 =
        some (.notADirectory directoryA) ∧
      captureStagingScope (restoreStagingScope (loneEntry fileA) insideA
          (captureStagingScope (loneEntry directoryA) insideA)).1 insideA ≠
        captureStagingScope (loneEntry directoryA) insideA := by
  decide

end Svp.Builder
