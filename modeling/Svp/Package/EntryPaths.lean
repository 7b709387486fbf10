import Svp.Exec.Digest

/-!
# Names of package entries

`isNormalizedPackagePath` decides which names of a ZIP archive enter the layout of a
package. It scans a name part by part; the parts are the pieces between slashes
(`scanParts_eq`), so the accepted names can be read off them (`accepts_iff`): one or more
components with single slashes between them, and at the end up to two slashes. The second
one is the scan's slip. An accepted name stays below the directory it is joined to, and
names without a slash at the end denote different paths where they differ.
-/

namespace Svp.Package

open Exec (Bytes utf8)

def kSlash : UInt8 := 0x2F
def kBackslash : UInt8 := 0x5C
def kDot : Bytes := [0x2E]
def kDotDot : Bytes := [0x2E, 0x2E]

/-! ## The scan and the layout -/

/-- The loop over the parts, on what is left of the path. -/
def scanParts (path : Bytes) : Bool :=
  if path.isEmpty then true
  else
    let part := path.takeWhile (· != kSlash)
    match _slash : path.dropWhile (· != kSlash) with
    | [] => !(part == kDot || part == kDotDot)
    | _ :: later =>
      -- an empty part is accepted where its slash is the last byte
      if part.isEmpty then later.isEmpty
      else if part == kDot || part == kDotDot then false
      else scanParts later
termination_by path.length
decreasing_by
  have shorter := (List.dropWhile_suffix (l := path) (· != kSlash)).length_le
  rw [_slash] at shorter
  exact shorter

def isNormalizedPackagePath (path : Bytes) : Bool :=
  if path.isEmpty || path.head? == some kSlash || path.contains kBackslash then false
  else scanParts path

def rootEntryFor (entry : Bytes) : Bytes := entry.takeWhile (· != kSlash)

structure PackageLayout where
  entries : Finset Bytes := ∅
  rootEntries : Finset Bytes := ∅
  invalidEntryPaths : List Bytes := []

/-- Files the name of one archive entry. -/
def PackageLayout.addEntry (layout : PackageLayout) (entryName : Bytes) : PackageLayout :=
  if isNormalizedPackagePath entryName then
    { layout with
      entries := insert entryName layout.entries
      rootEntries := insert (rootEntryFor entryName) layout.rootEntries }
  else { layout with invalidEntryPaths := layout.invalidEntryPaths ++ [entryName] }

/-- The layout of an archive whose entries have these names. -/
def readPackageLayout (names : List Bytes) : PackageLayout :=
  names.foldl PackageLayout.addEntry {}

/-! ## Paths and what they denote -/

/-- A component of a path: not empty, not a dot directory, without separators. -/
structure IsComponent (part : Bytes) : Prop where
  nonempty : part ≠ []
  notDot : part ≠ kDot
  notDotDot : part ≠ kDotDot
  noSlash : kSlash ∉ part
  noBackslash : kBackslash ∉ part

/-- Components separated by single slashes. -/
def joined (parts : List Bytes) : Bytes := [kSlash].intercalate parts

/-- One or more components separated by single slashes, with at most one slash at the end. -/
def IsEntryPath (path : Bytes) : Prop :=
  ∃ parts : List Bytes, parts ≠ [] ∧ (∀ part ∈ parts, IsComponent part) ∧
    (path = joined parts ∨ path = joined parts ++ [kSlash])

/-- Takes one step of a path from the directory with these components. -/
def enter (directory : List Bytes) (part : Bytes) : List Bytes :=
  if part = [] ∨ part = kDot then directory
  else if part = kDotDot then directory.dropLast
  else directory ++ [part]

/-- What a path denotes when it is joined to a directory; an absolute one replaces it. -/
def resolve (directory : List Bytes) (path : Bytes) : List Bytes :=
  (path.splitOn kSlash).foldl enter (if path.head? = some kSlash then [] else directory)

/-! ## The parts of a path -/

theorem splitOn_of_dropWhile_nil {path : Bytes} (none : path.dropWhile (· != kSlash) = []) :
    path.splitOn kSlash = [path] ∧ path.takeWhile (· != kSlash) = path := by
  have all := List.dropWhile_eq_nil_iff.mp none
  refine ⟨List.splitOn_eq_singleton fun mem => ?_, List.takeWhile_eq_self_iff.mpr all⟩
  exact absurd (all kSlash mem) (by decide)

theorem splitOn_of_dropWhile_cons {path later : Bytes} {slash : UInt8}
    (found : path.dropWhile (· != kSlash) = slash :: later) :
    path.splitOn kSlash = path.takeWhile (· != kSlash) :: later.splitOn kSlash := by
  have isSlash : slash = kSlash := by
    have stops := List.head?_dropWhile_not (· != kSlash) path
    rw [found] at stops
    simpa using stops
  have whole := List.takeWhile_append_dropWhile (p := (· != kSlash)) (l := path)
  have before : kSlash ∉ path.takeWhile (· != kSlash) := by
    intro mem
    exact absurd (List.mem_takeWhile_imp mem) (by decide)
  rw [found, isSlash] at whole
  calc path.splitOn kSlash
      = (path.takeWhile (· != kSlash) ++ kSlash :: later).splitOn kSlash := by rw [whole]
    _ = _ := List.splitOn_append_cons_self_of_not_mem before later

/-- The scan on the parts. -/
def acceptsParts : List Bytes → Bool
  | [] => true
  | [last] => last.isEmpty || !(last == kDot || last == kDotDot)
  | part :: later =>
    if part.isEmpty then later == [[]]
    else if part == kDot || part == kDotDot then false
    else acceptsParts later

theorem splitOn_eq_nil_iff {path : Bytes} : path.splitOn kSlash = [[]] ↔ path = [] := by
  constructor
  · intro same
    have joined : [kSlash].intercalate (path.splitOn kSlash) = path :=
      List.intercalate_splitOn kSlash
    exact joined.symm.trans (congrArg [kSlash].intercalate same)
  · rintro rfl
    rfl

theorem acceptsParts_cons (part : Bytes) {later : List Bytes} (more : later ≠ []) :
    acceptsParts (part :: later) =
      if part.isEmpty then later == [[]]
      else if part == kDot || part == kDotDot then false
      else acceptsParts later := by
  cases later with
  | nil => exact absurd rfl more
  | cons next rest => rfl

theorem scanParts_of_slash {path later : Bytes} {slash : UInt8}
    (found : path.dropWhile (· != kSlash) = slash :: later) :
    scanParts path =
      if (path.takeWhile (· != kSlash)).isEmpty then later.isEmpty
      else if path.takeWhile (· != kSlash) == kDot || path.takeWhile (· != kSlash) == kDotDot then false
      else scanParts later := by
  have more : ¬ path.isEmpty = true := by
    intro empty
    rw [List.isEmpty_iff.mp empty] at found
    cases found
  rw [scanParts, if_neg more]
  split
  · next none => exact absurd (none.symm.trans found) (List.cons_ne_nil _ _).symm
  · next found' =>
    obtain ⟨-, rfl⟩ := List.cons.inj (found.symm.trans found')
    rfl

theorem scanParts_eq (path : Bytes) : scanParts path = acceptsParts (path.splitOn kSlash) := by
  -- how the parts after a slash are accepted says how they are with the part before it
  have step : ∀ {path later : Bytes} {slash : UInt8},
      path.dropWhile (· != kSlash) = slash :: later →
      (¬ (path.takeWhile (· != kSlash)).isEmpty = true →
        ¬ (path.takeWhile (· != kSlash) == kDot || path.takeWhile (· != kSlash) == kDotDot) = true →
        scanParts later = acceptsParts (later.splitOn kSlash)) →
      scanParts path = acceptsParts (path.splitOn kSlash) := by
    intro path later slash found ih
    rw [scanParts_of_slash found, splitOn_of_dropWhile_cons found,
      acceptsParts_cons _ (List.splitOn_ne_nil _ _)]
    split_ifs with empty dots
    · rw [Bool.eq_iff_iff, List.isEmpty_iff, beq_iff_eq, splitOn_eq_nil_iff]
    · rfl
    · exact ih empty dots
  induction path using scanParts.induct with
  | case1 path empty =>
    rw [scanParts, if_pos empty, List.isEmpty_iff.mp empty]
    rfl
  | case2 path more last =>
    obtain ⟨parts, whole⟩ := splitOn_of_dropWhile_nil last
    rw [scanParts, if_neg more, parts]
    split
    · rw [whole, acceptsParts, Bool.eq_false_of_not_eq_true more, Bool.false_or]
    · next found => exact absurd (last.symm.trans found) (List.cons_ne_nil _ _).symm
  | case3 path more part slash later found empty => exact step found fun full => absurd empty full
  | case4 path more part slash later found full dots =>
    exact step found fun _ other => absurd dots other
  | case5 path more part slash later found full other ih => exact step found fun _ _ => ih

/-- Neither empty nor a dot directory. -/
def Plain (part : Bytes) : Prop := part ≠ [] ∧ part ≠ kDot ∧ part ≠ kDotDot

theorem plain_iff {part : Bytes} : Plain part ↔
    ¬ part.isEmpty = true ∧ ¬ (part == kDot || part == kDotDot) = true := by
  rw [Plain, List.isEmpty_iff, Bool.or_eq_true, beq_iff_eq, beq_iff_eq, not_or]

/-- What may follow the plain parts of an accepted path: up to two slashes. -/
def IsEnding (parts : List Bytes) : Prop := parts = [] ∨ parts = [[]] ∨ parts = [[], []]

theorem acceptsParts_append {plain ending : List Bytes} (all : ∀ part ∈ plain, Plain part)
    (ends : IsEnding ending) : acceptsParts (plain ++ ending) = true := by
  induction plain with
  | nil => rcases ends with rfl | rfl | rfl <;> rfl
  | cons part plain ih =>
    obtain ⟨first, others⟩ := List.forall_mem_cons.mp all
    obtain ⟨full, other⟩ := plain_iff.mp first
    by_cases last : plain ++ ending = []
    · rw [List.cons_append, last, acceptsParts, Bool.eq_false_of_not_eq_true other]
      exact Bool.or_true _
    · rw [List.cons_append, acceptsParts_cons part last, if_neg full, if_neg other]
      exact ih others

/-- The parts that are accepted: plain ones and an ending. -/
theorem acceptsParts_eq_true {parts : List Bytes} (accepted : acceptsParts parts = true) :
    ∃ plain ending : List Bytes, parts = plain ++ ending ∧ (∀ part ∈ plain, Plain part) ∧
      IsEnding ending := by
  induction parts with
  | nil => exact ⟨[], [], rfl, nofun, .inl rfl⟩
  | cons part later ih =>
    by_cases empty : part.isEmpty = true
    · obtain rfl := List.isEmpty_iff.mp empty
      by_cases last : later = []
      · exact ⟨[], [[]], by rw [last]; rfl, nofun, .inr (.inl rfl)⟩
      · rw [acceptsParts_cons _ last, if_pos empty] at accepted
        exact ⟨[], [[], []], by rw [eq_of_beq accepted]; rfl, nofun, .inr (.inr rfl)⟩
    · have plain : Plain part ∧ acceptsParts later = true := by
        by_cases last : later = []
        · rw [last, acceptsParts, Bool.eq_false_of_not_eq_true empty, Bool.false_or,
            Bool.not_eq_true'] at accepted
          exact ⟨plain_iff.mpr ⟨empty, Bool.eq_false_iff.mp accepted⟩, by rw [last]; rfl⟩
        · rw [acceptsParts_cons _ last, if_neg empty] at accepted
          split at accepted
          · cases accepted
          · next other => exact ⟨plain_iff.mpr ⟨empty, other⟩, accepted⟩
      obtain ⟨parts, ending, rfl, all, ends⟩ := ih plain.2
      exact ⟨part :: parts, ending, rfl, List.forall_mem_cons.mpr ⟨plain.1, all⟩, ends⟩

/-! ## The accepted paths -/

theorem joined_cons (part : Bytes) {parts : List Bytes} (more : parts ≠ []) :
    joined (part :: parts) = part ++ kSlash :: joined parts := by
  cases parts with
  | nil => exact absurd rfl more
  | cons next rest => simp [joined, List.intercalate, List.intersperse]

/-- An ending after components is that many slashes. -/
theorem joined_append {parts : List Bytes} (some_ : parts ≠ []) (ending : List Bytes)
    (more : ending ≠ []) : joined (parts ++ ending) = joined parts ++ kSlash :: joined ending := by
  induction parts with
  | nil => exact absurd rfl some_
  | cons part parts ih =>
    have later : parts ++ ending ≠ [] := List.append_ne_nil_of_right_ne_nil _ more
    rw [List.cons_append, joined_cons part later]
    by_cases last : parts = []
    · rw [last]
      simp [joined, List.intercalate]
    · rw [ih last, joined_cons part last, List.append_assoc, List.cons_append]

theorem splitOn_joined {parts : List Bytes} (some_ : parts ≠ [])
    (noSlash : ∀ part ∈ parts, kSlash ∉ part) : (joined parts).splitOn kSlash = parts :=
  List.splitOn_intercalate kSlash noSlash some_

theorem joined_splitOn (path : Bytes) : joined (path.splitOn kSlash) = path :=
  List.intercalate_splitOn kSlash

theorem not_mem_of_mem_splitOn {path part : Bytes} (mem : part ∈ path.splitOn kSlash) :
    kSlash ∉ part := by
  induction path generalizing part with
  | nil =>
    rw [List.splitOn_nil, List.mem_singleton] at mem
    exact mem ▸ List.not_mem_nil
  | cons c path ih =>
    rw [List.splitOn_cons_eq_if_modifyHead] at mem
    split at mem
    · rcases List.mem_cons.mp mem with rfl | mem
      · exact List.not_mem_nil
      · exact ih mem
    · next other =>
      obtain ⟨first, rest, pieces⟩ := List.exists_cons_of_ne_nil (List.splitOn_ne_nil kSlash path)
      rw [pieces, List.modifyHead_cons] at mem
      rcases List.mem_cons.mp mem with rfl | mem
      · refine List.not_mem_cons_of_ne_of_not_mem ?_ (ih (pieces ▸ List.mem_cons_self))
        rintro rfl
        exact other (beq_self_eq_true _)
      · exact ih (pieces ▸ List.mem_cons_of_mem first mem)

theorem mem_joined {parts : List Bytes} {c : UInt8} (other : c ≠ kSlash) :
    c ∈ joined parts ↔ ∃ part ∈ parts, c ∈ part := by
  induction parts with
  | nil => exact iff_of_false List.not_mem_nil nofun
  | cons part parts ih =>
    rw [List.exists_mem_cons_iff]
    by_cases last : parts = []
    · subst last
      simp [joined, List.intercalate]
    · rw [joined_cons part last, List.mem_append, List.mem_cons, ih]
      exact or_congr_right (or_iff_right other)

theorem head?_joined {part : Bytes} (full : part ≠ []) (parts : List Bytes) :
    (joined (part :: parts)).head? = part.head? := by
  by_cases last : parts = []
  · subst last
    simp [joined, List.intercalate]
  · rw [joined_cons part last]
    exact List.head?_append_of_ne_nil part full

theorem IsEnding.empty {ending : List Bytes} (ends : IsEnding ending) :
    ∀ part ∈ ending, part = [] := by
  rcases ends with rfl | rfl | rfl <;> simp

/-- The parts of an accepted path can be read off it. -/
theorem splitOn_components {parts ending : List Bytes} (some_ : parts ≠ [])
    (all : ∀ part ∈ parts, IsComponent part) (ends : IsEnding ending) :
    (joined (parts ++ ending)).splitOn kSlash = parts ++ ending := by
  refine splitOn_joined (List.append_ne_nil_of_left_ne_nil some_ ending) fun part mem => ?_
  rcases List.mem_append.mp mem with mem | mem
  · exact (all part mem).noSlash
  · exact ends.empty part mem ▸ List.not_mem_nil

/-- A path of components is not absolute. -/
theorem head?_components {parts : List Bytes} (some_ : parts ≠ [])
    (all : ∀ part ∈ parts, IsComponent part) (ending : List Bytes) :
    ∃ c, (joined (parts ++ ending)).head? = some c ∧ c ≠ kSlash := by
  obtain ⟨first, rest, rfl⟩ := List.exists_cons_of_ne_nil some_
  have isFirst := all first List.mem_cons_self
  obtain ⟨c, tail, rfl⟩ := List.exists_cons_of_ne_nil isFirst.nonempty
  exact ⟨c, head?_joined isFirst.nonempty (rest ++ ending),
    fun same => isFirst.noSlash (same ▸ List.mem_cons_self)⟩

/-- The accepted paths: components separated by single slashes, then up to two slashes. -/
theorem accepts_iff (path : Bytes) : isNormalizedPackagePath path = true ↔
    ∃ parts ending : List Bytes, parts ≠ [] ∧ (∀ part ∈ parts, IsComponent part) ∧
      IsEnding ending ∧ path = joined (parts ++ ending) := by
  rw [isNormalizedPackagePath, scanParts_eq]
  constructor
  · intro accepted
    split at accepted
    · cases accepted
    next clean =>
    rw [Bool.or_eq_true, Bool.or_eq_true, not_or, not_or, List.isEmpty_iff, beq_iff_eq,
      List.contains_iff_mem] at clean
    obtain ⟨⟨nonempty, relative⟩, noBackslash⟩ := clean
    obtain ⟨parts, ending, split, all, ends⟩ := acceptsParts_eq_true accepted
    have whole : path = joined (parts ++ ending) := split ▸ (joined_splitOn path).symm
    refine ⟨parts, ending, ?_, fun part mem => ?_, ends, whole⟩
    · rintro rfl
      rcases ends with rfl | rfl | rfl
      · exact nonempty whole
      · exact nonempty whole
      · rw [whole] at relative
        exact relative rfl
    · have piece : part ∈ path.splitOn kSlash := split ▸ List.mem_append_left ending mem
      refine ⟨(all part mem).1, (all part mem).2.1, (all part mem).2.2,
        not_mem_of_mem_splitOn piece, fun inside => noBackslash ?_⟩
      rw [whole]
      have other : kBackslash ≠ kSlash := by decide
      exact (mem_joined other).mpr ⟨part, List.mem_append_left ending mem, inside⟩
  · rintro ⟨parts, ending, some_, all, ends, rfl⟩
    have plain : ∀ part ∈ parts, Plain part := fun part mem =>
      ⟨(all part mem).nonempty, (all part mem).notDot, (all part mem).notDotDot⟩
    have noBackslash : kBackslash ∉ joined (parts ++ ending) := by
      rw [mem_joined (by decide)]
      rintro ⟨part, mem, inside⟩
      rcases List.mem_append.mp mem with mem | mem
      · exact (all part mem).noBackslash inside
      · rw [ends.empty part mem] at inside
        cases inside
    obtain ⟨c, head, relative⟩ := head?_components some_ all ending
    rw [if_neg, splitOn_components some_ all ends]
    · exact acceptsParts_append plain ends
    · rw [head, Bool.or_eq_true, Bool.or_eq_true, not_or, not_or, List.isEmpty_iff, beq_iff_eq,
        List.contains_iff_mem]
      refine ⟨⟨fun empty => ?_, fun absolute => relative (Option.some.inj absolute)⟩, noBackslash⟩
      rw [empty] at head
      cases head

theorem isEntryPath_iff {path : Bytes} : IsEntryPath path ↔
    ∃ parts ending : List Bytes, parts ≠ [] ∧ (∀ part ∈ parts, IsComponent part) ∧
      (ending = [] ∨ ending = [[]]) ∧ path = joined (parts ++ ending) := by
  constructor
  · rintro ⟨parts, some_, all, rfl | rfl⟩
    · exact ⟨parts, [], some_, all, .inl rfl, by rw [List.append_nil]⟩
    · exact ⟨parts, [[]], some_, all, .inr rfl, (joined_append some_ [[]] (by simp)).symm⟩
  · rintro ⟨parts, ending, some_, all, rfl | rfl, rfl⟩
    · exact ⟨parts, some_, all, .inl (by rw [List.append_nil])⟩
    · exact ⟨parts, some_, all, .inr (joined_append some_ [[]] (by simp))⟩

/-- The path goes on with a second slash after a path that ends in one. -/
def EndsTwice (path : Bytes) : Prop :=
  ∃ parts : List Bytes, parts ≠ [] ∧ (∀ part ∈ parts, IsComponent part) ∧
    path = joined parts ++ [kSlash, kSlash]

theorem accepts_iff_or (path : Bytes) :
    isNormalizedPackagePath path = true ↔ IsEntryPath path ∨ EndsTwice path := by
  rw [accepts_iff, isEntryPath_iff]
  constructor
  · rintro ⟨parts, ending, some_, all, rfl | rfl | rfl, rfl⟩
    · exact .inl ⟨parts, [], some_, all, .inl rfl, rfl⟩
    · exact .inl ⟨parts, [[]], some_, all, .inr rfl, rfl⟩
    · exact .inr ⟨parts, some_, all, joined_append some_ [[], []] (by simp)⟩
  · rintro (⟨parts, ending, some_, all, ends, rfl⟩ | ⟨parts, some_, all, rfl⟩)
    · exact ⟨parts, ending, some_, all, ends.imp_right .inl, rfl⟩
    · exact ⟨parts, [[], []], some_, all, .inr (.inr rfl),
        (joined_append some_ [[], []] (by simp)).symm⟩

theorem IsEntryPath.not_endsTwice {path : Bytes} (entry : IsEntryPath path) : ¬ EndsTwice path := by
  rintro ⟨parts, some_, all, twice⟩
  obtain ⟨parts', ending, some_', all', ends, rfl⟩ := isEntryPath_iff.mp entry
  have none : [] ∉ parts' := fun mem => (all' [] mem).nonempty rfl
  have same : parts' ++ ending = parts ++ [[], []] := by
    rw [← splitOn_components some_' all' (ends.imp_right .inl), twice,
      ← splitOn_components some_ all (.inr (.inr rfl)), joined_append some_ [[], []] (by simp)]
    rfl
  rcases ends with rfl | rfl
  · rw [List.append_nil] at same
    exact none (same ▸ by simp)
  · have shape : parts ++ [[], []] = parts ++ [[]] ++ [[]] := List.append_cons parts [] [[]]
    exact none (List.append_cancel_right (same.trans shape) ▸ by simp)

/-! ## What accepted paths denote -/

theorem foldl_enter (parts directory : List Bytes) (all : ∀ part ∈ parts, IsComponent part) :
    parts.foldl enter directory = directory ++ parts := by
  induction parts generalizing directory with
  | nil => exact (List.append_nil directory).symm
  | cons part parts ih =>
    obtain ⟨first, others⟩ := List.forall_mem_cons.mp all
    have step : enter directory part = directory ++ [part] := by
      rw [enter, if_neg (not_or.mpr ⟨first.nonempty, first.notDot⟩), if_neg first.notDotDot]
    rw [List.foldl_cons, step, ih _ others, List.append_assoc]
    rfl

/-- A path of components denotes what its components say below the directory. -/
theorem resolve_components {parts ending : List Bytes} (directory : List Bytes)
    (some_ : parts ≠ []) (all : ∀ part ∈ parts, IsComponent part) (ends : IsEnding ending) :
    resolve directory (joined (parts ++ ending)) = directory ++ parts := by
  obtain ⟨c, head, relative⟩ := head?_components some_ all ending
  have stays : ending.foldl enter (directory ++ parts) = directory ++ parts := by
    rcases ends with rfl | rfl | rfl <;> rfl
  rw [resolve, head, if_neg fun absolute => relative (Option.some.inj absolute),
    splitOn_components some_ all ends, List.foldl_append, foldl_enter parts directory all, stays]

/-- An accepted path without a slash at the end is its components. -/
theorem ending_nil {parts ending : List Bytes} (some_ : parts ≠ []) (ends : IsEnding ending)
    (open_ : (joined (parts ++ ending)).getLast? ≠ some kSlash) : ending = [] := by
  rcases ends with rfl | rfl | rfl
  · rfl
  · rw [joined_append some_ [[]] (by simp)] at open_
    exact absurd List.getLast?_concat open_
  · rw [joined_append some_ [[], []] (by simp), List.append_cons] at open_
    exact absurd List.getLast?_concat open_

theorem mem_entries_addEntry {layout : PackageLayout} {entryName name : Bytes}
    (mem : name ∈ (layout.addEntry entryName).entries) :
    name ∈ layout.entries ∨ isNormalizedPackagePath name = true := by
  unfold PackageLayout.addEntry at mem
  split at mem
  · next accepted =>
    rcases Finset.mem_insert.mp mem with rfl | mem
    · exact .inr accepted
    · exact .inl mem
  · exact .inl mem

/-- Only accepted names become entries. -/
theorem isNormalized_of_mem_entries {names : List Bytes} {name : Bytes}
    (mem : name ∈ (readPackageLayout names).entries) : isNormalizedPackagePath name = true := by
  have run : ∀ (names : List Bytes) (layout : PackageLayout),
      (∀ name ∈ layout.entries, isNormalizedPackagePath name = true) →
      ∀ name ∈ (names.foldl PackageLayout.addEntry layout).entries,
        isNormalizedPackagePath name = true := by
    intro names
    induction names with
    | nil => exact fun layout clean => clean
    | cons entryName names ih =>
      intro layout clean
      exact ih _ fun name mem => (mem_entries_addEntry mem).elim (clean name) id
  exact run names {} (fun name mem => absurd mem (Finset.notMem_empty name)) name mem

/-- A path is accepted where it is one of components and single slashes, except that a
second slash at the end passes too. Whatever is accepted stays below the directory it is
joined to, and accepted names without a slash at the end denote one path each. -/
theorem accepts_entry_paths_iff (path a b : Bytes) (names directory : List Bytes) :
    ((isNormalizedPackagePath path = true ↔ IsEntryPath path) ↔ ¬ EndsTwice path) ∧
      (∀ name ∈ (readPackageLayout names).entries,
        ∃ below ≠ [], resolve directory name = directory ++ below) ∧
      (isNormalizedPackagePath a = true → isNormalizedPackagePath b = true →
        a.getLast? ≠ some kSlash → b.getLast? ≠ some kSlash →
        resolve directory a = resolve directory b → a = b) := by
  refine ⟨?_, fun name mem => ?_, fun acceptedA acceptedB openA openB same => ?_⟩
  · rw [accepts_iff_or]
    constructor
    · exact fun agrees twice => (agrees.mp (.inr twice)).not_endsTwice twice
    · exact fun once => or_iff_left once
  · obtain ⟨parts, ending, some_, all, ends, rfl⟩ :=
      (accepts_iff name).mp (isNormalized_of_mem_entries mem)
    exact ⟨parts, some_, resolve_components directory some_ all ends⟩
  · obtain ⟨parts, ending, some_, all, ends, rfl⟩ := (accepts_iff a).mp acceptedA
    obtain ⟨parts', ending', some_', all', ends', rfl⟩ := (accepts_iff b).mp acceptedB
    rw [resolve_components directory some_ all ends, resolve_components directory some_' all' ends']
      at same
    rw [ending_nil some_ ends openA, ending_nil some_' ends' openB, List.append_cancel_left same]

/-- A name with two slashes at the end is accepted. -/
theorem accepts_double_slash :
    isNormalizedPackagePath (utf8 "a//") = true ∧ ¬ IsEntryPath (utf8 "a//") := by
  have twice : EndsTwice (utf8 "a//") :=
    ⟨[utf8 "a"], by simp, by simp; exact ⟨by decide, by decide, by decide,
      by decide, by decide⟩, by decide⟩
  exact ⟨(accepts_iff_or _).mpr (.inr twice), fun entry => entry.not_endsTwice twice⟩

end Svp.Package
