import Svp.Exec.Digest
import Svp.Lib.ByteStrings
import Svp.Lib.OrderedMap

/-!
# The staging directory

A staging directory holds regular files and directories. It is a map from the
relative paths of its entries to file contents, a directory's path ending with a
slash; the directories above an entry are entries too, and no path is both a file
and a directory. `put` and `remove` are the operations of the file system that
keep this: an entry is put where the directory above it is there and nothing of
the other kind is in its place, and a directory is removed once it is empty.
-/

namespace Svp.Builder

open Exec (Bytes)
open scoped Lib.ByteStrings
open Lib

def slash : UInt8 := 0x2F

/-! ## Names -/

/-- A relative path in generic form: components with single slashes between them
and, for a directory, one at the end. -/
structure IsEntryName (bytes : Bytes) : Prop where
  nonempty : bytes ≠ []
  relative : bytes.head? ≠ some slash
  single : ¬[slash, slash] <:+: bytes

instance (bytes : Bytes) : Decidable (IsEntryName bytes) :=
  decidable_of_iff (bytes ≠ [] ∧ bytes.head? ≠ some slash ∧ ¬[slash, slash] <:+: bytes)
    ⟨fun ⟨a, b, c⟩ => ⟨a, b, c⟩, fun ⟨a, b, c⟩ => ⟨a, b, c⟩⟩

structure EntryName where
  bytes : Bytes
  wellFormed : IsEntryName bytes

namespace EntryName

theorem bytes_injective : Function.Injective bytes := fun a b same => by
  cases a
  cases b
  cases same
  rfl

/-- Names sort as `std::string` does. -/
instance : LinearOrder EntryName := LinearOrder.lift' bytes bytes_injective

def isDirectory (name : EntryName) : Bool := name.bytes.getLast? = some slash

def directory? (bytes : Bytes) : Option EntryName :=
  if h : IsEntryName bytes ∧ bytes.getLast? = some slash then some ⟨bytes, h.1⟩ else none

/-- The directories above an entry, the outermost first. -/
def parents (name : EntryName) : List EntryName :=
  (List.range name.bytes.length).filterMap fun length => directory? (name.bytes.take length)

theorem directory?_eq_some {bytes : Bytes} {d : EntryName} :
    directory? bytes = some d ↔ d.bytes = bytes ∧ d.isDirectory = true := by
  rw [directory?]
  constructor
  · intro found
    split at found
    · next h =>
      cases found
      exact ⟨rfl, decide_eq_true h.2⟩
    · cases found
  · rintro ⟨rfl, directory⟩
    rw [dif_pos ⟨d.wellFormed, of_decide_eq_true directory⟩]

theorem mem_parents {name d : EntryName} :
    d ∈ name.parents ↔ d.isDirectory = true ∧ d.bytes <+: name.bytes ∧ d ≠ name := by
  simp only [parents, List.mem_filterMap, List.mem_range, directory?_eq_some]
  constructor
  · rintro ⟨length, short, taken, directory⟩
    refine ⟨directory, taken ▸ List.take_prefix _ _, fun same => ?_⟩
    rw [same] at taken
    have full := congrArg List.length taken
    rw [List.length_take, min_eq_left short.le] at full
    exact short.ne' full
  · rintro ⟨directory, before, differs⟩
    refine ⟨d.bytes.length, lt_of_le_of_ne before.length_le fun full => ?_,
      List.prefix_iff_eq_take.mp before, directory⟩
    exact differs (bytes_injective (before.eq_of_length full))

theorem parents_trans {name d outer : EntryName} (above : d ∈ name.parents)
    (outermost : outer ∈ d.parents) : outer ∈ name.parents := by
  obtain ⟨_, before, _⟩ := mem_parents.mp above
  obtain ⟨directory, outerBefore, differs⟩ := mem_parents.mp outermost
  refine mem_parents.mpr ⟨directory, outerBefore.trans before, fun same => ?_⟩
  rw [← same] at before
  exact differs (bytes_injective (outerBefore.eq_of_length_le before.length_le))

theorem lt_of_mem_parents {name d : EntryName} (above : d ∈ name.parents) : d < name := by
  obtain ⟨_, before, differs⟩ := mem_parents.mp above
  exact lt_of_le_of_ne (le_of_isPrefix before) differs

theorem parents_sorted (name : EntryName) : name.parents.Pairwise (· ≤ ·) := by
  rw [parents, List.pairwise_filterMap]
  refine List.pairwise_lt_range.imp fun less d outer e inner => le_of_isPrefix ?_
  rw [(directory?_eq_some.mp outer).1, (directory?_eq_some.mp inner).1]
  exact List.take_prefix_take_left (Nat.le_of_lt less)

/-- No entry name is a directory's name with another slash. -/
theorem not_append_slash {d name : EntryName} (directory : d.isDirectory = true) :
    name.bytes ≠ d.bytes ++ [slash] := by
  intro same
  obtain ⟨front, ends⟩ := List.getLast?_eq_some_iff.mp (of_decide_eq_true directory)
  refine name.wellFormed.single ⟨front, [], ?_⟩
  rw [same, ends]
  simp

end EntryName

/-! ## Trees -/

structure StagingTree where
  entries : OrderedMap EntryName Bytes
  parents : ∀ name, entries.contains name = true → ∀ d ∈ name.parents, entries.contains d = true
  oneKind : ∀ name other, entries.contains name = true → entries.contains other = true →
    other.bytes ≠ name.bytes ++ [slash]
  directory : ∀ name bytes, entries.find? name = some bytes → name.isDirectory = true → bytes = []

namespace StagingTree

def empty : StagingTree :=
  ⟨.empty, by simp [OrderedMap.contains], by simp [OrderedMap.contains], by simp⟩

def find? (tree : StagingTree) (name : EntryName) : Option Bytes := tree.entries.find? name

def contains (tree : StagingTree) (name : EntryName) : Bool := (tree.find? name).isSome

theorem mem_keys {tree : StagingTree} {name : EntryName} :
    name ∈ tree.entries.entries.map Prod.fst ↔ tree.contains name = true := by
  rw [contains, Option.isSome_iff_exists, List.mem_map]
  constructor
  · rintro ⟨⟨name, bytes⟩, mem, rfl⟩
    exact ⟨bytes, OrderedMap.find?_eq_some.mpr mem⟩
  · rintro ⟨bytes, found⟩
    exact ⟨(name, bytes), OrderedMap.find?_eq_some.mp found, rfl⟩

theorem find?_of_directory {tree : StagingTree} {d : EntryName} (held : tree.contains d = true)
    (directory : d.isDirectory = true) : tree.find? d = some [] := by
  obtain ⟨bytes, found⟩ := Option.isSome_iff_exists.mp held
  rw [found, tree.directory d bytes found directory]

/-! ### Removing -/

/-- `fs::is_empty` of a directory; nothing is below a file. -/
def isEmptyDirectory (tree : StagingTree) (name : EntryName) : Bool :=
  tree.entries.entries.all fun entry => !entry.1.parents.contains name

theorem isEmptyDirectory_iff {tree : StagingTree} {name : EntryName} :
    tree.isEmptyDirectory name = true ↔ ∀ other, tree.contains other = true →
      name ∉ other.parents := by
  simp only [isEmptyDirectory, List.all_eq_true, Bool.not_eq_true', List.contains_eq_mem,
    decide_eq_false_iff_not]
  constructor
  · intro empty other held
    obtain ⟨entry, mem, rfl⟩ := List.mem_map.mp (mem_keys.mpr held)
    exact empty entry mem
  · exact fun empty entry mem => empty entry.1 (mem_keys.mp (List.mem_map_of_mem mem))

theorem isEmptyDirectory_of_file {tree : StagingTree} {name : EntryName}
    (file : name.isDirectory = false) : tree.isEmptyDirectory name = true :=
  isEmptyDirectory_iff.mpr fun _ _ above =>
    Bool.false_ne_true (file.symm.trans (EntryName.mem_parents.mp above).1)

/-- `fs::remove`: a directory that holds something stays. -/
def remove (tree : StagingTree) (name : EntryName) : StagingTree :=
  if alone : tree.isEmptyDirectory name = true then
    { entries := tree.entries.erase name
      parents := by
        intro other held d above
        rw [OrderedMap.contains_erase] at held ⊢
        simp only [Bool.and_eq_true, decide_eq_true_eq] at held ⊢
        refine ⟨fun same => ?_, tree.parents other held.2 d above⟩
        exact isEmptyDirectory_iff.mp alone other held.2 (same ▸ above)
      oneKind := by
        intro a b heldA heldB
        rw [OrderedMap.contains_erase, Bool.and_eq_true] at heldA heldB
        exact tree.oneKind a b heldA.2 heldB.2
      directory := by
        intro other bytes found
        rw [OrderedMap.find?_erase] at found
        split at found
        · cases found
        · exact tree.directory other bytes found }
  else tree

theorem find?_remove {tree : StagingTree} {name : EntryName}
    (alone : tree.isEmptyDirectory name = true) (other : EntryName) :
    (tree.remove name).find? other = if other = name then none else tree.find? other := by
  rw [remove, dif_pos alone]
  exact OrderedMap.find?_erase tree.entries name other

/-! ### Putting entries -/

/-- An entry of the other kind stands at the path of `name`. -/
def OtherKind (name other : EntryName) : Prop :=
  name.bytes = other.bytes ++ [slash] ∨ other.bytes = name.bytes ++ [slash]

instance (name other : EntryName) : Decidable (OtherKind name other) :=
  inferInstanceAs (Decidable (_ ∨ _))

/-- Writes an entry; refused where an entry of the other kind is in its place or
the directory above is missing. -/
def put (tree : StagingTree) (name : EntryName) (bytes : Bytes) : Option StagingTree :=
  if clear : ∀ entry ∈ tree.entries.entries, ¬OtherKind name entry.1 then
    if rooted : ∀ d ∈ name.parents, tree.contains d = true then
      some
        { entries := tree.entries.insert name (if name.isDirectory then [] else bytes)
          parents := by
            intro other held d above
            rw [OrderedMap.contains_insert, Bool.or_eq_true, decide_eq_true_eq] at held ⊢
            rcases held with rfl | held
            · exact .inr (rooted d above)
            · exact .inr (tree.parents other held d above)
          oneKind := by
            have apart : ∀ other, tree.contains other = true → ¬OtherKind name other := by
              intro other held
              obtain ⟨entry, mem, rfl⟩ := List.mem_map.mp (mem_keys.mpr held)
              exact clear entry mem
            intro a b heldA heldB same
            rw [OrderedMap.contains_insert, Bool.or_eq_true, decide_eq_true_eq] at heldA heldB
            rcases heldA with rfl | heldA
            · rcases heldB with rfl | heldB
              · simpa using congrArg List.length same
              · exact apart b heldB (.inr same)
            · rcases heldB with rfl | heldB
              · exact apart a heldA (.inl same)
              · exact tree.oneKind a b heldA heldB same
          directory := by
            intro other stored found isDirectory
            rw [OrderedMap.find?_insert] at found
            split at found
            · next same =>
              rw [← same, if_pos isDirectory] at found
              exact (Option.some.inj found).symm
            · exact tree.directory other stored found isDirectory }
    else none
  else none

theorem put_eq_some {tree after : StagingTree} {name : EntryName} {bytes : Bytes}
    (done : tree.put name bytes = some after) (other : EntryName) :
    after.find? other =
      if other = name then some (if name.isDirectory then [] else bytes) else tree.find? other := by
  unfold put at done
  split at done
  · split at done
    · cases done
      exact OrderedMap.find?_insert tree.entries name other _
    · cases done
  · cases done

theorem exists_put {tree : StagingTree} {name : EntryName} (bytes : Bytes)
    (clear : ∀ other, tree.contains other = true → ¬OtherKind name other)
    (rooted : ∀ d ∈ name.parents, tree.contains d = true) :
    ∃ after, tree.put name bytes = some after := by
  have clearEntries : ∀ entry ∈ tree.entries.entries, ¬OtherKind name entry.1 :=
    fun entry mem => clear entry.1 (mem_keys.mp (List.mem_map_of_mem mem))
  rw [put, dif_pos clearEntries, dif_pos rooted]
  exact ⟨_, rfl⟩

/-- One level of `fs::create_directories`: a directory that is there is left. -/
def createDirectory (tree : StagingTree) (d : EntryName) : Option StagingTree :=
  if tree.contains d then some tree else tree.put d []

/-- Creates directories one after the other. -/
def createDirectories (tree : StagingTree) (ds : List EntryName) : Option StagingTree :=
  ds.foldlM createDirectory tree

theorem createDirectories_cons {tree after : StagingTree} {d : EntryName} {ds : List EntryName} :
    tree.createDirectories (d :: ds) = some after ↔
      ∃ next, tree.createDirectory d = some next ∧ next.createDirectories ds = some after :=
  Option.bind_eq_some_iff

theorem createDirectory_eq_some {tree after : StagingTree} {d : EntryName}
    (done : tree.createDirectory d = some after) (other : EntryName) :
    after.find? other = if other = d ∧ tree.contains d = false then some [] else tree.find? other := by
  unfold createDirectory at done
  split at done
  · next held =>
    cases done
    rw [if_neg fun missing => Bool.false_ne_true (missing.2.symm.trans held)]
  · next missing =>
    rw [put_eq_some done other, ite_self]
    simp [missing]

end StagingTree

end Svp.Builder
