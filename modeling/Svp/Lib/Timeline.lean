import Mathlib

/-!
# Items that follow each other in time

`Timeline` says of a list of items with a start and a stop that each has a positive
length and stops before the next starts. `cutAt` makes room from a point on: later items
go, and one that reaches past the point is trimmed to stop there.
-/

namespace Svp.Lib

section Timeline

variable {α ι : Type*} [LinearOrder ι] (start stop : α → ι)

structure Timeline (items : List α) : Prop where
  positive : ∀ x ∈ items, start x < stop x
  apart : items.Pairwise fun x y => stop x ≤ start y

/-- Drops from the end while the items start at `seam` or later. -/
def dropFrom (seam : ι) (items : List α) : List α := items.rdropWhile fun x => seam ≤ start x

/-- The last item stops at `seam` at the latest. -/
def trimLast (setStop : α → ι → α) (seam : ι) (items : List α) : List α :=
  match items.getLast? with
  | some last => if seam < stop last then items.dropLast ++ [setStop last seam] else items
  | none => items

def cutAt (setStop : α → ι → α) (seam : ι) (items : List α) : List α :=
  trimLast stop setStop seam (dropFrom start seam items)

variable {start stop}

theorem Timeline.nil : Timeline start stop ([] : List α) := ⟨nofun, .nil⟩

theorem Timeline.sublist {items kept : List α} (line : Timeline start stop items)
    (sub : kept.Sublist items) : Timeline start stop kept :=
  ⟨fun x mem => line.positive x (sub.subset mem), line.apart.sublist sub⟩

theorem Timeline.append {items later : List α} (line : Timeline start stop items)
    (line' : Timeline start stop later) {seam : ι} (before : ∀ x ∈ items, stop x ≤ seam)
    (after : ∀ x ∈ later, seam ≤ start x) : Timeline start stop (items ++ later) where
  positive x mem := (List.mem_append.mp mem).elim (line.positive x) (line'.positive x)
  apart := List.pairwise_append.mpr
    ⟨line.apart, line'.apart, fun x mem y mem' => (before x mem).trans (after y mem')⟩

theorem Timeline.starts_sorted {items : List α} (line : Timeline start stop items) :
    items.Pairwise fun x y => start x < start y :=
  line.apart.imp_of_mem fun mem _ apart => (line.positive _ mem).trans_le apart

theorem dropFrom_subset (seam : ι) (items : List α) : dropFrom start seam items ⊆ items :=
  (List.rdropWhile_prefix _ _).subset

/-- In a timeline every item behind one that starts late starts late. -/
theorem Timeline.dropFrom_lt {items : List α} (line : Timeline start stop items) (seam : ι) :
    ∀ x ∈ dropFrom start seam items, start x < seam := by
  induction items using List.reverseRecOn with
  | nil => simp [dropFrom]
  | append_singleton items last ih =>
    have front := line.sublist (List.sublist_append_left items [last])
    rw [dropFrom, List.rdropWhile_concat]
    split_ifs with late
    · exact ih front
    · have early : start last < seam := by simpa using late
      intro x mem
      rcases List.mem_append.mp mem with mem | mem
      · have le := (List.pairwise_append.mp line.apart).2.2 x mem last (List.mem_singleton_self _)
        exact ((front.positive x mem).trans_le le).trans early
      · cases List.mem_singleton.mp mem
        exact early

theorem mem_dropFrom {seam : ι} {items : List α} {x : α} (mem : x ∈ items)
    (early : start x < seam) : x ∈ dropFrom start seam items := by
  induction items using List.reverseRecOn with
  | nil => cases mem
  | append_singleton items last ih =>
    rw [dropFrom, List.rdropWhile_concat]
    split_ifs with late
    · rcases List.mem_append.mp mem with mem | mem
      · exact ih mem
      · cases List.mem_singleton.mp mem
        exact absurd early (not_lt.mpr (by simpa using late))
    · exact mem

variable {setStop : α → ι → α}

/-- An item of the trimmed list is one of the list, or its last one trimmed. -/
theorem mem_trimLast {seam : ι} {items : List α} {x : α}
    (mem : x ∈ trimLast stop setStop seam items) :
    x ∈ items ∨ ∃ last ∈ items, seam < stop last ∧ x = setStop last seam := by
  rw [trimLast] at mem
  cases isLast : items.getLast? with
  | none =>
    rw [isLast] at mem
    exact .inl mem
  | some last =>
    rw [isLast] at mem
    dsimp only at mem
    split_ifs at mem with reaches
    · rcases List.mem_append.mp mem with mem | mem
      · exact .inl (List.mem_of_mem_dropLast mem)
      · exact .inr ⟨last, List.mem_of_getLast? isLast, reaches, List.mem_singleton.mp mem⟩
    · exact .inl mem

theorem mem_trimLast_of_le {seam : ι} {items : List α} {x : α} (mem : x ∈ items)
    (before : stop x ≤ seam) : x ∈ trimLast stop setStop seam items := by
  rw [trimLast]
  cases isLast : items.getLast? with
  | none => exact mem
  | some last =>
    dsimp only
    split_ifs with reaches
    · have split := List.dropLast_append_getLast? last isLast
      rw [← split] at mem
      rcases List.mem_append.mp mem with mem | mem
      · exact List.mem_append_left _ mem
      · cases List.mem_singleton.mp mem
        exact absurd before (not_le.mpr reaches)
    · exact mem

section Cut

variable (start_setStop : ∀ x seam, start (setStop x seam) = start x)
  (stop_setStop : ∀ x seam, stop (setStop x seam) = seam)

include start_setStop stop_setStop

/-- A timeline cut at a point is a timeline that stops there. -/
theorem Timeline.cutAt {items : List α} (line : Timeline start stop items) (seam : ι) :
    Timeline start stop (cutAt start stop setStop seam items) ∧
      ∀ x ∈ Lib.cutAt start stop setStop seam items, stop x ≤ seam := by
  have early := line.dropFrom_lt seam
  have kept := line.sublist (List.rdropWhile_prefix (fun x => decide (seam ≤ start x)) items).sublist
  rw [Lib.cutAt, trimLast]
  cases isLast : (dropFrom start seam items).getLast? with
  | none =>
    have nothing := List.getLast?_eq_none_iff.mp isLast
    rw [nothing]
    exact ⟨.nil, nofun⟩
  | some last =>
    have split := List.dropLast_append_getLast? last isLast
    have isKept : Timeline start stop (dropFrom start seam items) := kept
    have among : last ∈ dropFrom start seam items := List.mem_of_getLast? isLast
    have front := isKept.sublist (List.dropLast_sublist _)
    have apart : ∀ x ∈ (dropFrom start seam items).dropLast, stop x ≤ start last := by
      intro x mem
      have pairs := isKept.apart
      rw [← split] at pairs
      exact (List.pairwise_append.mp pairs).2.2 x mem last (List.mem_singleton_self _)
    dsimp only
    split_ifs with reaches
    · have lastLine : Timeline start stop [setStop last seam] := by
        refine ⟨fun x mem => ?_, List.pairwise_singleton _ _⟩
        cases List.mem_singleton.mp mem
        rw [start_setStop, stop_setStop]
        exact early last among
      refine ⟨front.append lastLine apart fun x mem => ?_, fun x mem => ?_⟩
      · cases List.mem_singleton.mp mem
        rw [start_setStop]
      · rcases List.mem_append.mp mem with mem | mem
        · exact (apart x mem).trans (early last among).le
        · cases List.mem_singleton.mp mem
          rw [stop_setStop]
    · refine ⟨isKept, fun x mem => ?_⟩
      have before := not_lt.mp reaches
      rw [← split] at mem
      rcases List.mem_append.mp mem with mem | mem
      · exact (apart x mem).trans (early last among).le
      · cases List.mem_singleton.mp mem
        exact before

end Cut

/-- An item of the cut list is one of the list, or one of them trimmed. -/
theorem mem_cutAt {seam : ι} {items : List α} {x : α}
    (mem : x ∈ cutAt start stop setStop seam items) :
    x ∈ items ∨ ∃ y ∈ items, seam < stop y ∧ x = setStop y seam := by
  rcases mem_trimLast mem with kept | ⟨last, kept, reaches, rfl⟩
  · exact .inl (dropFrom_subset seam items kept)
  · exact .inr ⟨last, dropFrom_subset seam items kept, reaches, rfl⟩

/-- An item that stops before the cut stays as it is. -/
theorem Timeline.mem_cutAt_of_le {items : List α} (line : Timeline start stop items) {seam : ι}
    {x : α} (mem : x ∈ items) (before : stop x ≤ seam) :
    x ∈ Lib.cutAt start stop setStop seam items :=
  mem_trimLast_of_le (mem_dropFrom mem ((line.positive x mem).trans_le before)) before

end Timeline

end Svp.Lib
