import Mathlib

/-!
# Extents of sequences

`Spans ts lo hi` says that `lo` is the least and `hi` the greatest of `ts`. A sorted
sequence spans its ends (`spans_of_sorted`), and what is appended to a sequence
without beginning before it or ending before it moves the far end only
(`Spans.append`).

A `Running` extent is what a loop keeps of a sequence in three variables: the count,
the value seen first and the value seen last. It is the extent of a sequence read in
such pieces (`Running.Exact.foldl_observe`); a piece that begins or ends before the others
breaks it.
-/

namespace Svp.Lib

variable {α : Type*} [LinearOrder α]

/-- The least and the greatest of a sequence. -/
structure Spans (ts : List α) (lo hi : α) : Prop where
  least : IsLeast {t | t ∈ ts} lo
  greatest : IsGreatest {t | t ∈ ts} hi

theorem Spans.perm {ts us : List α} {lo hi : α} (same : ts.Perm us) (h : Spans ts lo hi) :
    Spans us lo hi := by
  have mem : {t | t ∈ ts} = {t | t ∈ us} := Set.ext fun t => same.mem_iff
  exact ⟨mem ▸ h.least, mem ▸ h.greatest⟩

theorem Spans.append {ts us : List α} {lo hi first last : α} (h : Spans ts lo hi)
    (h' : Spans us first last) (begins : lo ≤ first) (ends : hi ≤ last) :
    Spans (ts ++ us) lo last := by
  refine ⟨⟨List.mem_append_left _ h.least.1, fun t mem => ?_⟩,
    ⟨List.mem_append_right _ h'.greatest.1, fun t mem => ?_⟩⟩
  · rcases List.mem_append.mp mem with before | after
    · exact h.least.2 before
    · exact begins.trans (h'.least.2 after)
  · rcases List.mem_append.mp mem with before | after
    · exact (h.greatest.2 before).trans ends
    · exact h'.greatest.2 after

theorem spans_of_sorted {ts : List α} (sorted : ts.Pairwise (· ≤ ·)) (some : ts ≠ []) :
    Spans ts (ts.head some) (ts.getLast some) := by
  refine ⟨⟨List.head_mem some, fun t mem => ?_⟩, ⟨List.getLast_mem some, fun t mem => ?_⟩⟩
  · exact sorted.rel_head mem
  · exact sorted.rel_getLast mem

/-- A count, the first value and the last. -/
structure Running (α : Type*) where
  count : Nat
  first : α
  last : α

namespace Running

def observe (r : Running α) (t : α) : Running α :=
  ⟨r.count + 1, if r.count = 0 then t else r.first, t⟩

/-- `r` counts `ts` and holds its extent. -/
structure Exact (r : Running α) (ts : List α) : Prop where
  count : r.count = ts.length
  spans : ts ≠ [] → Spans ts r.first r.last

theorem exact_empty (first last : α) : Exact ⟨0, first, last⟩ [] :=
  ⟨rfl, fun some => absurd rfl some⟩

omit [LinearOrder α] in
theorem foldl_observe (r : Running α) (t : α) (us : List α) :
    (t :: us).foldl observe r =
      ⟨r.count + (t :: us).length, if r.count = 0 then t else r.first,
        (t :: us).getLast (List.cons_ne_nil t us)⟩ := by
  induction us generalizing r t with
  | nil => rfl
  | cons u us ih =>
    rw [List.foldl_cons, ih, List.getLast_cons_cons]
    simp only [observe, Nat.add_eq_zero_iff, one_ne_zero, and_false, if_false, List.length_cons]
    rw [Nat.add_assoc, Nat.add_comm 1]

/-- A sorted piece that begins no earlier than the first value and ends no earlier
than the last keeps the extent. -/
theorem Exact.foldl_observe {r : Running α} {ts us : List α} (h : r.Exact ts)
    (sorted : us.Pairwise (· ≤ ·))
    (begins : ∀ first ∈ us.head?, 0 < r.count → r.first ≤ first)
    (ends : ∀ last ∈ us.getLast?, 0 < r.count → r.last ≤ last) :
    (us.foldl Running.observe r).Exact (ts ++ us) := by
  cases us with
  | nil => rwa [List.append_nil]
  | cons t us =>
    have piece := spans_of_sorted sorted (List.cons_ne_nil t us)
    rw [Running.foldl_observe]
    refine ⟨by rw [List.length_append, h.count], fun _ => ?_⟩
    cases ts with
    | nil =>
      have fresh : r.count = 0 := h.count
      simpa [fresh] using piece
    | cons t' ts =>
      have seen : 0 < r.count := h.count ▸ Nat.succ_pos _
      rw [if_neg seen.ne']
      refine (h.spans (List.cons_ne_nil t' ts)).append piece ?_ ?_
      · exact begins t rfl seen
      · exact ends _ (List.getLast?_eq_getLast_of_ne_nil _) seen

end Running

end Svp.Lib
