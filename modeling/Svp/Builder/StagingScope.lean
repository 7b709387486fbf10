import Svp.Exec.Digest

/-!
# Staging scopes

A scope is a list of path prefixes. It covers the paths that start with one of them, and
two scopes overlap exactly where some path is covered by both (`scopesOverlap_iff`).
-/

namespace Svp.Builder

open Exec (Bytes)

structure StagingScope where
  prefixes : List Bytes
deriving DecidableEq

def scopeCovers (scope : StagingScope) (relativePath : Bytes) : Bool :=
  scope.prefixes.any fun start => start.isPrefixOf relativePath

def scopesOverlap (left right : StagingScope) : Bool :=
  left.prefixes.any fun a => right.prefixes.any fun b => b.isPrefixOf a || a.isPrefixOf b

theorem scopeCovers_iff {scope : StagingScope} {path : Bytes} :
    scopeCovers scope path = true ↔ ∃ start ∈ scope.prefixes, start <+: path := by
  simp [scopeCovers]

/-- What a scope covers, it covers with everything that starts with it. -/
theorem scopeCovers_of_prefix {scope : StagingScope} {path longer : Bytes}
    (covers : scopeCovers scope path = true) (extends_ : path <+: longer) :
    scopeCovers scope longer = true := by
  obtain ⟨start, mem, before⟩ := scopeCovers_iff.mp covers
  exact scopeCovers_iff.mpr ⟨start, mem, before.trans extends_⟩

/-- Two scopes overlap where a path is covered by both: the longer of two prefixes is. -/
theorem scopesOverlap_iff {left right : StagingScope} : scopesOverlap left right = true ↔
    ∃ path, scopeCovers left path = true ∧ scopeCovers right path = true := by
  simp only [scopesOverlap, List.any_eq_true, Bool.or_eq_true, List.isPrefixOf_iff_prefix]
  constructor
  · rintro ⟨a, memA, b, memB, shorter | shorter⟩
    · exact ⟨a, scopeCovers_iff.mpr ⟨a, memA, List.prefix_rfl⟩,
        scopeCovers_iff.mpr ⟨b, memB, shorter⟩⟩
    · exact ⟨b, scopeCovers_iff.mpr ⟨a, memA, shorter⟩,
        scopeCovers_iff.mpr ⟨b, memB, List.prefix_rfl⟩⟩
  · rintro ⟨path, coversLeft, coversRight⟩
    obtain ⟨a, memA, beforeA⟩ := scopeCovers_iff.mp coversLeft
    obtain ⟨b, memB, beforeB⟩ := scopeCovers_iff.mp coversRight
    exact ⟨a, memA, b, memB, (List.prefix_or_prefix_of_prefix beforeA beforeB).symm⟩

end Svp.Builder
