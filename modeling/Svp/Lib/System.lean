import Mathlib

/-!
# Transition systems and their invariants

A `System` is a set of initial states and a step relation. This module packages
the two inductions every safety result rests on: what holds initially and is
kept by a step holds in every reachable state, and what a step keeps is kept
along a whole run. `System.guarded` restricts a system to the runs whose steps
all meet a condition on the states they join.
-/

namespace Svp.Lib

/-- Initial states and steps. -/
structure System (σ : Type*) where
  init : σ → Prop
  step : σ → σ → Prop

namespace System

variable {σ : Type*} (S : System σ)

/-- `S.Leads s t`: a run of zero or more steps takes `s` to `t`. -/
def Leads : σ → σ → Prop := Relation.ReflTransGen S.step

/-- The states some run from an initial state reaches. -/
def Reachable (t : σ) : Prop := ∃ s, S.init s ∧ S.Leads s t

/-- The system restricted to the steps that meet `guard`. -/
def guarded (guard : σ → σ → Prop) : System σ where
  init := S.init
  step s t := S.step s t ∧ guard s t

variable {S}

theorem Reachable.start {s : σ} (h : S.init s) : S.Reachable s :=
  ⟨s, h, .refl⟩

theorem Reachable.next {s t : σ} (h : S.Reachable s) (hst : S.step s t) : S.Reachable t := by
  obtain ⟨i, hi, hr⟩ := h
  exact ⟨i, hi, hr.tail hst⟩

theorem Reachable.run {s t : σ} (h : S.Reachable s) (hst : S.Leads s t) : S.Reachable t := by
  obtain ⟨i, hi, hr⟩ := h
  exact ⟨i, hi, Relation.ReflTransGen.trans hr hst⟩

/-- What holds initially and is kept by every step out of a reachable state
holds in every reachable state. -/
theorem Reachable.invariant {P : σ → Prop} (hinit : ∀ s, S.init s → P s)
    (hstep : ∀ s t, S.Reachable s → P s → S.step s t → P t) {t : σ}
    (h : S.Reachable t) : P t := by
  obtain ⟨s, hs, hr⟩ := h
  induction hr with
  | refl => exact hinit s hs
  | tail hab hbc ih => exact hstep _ _ ⟨s, hs, hab⟩ ih hbc

/-- What a step keeps is kept along a run. -/
theorem Leads.preserves {P : σ → Prop} (hstep : ∀ s t, P s → S.step s t → P t) {s t : σ}
    (h : S.Leads s t) (hs : P s) : P t := by
  induction h with
  | refl => exact hs
  | tail _ hbc ih => exact hstep _ _ ih hbc

/-- As `Leads.preserves`, with the reachability of the states on the way. -/
theorem Leads.preserves_reachable {P : σ → Prop}
    (hstep : ∀ s t, S.Reachable s → P s → S.step s t → P t) {s t : σ}
    (hr : S.Reachable s) (h : S.Leads s t) (hs : P s) : P t := by
  induction h with
  | refl => exact hs
  | tail hab hbc ih => exact hstep _ _ (hr.run hab) ih hbc

theorem guarded_leads {guard : σ → σ → Prop} {s t : σ} (h : (S.guarded guard).Leads s t) :
    S.Leads s t :=
  Relation.ReflTransGen.mono (fun _ _ hst => hst.1) _ _ h

theorem guarded_reachable {guard : σ → σ → Prop} {t : σ} (h : (S.guarded guard).Reachable t) :
    S.Reachable t := by
  obtain ⟨s, hs, hr⟩ := h
  exact ⟨s, hs, guarded_leads hr⟩

end System

/-! ## Runs of a step function -/

/-- Every step of the run of `step` over `inputs` from `s` meets `guard`. -/
def Along {σ ι : Type*} (step : σ → ι → σ) (guard : σ → ι → Prop) : σ → List ι → Prop
  | _, [] => True
  | s, i :: rest => guard s i ∧ Along step guard (step s i) rest

instance Along.decidable {σ ι : Type*} (step : σ → ι → σ) (guard : σ → ι → Prop)
    [∀ s i, Decidable (guard s i)] : ∀ (s : σ) (inputs : List ι), Decidable (Along step guard s inputs)
  | _, [] => .isTrue trivial
  | s, i :: rest =>
    have := Along.decidable step guard (step s i) rest
    inferInstanceAs (Decidable (guard s i ∧ Along step guard (step s i) rest))

/-- What holds before the first input, and is kept by every step that meets the
guard, holds after the run; `P` knows the inputs so far. -/
theorem Along.invariant {σ ι : Type*} {step : σ → ι → σ} {guard : σ → ι → Prop} {s : σ}
    {inputs : List ι} (run : Along step guard s inputs) {P : List ι → σ → Prop} (start : P [] s)
    (kept : ∀ done s i, i ∈ inputs → P done s → guard s i → P (done ++ [i]) (step s i)) :
    P inputs (inputs.foldl step s) := by
  suffices general : ∀ done s rest, P done s → Along step guard s rest →
      (∀ i ∈ rest, i ∈ inputs) → P (done ++ rest) (rest.foldl step s) from
    general [] s inputs start run fun _ mem => mem
  intro done s rest
  induction rest generalizing done s with
  | nil =>
    intro holds _ _
    rwa [List.append_nil]
  | cons i rest ih =>
    intro holds run given
    rw [List.append_cons]
    refine ih _ _ (kept done s i (given i (by simp)) holds run.1) run.2 fun j mem => ?_
    exact given j (List.mem_cons_of_mem _ mem)

end Svp.Lib
