import Svp.Lib.System
import Svp.Builder.StageTaskPlan

/-!
# Runs of the stage tasks

An executor with some number of slots starts a stage once the stages it depends on have
finished; a stage that fails may be started again. The stages that run at once never depend
on one another, also through others (`StageRun.Sound.independent`), and any such stages can be made
to run at once (`exists_run`).
-/

namespace Svp.Builder

open Lib (System)

variable {tasks : List PlannedStageTask}

/-- None of the tasks depends on another one, also through others. -/
def Independent (tasks : List PlannedStageTask) (A : Finset (Fin tasks.length)) : Prop :=
  ∀ a ∈ A, ∀ b ∈ A, a ≠ b → ¬ Chain tasks a b

structure StageRun (n : Nat) where
  finished : Finset (Fin n)
  running : Finset (Fin n)

namespace StageRun

variable {n : Nat}

def start (run : StageRun n) (i : Fin n) : StageRun n :=
  { run with running := insert i run.running }

def finish (run : StageRun n) (i : Fin n) : StageRun n :=
  { finished := insert i run.finished, running := run.running.erase i }

def fail (run : StageRun n) (i : Fin n) : StageRun n :=
  { run with running := run.running.erase i }

end StageRun

/-- Neither started nor finished, and all it depends on has finished. -/
def Ready (tasks : List PlannedStageTask) (run : StageRun tasks.length)
    (i : Fin tasks.length) : Prop :=
  i ∉ run.finished ∧ i ∉ run.running ∧ ∀ j : Fin tasks.length, DependsOn tasks i j →
    j ∈ run.finished

inductive StageStep (tasks : List PlannedStageTask) (slots : Nat) :
    StageRun tasks.length → StageRun tasks.length → Prop
  | start {run i} : Ready tasks run i → run.running.card < slots →
      StageStep tasks slots run (run.start i)
  | finish {run i} : i ∈ run.running → StageStep tasks slots run (run.finish i)
  | fail {run i} : i ∈ run.running → StageStep tasks slots run (run.fail i)

def stageRuns (tasks : List PlannedStageTask) (slots : Nat) : System (StageRun tasks.length) where
  init run := run = ⟨∅, ∅⟩
  step := StageStep tasks slots

/-! ## What runs at once -/

/-- What has started had all it depends on finished, and is finished or runs. -/
structure StageRun.Sound (run : StageRun tasks.length) : Prop where
  apart : ∀ i ∈ run.running, i ∉ run.finished
  before : ∀ i ∈ run.finished ∪ run.running, ∀ j : Fin tasks.length, DependsOn tasks i j →
    j ∈ run.finished

theorem StageStep.sound {slots : Nat} {run run' : StageRun tasks.length}
    (step : StageStep tasks slots run run') (sound : run.Sound) : run'.Sound := by
  obtain ⟨apart, before⟩ := sound
  cases step with
  | @start i ready room =>
    refine ⟨fun k mem => ?_, fun k mem j depends => ?_⟩
    · rcases Finset.mem_insert.mp mem with rfl | old
      · exact ready.1
      · exact apart k old
    · rw [StageRun.start, Finset.union_insert, Finset.mem_insert] at mem
      rcases mem with rfl | old
      · exact ready.2.2 j depends
      · exact before k old j depends
  | @finish i mem =>
    refine ⟨fun k other done => ?_, fun k started j depends => Finset.mem_insert_of_mem ?_⟩
    · obtain ⟨ne, runs⟩ := Finset.mem_erase.mp other
      exact apart k runs ((Finset.mem_insert.mp done).resolve_left ne)
    · refine before k ?_ j depends
      rcases Finset.mem_union.mp started with done | runs
      · rcases Finset.mem_insert.mp done with rfl | old
        · exact Finset.mem_union_right _ mem
        · exact Finset.mem_union_left _ old
      · exact Finset.mem_union_right _ (Finset.mem_of_mem_erase runs)
  | @fail i mem =>
    refine ⟨fun k other => apart k (Finset.mem_of_mem_erase other), fun k started => ?_⟩
    exact before k (Finset.union_subset_union_right (Finset.erase_subset i _) started)

theorem reachable_sound {slots : Nat} {run : StageRun tasks.length}
    (reachable : (stageRuns tasks slots).Reachable run) : run.Sound := by
  refine reachable.invariant (P := StageRun.Sound) ?_ fun _ _ _ sound step =>
    StageStep.sound step sound
  rintro _ rfl
  exact ⟨fun i mem => absurd mem (Finset.notMem_empty i),
    fun i mem => absurd mem (Finset.notMem_empty i)⟩

/-- All a started task depends on, also through others, has finished. -/
theorem StageRun.Sound.finished_of_chain {run : StageRun tasks.length} (sound : run.Sound)
    {i j : Fin tasks.length} (mem : i ∈ run.finished ∪ run.running) (chain : Chain tasks i j) :
    j ∈ run.finished := by
  have general : ∀ k, Chain tasks i k → ∃ bound : k < tasks.length, ⟨k, bound⟩ ∈ run.finished := by
    intro k chain
    have bounded : ∀ {a b}, DependsOn tasks a b → b < tasks.length := by
      rintro a b ⟨_, _, _, at_, _⟩
      exact (List.getElem?_eq_some_iff.mp at_).1
    induction chain with
    | single depends => exact ⟨bounded depends, sound.before i mem ⟨_, bounded depends⟩ depends⟩
    | tail _ depends ih =>
      obtain ⟨_, done⟩ := ih
      exact ⟨bounded depends, sound.before _ (Finset.mem_union_left _ done) ⟨_, bounded depends⟩
        depends⟩
  exact (general j chain).2

theorem StageRun.Sound.independent {run : StageRun tasks.length} (sound : run.Sound) :
    Independent tasks run.running := fun _ memA b memB _ chain =>
  sound.apart b memB (sound.finished_of_chain (Finset.mem_union_right _ memA) chain)

/-- A ready task is independent of those that run. -/
theorem StageRun.Sound.independent_start {run : StageRun tasks.length} (sound : run.Sound)
    {i : Fin tasks.length} (ready : Ready tasks run i) :
    Independent tasks (run.start i).running :=
  StageRun.Sound.independent ((StageStep.start ready (Nat.lt_succ_self _)).sound sound)

/-! ## Running independent tasks at once -/

open Classical in
/-- The tasks some task of the set depends on, also through others. -/
noncomputable def below (tasks : List PlannedStageTask) (A : Finset (Fin tasks.length)) :
    Finset (Fin tasks.length) :=
  Finset.univ.filter fun j => ∃ a ∈ A, Chain tasks a j

theorem mem_below {A : Finset (Fin tasks.length)} {j : Fin tasks.length} :
    j ∈ below tasks A ↔ ∃ a ∈ A, Chain tasks a j := by
  classical
  rw [below, Finset.mem_filter]
  exact and_iff_right (Finset.mem_univ j)

theorem dependsOn_mem_below {A : Finset (Fin tasks.length)} {i j : Fin tasks.length}
    (mem : i ∈ A ∪ below tasks A) (depends : DependsOn tasks i j) : j ∈ below tasks A := by
  rcases Finset.mem_union.mp mem with top | under
  · exact mem_below.mpr ⟨i, top, .single depends⟩
  · obtain ⟨a, memA, chain⟩ := mem_below.mp under
    exact mem_below.mpr ⟨a, memA, chain.tail depends⟩

/-- The tasks below the set finish one after another, in the order of the plan. -/
theorem reachable_finished (plan : IsPlan tasks) (A : Finset (Fin tasks.length)) {slots : Nat}
    (room : 0 < slots) (k : Nat) : (stageRuns tasks slots).Reachable
      ⟨(below tasks A).filter fun j => (j : Nat) < k, ∅⟩ := by
  induction k with
  | zero =>
    refine .start ?_
    simp only [Nat.not_lt_zero, Finset.filter_false, stageRuns]
  | succ k ih =>
    by_cases inside : ∃ bound : k < tasks.length, (⟨k, bound⟩ : Fin tasks.length) ∈ below tasks A
    · obtain ⟨bound, mem⟩ := inside
      have ready : Ready tasks ⟨(below tasks A).filter fun j => (j : Nat) < k, ∅⟩ ⟨k, bound⟩ := by
        refine ⟨fun done => ?_, Finset.notMem_empty _, fun j depends => ?_⟩
        · exact absurd (Finset.mem_filter.mp done).2 (Nat.lt_irrefl k)
        · exact Finset.mem_filter.mpr ⟨dependsOn_mem_below (Finset.mem_union_right _ mem) depends,
            plan.dependsOn_lt depends⟩
      have started := ih.next (StageStep.start ready room)
      have finished := started.next (StageStep.finish (Finset.mem_insert_self _ _))
      convert finished using 1
      refine congrArg₂ StageRun.mk ?_ (Finset.erase_insert (Finset.notMem_empty _)).symm
      ext j
      rw [StageRun.start, Finset.mem_insert, Finset.mem_filter, Finset.mem_filter,
        Nat.lt_succ_iff_lt_or_eq]
      constructor
      · rintro ⟨memJ, before | same⟩
        · exact .inr ⟨memJ, before⟩
        · exact .inl (Fin.ext same)
      · rintro (rfl | ⟨memJ, before⟩)
        · exact ⟨mem, .inr rfl⟩
        · exact ⟨memJ, .inl before⟩
    · convert ih using 2
      refine Finset.filter_congr fun j mem => Nat.lt_succ_iff_lt_or_eq.trans (or_iff_left ?_)
      rintro rfl
      exact inside ⟨j.isLt, mem⟩

/-- With a slot for each, independent tasks can all run at once. -/
theorem exists_run (plan : IsPlan tasks) {A : Finset (Fin tasks.length)}
    (independent : Independent tasks A) :
    ∃ run, (stageRuns tasks A.card).Reachable run ∧ run.running = A := by
  rcases A.eq_empty_or_nonempty with rfl | nonempty
  · exact ⟨⟨∅, ∅⟩, .start rfl, rfl⟩
  · have away : ∀ a ∈ A, a ∉ below tasks A := by
      intro a mem under
      obtain ⟨a', mem', chain⟩ := mem_below.mp under
      by_cases same : a' = a
      · exact absurd (plan.chain_lt (same ▸ chain)) (Nat.lt_irrefl a)
      · exact independent a' mem' a mem same chain
    have base : (stageRuns tasks A.card).Reachable ⟨below tasks A, ∅⟩ := by
      have done := reachable_finished plan A nonempty.card_pos tasks.length
      rwa [Finset.filter_true_of_mem fun j _ => j.isLt] at done
    -- One after another of the set starts.
    have grow : ∀ B ⊆ A, (stageRuns tasks A.card).Reachable ⟨below tasks A, B⟩ := by
      intro B
      induction B using Finset.induction_on with
      | empty => exact fun _ => base
      | insert a B new ih =>
        intro sub
        obtain ⟨memA, subB⟩ := Finset.insert_subset_iff.mp sub
        have ready : Ready tasks ⟨below tasks A, B⟩ a :=
          ⟨away a memA, new, fun j => dependsOn_mem_below (Finset.mem_union_left _ memA)⟩
        have fewer : B.card < A.card :=
          (Finset.card_lt_card (Finset.ssubset_insert new)).trans_le (Finset.card_le_card sub)
        exact (ih subB).next (StageStep.start ready fewer)
    exact ⟨_, grow A subset_rfl, rfl⟩

end Svp.Builder
