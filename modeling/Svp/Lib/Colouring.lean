import Mathlib

/-!
# Colouring with a budget

A backtracking search gives every point of a graph one of its choices, in the order of a
list, and counts the choices it tries. It sets a point back to blank when it leaves it,
and gives up for good once the budget is used.

What it finds is a colouring (`colour_outcome`, `found`); what it fails on without using
up the budget has none (`failed`); and where the first choices already are a colouring
it finds them (`colour_preferred`).
-/

namespace Svp.Lib

variable {V C : Type}

structure ColourSearch (V C : Type) where
  colours : V → C
  attempts : Nat
  exhausted : Bool

/-- What is to be coloured. The conflicts of a point are a list, as they are searched. -/
structure ColourProblem (V C : Type) where
  conflicts : V → List V
  choices : V → List C
  blank : C
  budget : Nat

section
variable [DecidableEq V] [DecidableEq C] (problem : ColourProblem V C)

/-- The choices of one point; `next` colours the points after it. -/
def tryChoices (v : V) (next : ColourSearch V C → Bool × ColourSearch V C) :
    List C → ColourSearch V C → Bool × ColourSearch V C
  | [], state => (false, state)
  | choice :: rest, state =>
    if problem.budget ≤ state.attempts then (false, { state with exhausted := true })
    else
      let counted := { state with attempts := state.attempts + 1 }
      if (problem.conflicts v).any fun w => decide (state.colours w = choice) then
        tryChoices v next rest counted
      else
        let result := next { counted with colours := Function.update state.colours v choice }
        if result.1 then result
        else
          let undone :=
            { result.2 with colours := Function.update result.2.colours v problem.blank }
          if undone.exhausted then (false, undone) else tryChoices v next rest undone

def colour : List V → ColourSearch V C → Bool × ColourSearch V C
  | [], state => (!state.exhausted, state)
  | v :: rest, state =>
    if state.exhausted then (false, state)
    else tryChoices problem v (colour rest) (problem.choices v) state

end

/-- Conflicts go both ways between different points, and no choice is blank. -/
structure ColourProblem.WellFormed (problem : ColourProblem V C) : Prop where
  symm : ∀ v w, w ∈ problem.conflicts v → v ∈ problem.conflicts w
  irrefl : ∀ v, v ∉ problem.conflicts v
  blank : ∀ v, problem.blank ∉ problem.choices v

/-- The points outside `rest` are coloured and apart, the others are blank. -/
structure PartialColouring (problem : ColourProblem V C) (rest : List V) (colours : V → C) : Prop where
  blank : ∀ v ∈ rest, colours v = problem.blank
  chosen : ∀ v, v ∉ rest → colours v ∈ problem.choices v
  apart : ∀ v, v ∉ rest → ∀ w ∈ problem.conflicts v, colours v ≠ colours w

def IsColouring (problem : ColourProblem V C) (colours : V → C) : Prop :=
  ∀ v, colours v ∈ problem.choices v ∧ ∀ w ∈ problem.conflicts v, colours v ≠ colours w

theorem isColouring_of_partial {problem : ColourProblem V C} {colours : V → C}
    (done : PartialColouring problem [] colours) : IsColouring problem colours :=
  fun v => ⟨done.chosen v List.not_mem_nil, done.apart v List.not_mem_nil⟩

/-- What colouring the points of `rest` comes to. -/
structure ColourOutcome (problem : ColourProblem V C) (rest : List V) (before : ColourSearch V C)
    (result : Bool × ColourSearch V C) : Prop where
  found : result.1 = true → IsColouring problem result.2.colours
  undone : result.1 = false → result.2.colours = before.colours
  failed : result.1 = false → result.2.exhausted = false →
    ∀ colouring, IsColouring problem colouring → ¬∀ v, v ∉ rest → colouring v = before.colours v

section
variable [DecidableEq V] {problem : ColourProblem V C}

/-- Colouring one more point, with a choice no conflict has. -/
theorem PartialColouring.update {v : V} {rest : List V} {colours : V → C} {choice : C}
    (wf : problem.WellFormed) (now : PartialColouring problem (v :: rest) colours) (fresh : v ∉ rest)
    (chosen : choice ∈ problem.choices v) (free : ∀ w ∈ problem.conflicts v, colours w ≠ choice) :
    PartialColouring problem rest (Function.update colours v choice) where
  blank w inRest := by
    have other : w ≠ v := fun same => fresh (same ▸ inRest)
    rw [Function.update_of_ne other]
    exact now.blank w (List.mem_cons_of_mem v inRest)
  chosen w outside := by
    rcases eq_or_ne w v with rfl | other
    · rwa [Function.update_self]
    · rw [Function.update_of_ne other]
      exact now.chosen w (List.not_mem_cons_of_ne_of_not_mem other outside)
  apart w outside u conflict := by
    rcases eq_or_ne w v with rfl | other
    · have distinct : u ≠ w := fun same => wf.irrefl w (same ▸ conflict)
      rw [Function.update_self, Function.update_of_ne distinct]
      exact (free u conflict).symm
    · rw [Function.update_of_ne other]
      rcases eq_or_ne u v with rfl | apart
      · rw [Function.update_self]
        exact free w (wf.symm w u conflict)
      · rw [Function.update_of_ne apart]
        exact now.apart w (List.not_mem_cons_of_ne_of_not_mem other outside) u conflict

theorem PartialColouring.blank_again {v : V} {rest : List V} {colours : V → C} (choice : C)
    (now : PartialColouring problem (v :: rest) colours) :
    Function.update (Function.update colours v choice) v problem.blank = colours := by
  rw [Function.update_idem, ← now.blank v List.mem_cons_self, Function.update_eq_self]

/-- Where the points after `v` fail, the choice they were tried with is out. -/
theorem ColourOutcome.excludes {v : V} {rest : List V} {before : ColourSearch V C}
    {result : Bool × ColourSearch V C} {colours colouring : V → C} {choice : C}
    (outcome : ColourOutcome problem rest before result)
    (placed : before.colours = Function.update colours v choice) (isFalse : result.1 = false)
    (stays : result.2.exhausted = false) (proper : IsColouring problem colouring)
    (extends_ : ∀ w, w ∉ v :: rest → colouring w = colours w) : colouring v ≠ choice := by
  intro same
  refine outcome.failed isFalse stays colouring proper fun w outside => ?_
  rw [placed]
  rcases eq_or_ne w v with rfl | other
  · rw [same, Function.update_self]
  · rw [Function.update_of_ne other]
    exact extends_ w (List.not_mem_cons_of_ne_of_not_mem other outside)

variable [DecidableEq C]

/-- The loop over the choices of a point, where what follows does as it should. -/
theorem tryChoices_outcome {v : V} {rest : List V} (wf : problem.WellFormed) (fresh : v ∉ rest)
    {next : ColourSearch V C → Bool × ColourSearch V C}
    (onward : ∀ state, PartialColouring problem rest state.colours →
      ColourOutcome problem rest state (next state))
    {choices : List C} (known : ∀ choice ∈ choices, choice ∈ problem.choices v)
    {state : ColourSearch V C} (now : PartialColouring problem (v :: rest) state.colours) :
    let result := tryChoices problem v next choices state
    (result.1 = true → IsColouring problem result.2.colours) ∧
      (result.1 = false → result.2.colours = state.colours) ∧
      (result.1 = false → result.2.exhausted = false → ∀ colouring, IsColouring problem colouring →
        (∀ w, w ∉ v :: rest → colouring w = state.colours w) → colouring v ∉ choices) := by
  induction choices generalizing state with
  | nil => exact ⟨nofun, fun _ => rfl, fun _ _ _ _ _ => List.not_mem_nil⟩
  | cons choice choices ih =>
    obtain ⟨inChoices, others⟩ := List.forall_mem_cons.mp known
    unfold tryChoices
    split
    · exact ⟨nofun, fun _ => rfl, fun _ stays => absurd stays.symm Bool.false_ne_true⟩
    · dsimp only
      split
      · next clash =>
        obtain ⟨found, undone, failed⟩ :=
          @ih others { state with attempts := state.attempts + 1 } now
        refine ⟨found, undone, fun isFalse stays colouring proper extends_ mem => ?_⟩
        rcases List.mem_cons.mp mem with same | later
        · obtain ⟨w, conflict, taken⟩ := List.any_eq_true.mp clash
          have taken : state.colours w = choice := of_decide_eq_true taken
          have coloured : w ∉ v :: rest := fun inside =>
            wf.blank v (now.blank w inside ▸ taken ▸ inChoices)
          refine (proper v).2 w conflict ?_
          rw [same, extends_ w coloured, taken]
        · exact failed isFalse stays colouring proper extends_ later
      · next clear =>
        have free : ∀ w ∈ problem.conflicts v, state.colours w ≠ choice := by
          simpa using clear
        have placed := now.update wf fresh inChoices free
        have outcome := onward
          ⟨Function.update state.colours v choice, state.attempts + 1, state.exhausted⟩ placed
        split
        · next isTrue =>
          exact ⟨fun _ => outcome.found isTrue, fun isFalse => absurd (isTrue.symm.trans isFalse) nofun,
            fun isFalse => absurd (isTrue.symm.trans isFalse) nofun⟩
        · next isFalse =>
          rw [Bool.not_eq_true] at isFalse
          have again : Function.update (next ⟨Function.update state.colours v choice,
              state.attempts + 1, state.exhausted⟩).2.colours v problem.blank = state.colours := by
            rw [outcome.undone isFalse]
            exact now.blank_again choice
          split
          · next out =>
            exact ⟨nofun, fun _ => again,
              fun _ stays => absurd (stays.symm.trans out) Bool.false_ne_true⟩
          · next stays =>
            rw [Bool.not_eq_true] at stays
            obtain ⟨found, undone, failed⟩ := @ih others ⟨_, _, _⟩ (again.symm ▸ now)
            refine ⟨found, fun isFalse => (undone isFalse).trans again,
              fun isFalse' stays' colouring proper extends_ mem => ?_⟩
            rcases List.mem_cons.mp mem with same | later
            · exact outcome.excludes rfl isFalse stays proper extends_ same
            · exact failed isFalse' stays' colouring proper
                (fun w outside => (extends_ w outside).trans (congrFun again w).symm) later

/-- What the search finds is a colouring, what it leaves is as it was, and there is none
that it misses within the budget. -/
theorem colour_outcome (wf : problem.WellFormed) {order : List V} (distinct : order.Nodup)
    {state : ColourSearch V C} (now : PartialColouring problem order state.colours) :
    ColourOutcome problem order state (colour problem order state) := by
  induction order generalizing state with
  | nil =>
    refine ⟨fun _ => isColouring_of_partial now, fun _ => rfl, fun isFalse stays => ?_⟩
    have stays : state.exhausted = false := stays
    have isFalse : (!state.exhausted) = false := isFalse
    rw [stays] at isFalse
    cases isFalse
  | cons v rest ih =>
    obtain ⟨fresh, distinct⟩ := List.nodup_cons.mp distinct
    unfold colour
    split
    · next out =>
      exact ⟨nofun, fun _ => rfl, fun _ stays => absurd (stays.symm.trans out) Bool.false_ne_true⟩
    · obtain ⟨found, undone, failed⟩ := tryChoices_outcome wf fresh
        (fun state now => ih distinct now) (fun _ mem => mem) now
      exact ⟨found, undone, fun isFalse stays colouring proper extends_ =>
        failed isFalse stays colouring proper extends_ (proper v).1⟩

/-- Where the first choices are a colouring and the budget has room for one attempt a
point, they are what is found. -/
theorem colour_preferred {preferred : V → C} (proper : IsColouring problem preferred)
    (first : ∀ v, (problem.choices v).head? = some (preferred v))
    (blank : ∀ v, problem.blank ∉ problem.choices v) {order : List V} (distinct : order.Nodup)
    {state : ColourSearch V C} (now : ∀ v, state.colours v =
      if v ∈ order then problem.blank else preferred v)
    (room : state.attempts + order.length ≤ problem.budget) (stays : state.exhausted = false) :
    (colour problem order state).1 = true ∧ (colour problem order state).2.colours = preferred := by
  induction order generalizing state with
  | nil =>
    refine ⟨by rw [colour, stays]; rfl, funext fun v => ?_⟩
    rw [colour, now v, if_neg List.not_mem_nil]
  | cons v rest ih =>
    obtain ⟨fresh, distinct⟩ := List.nodup_cons.mp distinct
    obtain ⟨others, choices⟩ : ∃ others, problem.choices v = preferred v :: others := by
      cases list : problem.choices v with
      | nil => exact absurd (first v) (by rw [list]; nofun)
      | cons choice others =>
        have same := first v
        rw [list, List.head?_cons, Option.some_inj] at same
        exact ⟨others, same ▸ rfl⟩
    rw [List.length_cons] at room
    have affordable : ¬problem.budget ≤ state.attempts := by linarith
    have clear : ¬(problem.conflicts v).any (fun w => decide (state.colours w = preferred v)) = true := by
      rw [List.any_eq_true]
      rintro ⟨w, conflict, taken⟩
      have taken : state.colours w = preferred v := of_decide_eq_true taken
      rw [now w] at taken
      split at taken
      · exact blank v (taken ▸ (proper v).1)
      · exact (proper v).2 w conflict taken.symm
    have placed : ∀ w, Function.update state.colours v (preferred v) w =
        if w ∈ rest then problem.blank else preferred w := by
      intro w
      rcases eq_or_ne w v with rfl | other
      · rw [Function.update_self, if_neg fresh]
      · rw [Function.update_of_ne other, now w]
        simp only [List.mem_cons, other, false_or]
    have later := @ih distinct
      ⟨Function.update state.colours v (preferred v), state.attempts + 1, state.exhausted⟩ placed
      (by dsimp only; linarith) stays
    rw [colour, if_neg (Bool.eq_false_iff.mp stays), choices, tryChoices, if_neg affordable]
    dsimp only
    rw [if_neg clear, if_pos later.1]
    exact later

end

end Svp.Lib
