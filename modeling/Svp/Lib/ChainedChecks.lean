import Mathlib

/-!
# Checks that feed each other

A check on an entry passes when every one of its sources was compared and is good; a
check that fails makes its entry bad. Entries are sources of other checks, and the
checks are settled in one pass, each on what is known when its turn comes.

1. `passes_iff`: a check fails exactly when a chain of earlier checks leads to it from a
   bad or missing source (`FailsInOrder`).
2. `followsFinal_iff`: the verdicts agree with the final state exactly when no check
   fails, and no entry appears, too late for the checks that rest on it (`InOrder`).
3. `passes_iff_not_fails`: verdicts that agree with the final state are those of the
   order-free chains (`Fails`), where every entry was compared from the start; a single
   pass in another order then settles the same.
-/

namespace Svp.Lib

/-- A check on an entry that rests on its sources. -/
structure ChainedCheck (κ : Type*) where
  entry : κ
  sources : List κ

variable {κ : Type*} [DecidableEq κ]

/-- Every source was compared and is good; `some true` marks a bad one. -/
def passes (status : κ → Option Bool) (check : ChainedCheck κ) : Bool :=
  check.sources.all fun source => status source == some false

/-- An entry counts as compared now, and stays bad once it is. -/
def mark (status : κ → Option Bool) (entry : κ) (bad : Bool) : κ → Option Bool :=
  Function.update status entry (some ((status entry).getD false || bad))

def settleOne (status : κ → Option Bool) (check : ChainedCheck κ) : κ → Option Bool :=
  mark status check.entry (!passes status check)

/-- One pass over the checks. -/
def settle (status : κ → Option Bool) (checks : List (ChainedCheck κ)) : κ → Option Bool :=
  checks.foldl settleOne status

/-- What is known when the turn of a check comes. -/
def statusAt (status : κ → Option Bool) (checks : List (ChainedCheck κ)) (i : Nat) :
    κ → Option Bool := settle status (checks.take i)

/-- A chain of checks, each on a source of the next and settled before it, starts at one
with a bad source or with a source nothing has compared. -/
inductive FailsInOrder (status : κ → Option Bool) (checks : List (ChainedCheck κ)) : Nat → Prop
  | bad {i : Nat} {check : ChainedCheck κ} {source : κ} :
      checks[i]? = some check → source ∈ check.sources → status source = some true →
      FailsInOrder status checks i
  | missing {i : Nat} {check : ChainedCheck κ} {source : κ} :
      checks[i]? = some check → source ∈ check.sources → status source = none →
      (∀ j < i, ∀ earlier ∈ checks[j]?, earlier.entry ≠ source) → FailsInOrder status checks i
  | chain {i j : Nat} {check earlier : ChainedCheck κ} :
      checks[i]? = some check → checks[j]? = some earlier → j < i →
      earlier.entry ∈ check.sources → FailsInOrder status checks j → FailsInOrder status checks i

section Pass

variable {status : κ → Option Bool} {checks : List (ChainedCheck κ)}

theorem mark_eq_none {entry source : κ} {bad : Bool} :
    mark status entry bad source = none ↔ status source = none ∧ entry ≠ source := by
  rw [mark, Function.update_apply]
  split
  · next same => exact iff_of_false nofun fun other => other.2 same.symm
  · next other => exact (and_iff_left (Ne.symm other)).symm

theorem mark_eq_bad {entry source : κ} {bad : Bool} :
    mark status entry bad source = some true ↔
      status source = some true ∨ entry = source ∧ bad = true := by
  rw [mark, Function.update_apply]
  split
  · next same =>
    rw [Option.some_inj, Bool.or_eq_true, same, Option.getD_eq_iff]
    simp
  · next other =>
    exact ⟨.inl, fun either => either.resolve_right fun both => other both.1.symm⟩

theorem mark_comm (entry entry' : κ) (bad bad' : Bool) :
    mark (mark status entry bad) entry' bad' = mark (mark status entry' bad') entry bad := by
  rcases eq_or_ne entry entry' with rfl | other
  · simp only [mark, Function.update_self, Function.update_idem, Option.getD_some,
      Bool.or_right_comm]
  · rw [mark, mark, mark, mark, Function.update_of_ne other.symm, Function.update_of_ne other,
      Function.update_comm other]

/-- What is known at a turn, by the turns before it. -/
structure KnownAt (status : κ → Option Bool) (checks : List (ChainedCheck κ)) (i : Nat)
    (now : κ → Option Bool) : Prop where
  missing : ∀ source, now source = none ↔
    status source = none ∧ ∀ j < i, ∀ earlier ∈ checks[j]?, earlier.entry ≠ source
  bad : ∀ source, now source = some true ↔
    status source = some true ∨ ∃ j < i, ∃ earlier ∈ checks[j]?,
      earlier.entry = source ∧ FailsInOrder status checks j

omit [DecidableEq κ] in
theorem passes_eq_true {check : ChainedCheck κ} :
    passes status check = true ↔ ∀ source ∈ check.sources, status source = some false := by
  simp only [passes, List.all_eq_true, beq_iff_eq]

omit [DecidableEq κ] in
/-- A source that is not good is missing or bad. -/
theorem passes_eq_false {check : ChainedCheck κ} :
    passes status check = false ↔
      ∃ source ∈ check.sources, status source = none ∨ status source = some true := by
  rw [← Bool.not_eq_true, passes_eq_true]
  push Not
  refine exists_congr fun source => and_congr_right fun _ => ?_
  cases status source with
  | none => simp
  | some bad => cases bad <;> simp

omit [DecidableEq κ] in
theorem KnownAt.passes_iff {i : Nat} {now : κ → Option Bool} (known : KnownAt status checks i now)
    {check : ChainedCheck κ} (here : checks[i]? = some check) :
    passes now check = false ↔ FailsInOrder status checks i := by
  rw [passes_eq_false]
  constructor
  · rintro ⟨source, among, missing | bad⟩
    · obtain ⟨unset, unchecked⟩ := (known.missing source).mp missing
      exact .missing here among unset unchecked
    · rcases (known.bad source).mp bad with bad | ⟨j, before, earlier, isEarlier, rfl, fails⟩
      · exact .bad here among bad
      · exact .chain here isEarlier before among fails
  · intro fails
    cases fails with
    | bad here' among bad =>
      rw [here] at here'
      cases here'
      exact ⟨_, among, .inr ((known.bad _).mpr (.inl bad))⟩
    | missing here' among unset unchecked =>
      rw [here] at here'
      cases here'
      exact ⟨_, among, .inl ((known.missing _).mpr ⟨unset, unchecked⟩)⟩
    | chain here' isEarlier before among fails =>
      rw [here] at here'
      cases here'
      exact ⟨_, among, .inr ((known.bad _).mpr (.inr ⟨_, before, _, isEarlier, rfl, fails⟩))⟩

theorem statusAt_succ {i : Nat} {check : ChainedCheck κ} (here : checks[i]? = some check) :
    statusAt status checks (i + 1) = settleOne (statusAt status checks i) check := by
  rw [statusAt, List.take_add_one, here, settle, List.foldl_append]
  rfl

theorem knownAt (i : Nat) (within : i ≤ checks.length) :
    KnownAt status checks i (statusAt status checks i) := by
  induction i with
  | zero =>
    refine ⟨fun source => ?_, fun source => ?_⟩
    · exact (and_iff_left fun j before => absurd before j.not_lt_zero).symm
    · exact (or_iff_left fun ⟨j, before, _⟩ => absurd before j.not_lt_zero).symm
  | succ i ih =>
    have known := ih (Nat.le_of_succ_le within)
    have here : checks[i]? = some checks[i] := List.getElem?_eq_getElem within
    rw [statusAt_succ here, settleOne]
    refine ⟨fun source => ?_, fun source => ?_⟩
    · rw [mark_eq_none, known.missing, and_assoc]
      refine and_congr_right fun _ => ⟨?_, fun unchecked => ⟨?_, ?_⟩⟩
      · rintro ⟨unchecked, other⟩ j before earlier isEarlier
        rcases Nat.lt_succ_iff_lt_or_eq.mp before with before | rfl
        · exact unchecked j before earlier isEarlier
        · rw [here] at isEarlier
          cases isEarlier
          exact other
      · exact fun j before => unchecked j (before.trans (Nat.lt_succ_self i))
      · exact unchecked i (Nat.lt_succ_self i) _ here
    · rw [mark_eq_bad, known.bad, or_assoc, Bool.not_eq_true', known.passes_iff here]
      refine or_congr_right ⟨?_, ?_⟩
      · rintro (⟨j, before, found⟩ | ⟨same, fails⟩)
        · exact ⟨j, before.trans (Nat.lt_succ_self i), found⟩
        · exact ⟨i, Nat.lt_succ_self i, _, here, same, fails⟩
      · rintro ⟨j, before, earlier, isEarlier, same, fails⟩
        rcases Nat.lt_succ_iff_lt_or_eq.mp before with before | rfl
        · exact .inl ⟨j, before, earlier, isEarlier, same, fails⟩
        · rw [here] at isEarlier
          cases isEarlier
          exact .inr ⟨same, fails⟩

/-- A check fails at its turn exactly when a chain in order makes it. -/
theorem passes_iff {i : Nat} {check : ChainedCheck κ} (here : checks[i]? = some check) :
    passes (statusAt status checks i) check = false ↔ FailsInOrder status checks i :=
  (knownAt i (List.getElem?_eq_some_iff.mp here).1.le).passes_iff here

/-- What is known after the pass. -/
structure KnownFinally (status : κ → Option Bool) (checks : List (ChainedCheck κ))
    (final : κ → Option Bool) : Prop where
  missing : ∀ source, final source = none ↔
    status source = none ∧ ∀ check ∈ checks, check.entry ≠ source
  bad : ∀ source, final source = some true ↔
    status source = some true ∨ ∃ j, ∃ check ∈ checks[j]?,
      check.entry = source ∧ FailsInOrder status checks j

theorem knownFinally : KnownFinally status checks (settle status checks) := by
  have known := @knownAt κ _ status checks checks.length le_rfl
  rw [statusAt, List.take_length] at known
  refine ⟨fun source => ?_, fun source => ?_⟩
  · rw [known.missing]
    refine and_congr_right fun _ =>
      ⟨fun unchecked check mem => ?_, fun unchecked j _ check at_ => ?_⟩
    · obtain ⟨j, at_⟩ := List.mem_iff_getElem?.mp mem
      exact unchecked j (List.getElem?_eq_some_iff.mp at_).1 check at_
    · exact unchecked check (List.mem_of_getElem? at_)
  · rw [known.bad]
    refine or_congr_right ⟨fun ⟨j, _, found⟩ => ⟨j, found⟩, fun ⟨j, check, at_, found⟩ => ?_⟩
    exact ⟨j, (List.getElem?_eq_some_iff.mp at_).1, check, at_, found⟩

/-! ## Verdicts that agree with the final state -/

/-- Every check passed at its turn exactly when its sources are good in the end. -/
def FollowsFinal (status : κ → Option Bool) (checks : List (ChainedCheck κ)) : Prop :=
  ∀ i, ∀ check ∈ checks[i]?,
    (passes (statusAt status checks i) check = true ↔
      passes (settle status checks) check = true)

/-- A source that is bad or missing in the end. -/
def EndsBad (status : κ → Option Bool) (checks : List (ChainedCheck κ)) (source : κ) : Prop :=
  status source = some true ∨
    (status source = none ∧ ∀ check ∈ checks, check.entry ≠ source) ∨
    ∃ j, ∃ check ∈ checks[j]?, check.entry = source ∧ FailsInOrder status checks j

/-- No check fails later than a check that rests on its entry, and no entry is compared
later than a check that rests on it and on nothing bad. -/
structure InOrder (status : κ → Option Bool) (checks : List (ChainedCheck κ)) : Prop where
  failures : ∀ (i j : Nat) (check later : ChainedCheck κ),
    checks[i]? = some check → checks[j]? = some later → i < j →
    later.entry ∈ check.sources → FailsInOrder status checks j → FailsInOrder status checks i
  comparisons : ∀ (i j : Nat) (check later : ChainedCheck κ),
    checks[i]? = some check → checks[j]? = some later → i < j →
    later.entry ∈ check.sources → status later.entry = none →
    (∀ k < i, ∀ earlier ∈ checks[k]?, earlier.entry ≠ later.entry) →
      ∃ source ∈ check.sources, EndsBad status checks source

theorem passes_finally {check : ChainedCheck κ} :
    passes (settle status checks) check = false ↔
      ∃ source ∈ check.sources, EndsBad status checks source := by
  rw [passes_eq_false]
  refine exists_congr fun source => and_congr_right fun _ => ?_
  rw [knownFinally.missing, knownFinally.bad, EndsBad]
  exact or_left_comm

theorem followsFinal_iff_fails :
    FollowsFinal status checks ↔ ∀ i, ∀ check ∈ checks[i]?,
      (FailsInOrder status checks i ↔ ∃ source ∈ check.sources, EndsBad status checks source) := by
  refine forall_congr' fun i => forall_congr' fun check => forall_congr' fun here => ?_
  rw [← passes_iff here, ← passes_finally, ← Bool.not_eq_true, ← Bool.not_eq_true]
  exact not_iff_not.symm

/-- The verdicts agree with the final state exactly when no failure and no comparison
comes too late. -/
theorem followsFinal_iff : FollowsFinal status checks ↔ InOrder status checks := by
  rw [followsFinal_iff_fails]
  constructor
  · intro follows
    refine ⟨fun i j check later here there _ among fails => ?_,
      fun i j check later here _ _ among unset unchecked => ?_⟩
    · exact (follows i check here).mpr ⟨_, among, .inr (.inr ⟨j, later, there, rfl, fails⟩)⟩
    · exact (follows i check here).mp (.missing here among unset unchecked)
  · intro ordered i check here
    constructor
    · intro fails
      cases fails with
      | bad here' among bad =>
        rw [here] at here'
        cases here'
        exact ⟨_, among, .inl bad⟩
      | @missing _ _ source here' among unset unchecked =>
        rw [here] at here'
        cases here'
        by_cases appears : ∃ (j : Nat) (later : ChainedCheck κ),
            checks[j]? = some later ∧ later.entry = source
        · obtain ⟨j, later, there, rfl⟩ := appears
          rcases lt_trichotomy i j with before | rfl | after
          · exact ordered.comparisons i j check later here there before among unset unchecked
          · have fails : FailsInOrder status checks i := .missing here among unset unchecked
            exact ⟨_, among, .inr (.inr ⟨i, later, there, rfl, fails⟩)⟩
          · exact absurd rfl (unchecked j after later there)
        · refine ⟨_, among, .inr (.inl ⟨unset, fun other mem same => appears ?_⟩)⟩
          obtain ⟨j, there⟩ := List.mem_iff_getElem?.mp mem
          exact ⟨j, other, there, same⟩
      | chain here' there before among fails =>
        rw [here] at here'
        cases here'
        exact ⟨_, among, .inr (.inr ⟨_, _, there, rfl, fails⟩)⟩
    · rintro ⟨source, among, bad | ⟨unset, unchecked⟩ | ⟨j, later, there, rfl, fails⟩⟩
      · exact .bad here among bad
      · refine .missing here among unset fun j _ earlier isEarlier => ?_
        exact unchecked earlier (List.mem_of_getElem? isEarlier)
      · rcases lt_trichotomy i j with before | rfl | after
        · exact ordered.failures i j check later here there before among fails
        · exact fails
        · exact .chain here there after among fails

/-- Checks that come after the checks on their sources. -/
theorem inOrder_of_pairwise
    (sorted : checks.Pairwise fun check later => later.entry ∉ check.sources) :
    InOrder status checks := by
  have apart : ∀ (i j : Nat) (check later : ChainedCheck κ), checks[i]? = some check →
      checks[j]? = some later → i < j → later.entry ∉ check.sources := by
    intro i j check later here there before
    obtain ⟨within, rfl⟩ := List.getElem?_eq_some_iff.mp here
    obtain ⟨within', rfl⟩ := List.getElem?_eq_some_iff.mp there
    exact List.pairwise_iff_getElem.mp sorted i j within within' before
  exact ⟨fun i j check later here there before among _ =>
      absurd among (apart i j check later here there before),
    fun i j check later here there before among _ _ =>
      absurd among (apart i j check later here there before)⟩

/-! ## Order-free verdicts -/

/-- A chain of checks in any order starts at one with a source that is not good. -/
inductive Fails (status : κ → Option Bool) (checks : List (ChainedCheck κ)) :
    ChainedCheck κ → Prop
  | source {check : ChainedCheck κ} {source : κ} :
      source ∈ check.sources → status source ≠ some false → Fails status checks check
  | chain {check other : ChainedCheck κ} :
      other ∈ checks → other.entry ∈ check.sources → Fails status checks other →
      Fails status checks check

omit [DecidableEq κ] in
theorem Fails.congr {status' : κ → Option Bool} {checks' : List (ChainedCheck κ)}
    (same : status' = status) (perm : checks.Perm checks') {check : ChainedCheck κ}
    (fails : Fails status checks check) : Fails status' checks' check := by
  induction fails with
  | source among bad => exact .source among (same ▸ bad)
  | chain mem among _ ih => exact .chain (perm.subset mem) among ih

/-- Verdicts that agree with the final state are the order-free ones, where every entry
was compared from the start. -/
theorem passes_iff_not_fails (compared : ∀ check ∈ checks, status check.entry ≠ none)
    (follows : FollowsFinal status checks) {i : Nat} {check : ChainedCheck κ}
    (here : checks[i]? = some check) :
    passes (statusAt status checks i) check = false ↔ Fails status checks check := by
  rw [passes_iff here]
  constructor
  · intro fails
    induction fails generalizing check with
    | bad here' among bad =>
      rw [here] at here'
      cases here'
      exact .source among (by rw [bad]; exact nofun)
    | missing here' among unset _ =>
      rw [here] at here'
      cases here'
      exact .source among (by rw [unset]; exact nofun)
    | chain here' there _ among _ ih =>
      rw [here] at here'
      cases here'
      exact .chain (List.mem_of_getElem? there) among (ih there)
  · intro fails
    have agrees := followsFinal_iff_fails.mp follows
    induction fails generalizing i with
    | @source check source among bad =>
      cases known : status source with
      | none =>
        refine (agrees i check here).mpr ⟨source, among, .inr (.inl ⟨known, ?_⟩)⟩
        rintro other mem rfl
        exact compared other mem known
      | some isBad =>
        cases isBad with
        | true => exact .bad here among known
        | false => exact absurd known bad
    | chain mem among _ ih =>
      obtain ⟨j, there⟩ := List.mem_iff_getElem?.mp mem
      exact (agrees i _ here).mpr ⟨_, among, .inr (.inr ⟨j, _, there, rfl, ih there⟩)⟩

end Pass

end Svp.Lib
