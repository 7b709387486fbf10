import Svp.Lib.Antichain
import Svp.Builder.StageRuns

/-!
# The width of the stage graph

The width is the number of tasks less the size of a matching that augmenting paths build.
One search either finds the new pair without touching what was seen (`Found`), or leaves the
matching as it is and a closed set of matched tasks behind (`Failed`). The closed sets are
what stays of a failed search: no later search enters them, so the matching at the end is
as large as any.
-/

namespace Svp.Builder

open Lib (IsMatching ClosedUnder matched mem_matched)

/-! ## The search -/

/-- The variables an augmenting search shares. -/
structure Search (n : Nat) where
  seen : Finset (Fin n)
  matchOfLater : Fin n → Option (Fin n)

variable {n : Nat}

def Search.see (search : Search n) (later : Fin n) : Search n :=
  { search with seen := insert later search.seen }

def Search.assign (search : Search n) (later earlier : Fin n) : Search n :=
  { search with matchOfLater := Function.update search.matchOfLater later (some earlier) }

/-- The loop over the later tasks, with the search for the task a later one is matched with. -/
def tryLaters (reachable : Fin n → Fin n → Bool)
    (descend : Fin n → Search n → Option (Bool × Search n)) (earlier : Fin n) :
    List (Fin n) → Search n → Option (Bool × Search n)
  | [], search => some (false, search)
  | later :: laters, search =>
    if reachable later earlier = false ∨ later ∈ search.seen then
      tryLaters reachable descend earlier laters search
    else match search.matchOfLater later with
      | none => some (true, (search.see later).assign later earlier)
      | some other =>
        match descend other (search.see later) with
        | none => none
        | some (true, search') => some (true, search'.assign later earlier)
        | some (false, search') => tryLaters reachable descend earlier laters search'

/-- `none` where the calls go deeper than `fuel`. -/
def augment (reachable : Fin n → Fin n → Bool) : Nat → Fin n → Search n →
    Option (Bool × Search n)
  | 0, _, _ => none
  | fuel + 1, earlier, search =>
    tryLaters reachable (augment reachable fuel) earlier (List.finRange n) search

/-- Searches for one task after another and counts the pairs. -/
def matchAll (reachable : Fin n → Fin n → Bool) : List (Fin n) → (Fin n → Option (Fin n)) → Nat →
    Option Nat
  | [], _, matching => some matching
  | earlier :: earliers, matchOfLater, matching =>
    match augment reachable (n + 1) earlier ⟨∅, matchOfLater⟩ with
    | none => none
    | some (found, search) =>
      matchAll reachable earliers search.matchOfLater (if found then matching + 1 else matching)

/-- `none` where a search runs out of calls. -/
def stageTaskGraphWidth (tasks : List PlannedStageTask) : Except PlanError (Option Nat) := do
  let reachable ← transitiveClosure tasks
  let reaches (later earlier : Fin tasks.length) : Bool :=
    decide ((earlier : Nat) ∈ reachable.getD later ∅)
  return (matchAll reaches (List.finRange tasks.length) (fun _ => none) 0).map (tasks.length - ·)

/-! ## What a search leaves -/

/-- How many later tasks a task is matched with. -/
def degree (M : Fin n → Option (Fin n)) (u : Fin n) : Nat :=
  (Finset.univ.filter fun later => M later = some u).card

theorem assign_self (s : Search n) (later earlier : Fin n) :
    (s.assign later earlier).matchOfLater later = some earlier :=
  Function.update_self ..

/-- The other tasks keep their pairs. -/
theorem assign_of_notMem (s : Search n) {later v : Fin n} (earlier : Fin n) {S : Finset (Fin n)}
    (outside : later ∉ S) (mem : v ∈ S) :
    (s.assign later earlier).matchOfLater v = s.matchOfLater v :=
  Function.update_of_ne (fun eq : v = later => outside (eq ▸ mem)) _ _

/-- The pair of one task apart. -/
theorem degree_eq_erase (M : Fin n → Option (Fin n)) (later u : Fin n) : degree M u =
    ((Finset.univ.filter fun v => M v = some u).erase later).card +
      if M later = some u then 1 else 0 := by
  have mem : later ∈ (Finset.univ.filter fun v => M v = some u) ↔ M later = some u :=
    Finset.mem_filter.trans (and_iff_right (Finset.mem_univ later))
  by_cases eq : M later = some u
  · rw [if_pos eq]
    exact (Finset.card_erase_add_one (mem.mpr eq)).symm
  · rw [if_neg eq, Finset.erase_eq_of_notMem (mt mem.mp eq)]
    rfl

/-- One pair of the task assigned more, one of the task it is taken from less. -/
theorem degree_assign (s : Search n) (later earlier u : Fin n) :
    degree (s.assign later earlier).matchOfLater u +
        (if s.matchOfLater later = some u then 1 else 0) =
      degree s.matchOfLater u + if u = earlier then 1 else 0 := by
  have others : (Finset.univ.filter fun v =>
      (s.assign later earlier).matchOfLater v = some u).erase later =
      (Finset.univ.filter fun v => s.matchOfLater v = some u).erase later := by
    ext v
    rw [Finset.mem_erase, Finset.mem_erase, Finset.mem_filter, Finset.mem_filter]
    refine and_congr_right fun ne => ?_
    rw [assign_of_notMem s earlier (Finset.notMem_singleton.mpr ne.symm) (Finset.mem_singleton_self v)]
  have assigned : (if (s.assign later earlier).matchOfLater later = some u then 1 else 0) =
      if u = earlier then 1 else 0 := by
    simp only [assign_self, Option.some.injEq, eq_comm]
  rw [degree_eq_erase s.matchOfLater later, degree_eq_erase _ later, others, assigned]
  exact Nat.add_right_comm _ _ _

/-- A pair after an assignment is the one assigned or one from before. -/
theorem assign_edge {s : Search n} {later earlier v u : Fin n}
    (eq : (s.assign later earlier).matchOfLater v = some u) :
    v = later ∧ u = earlier ∨ s.matchOfLater v = some u := by
  by_cases here : v = later
  · subst here
    exact .inl ⟨rfl, Option.some_injective _ (eq.symm.trans (assign_self s v earlier))⟩
  · exact .inr ((Function.update_of_ne here _ _).symm.trans eq)

/-- The matching is as before, and what was seen on the way leads nowhere else. -/
structure Grown (reachable : Fin n → Fin n → Bool) (s s' : Search n) : Prop where
  same : s'.matchOfLater = s.matchOfLater
  grows : s.seen ⊆ s'.seen
  closed : ∀ later ∈ s'.seen, later ∉ s.seen → ∃ u, s.matchOfLater later = some u ∧
    ∀ next, reachable next u = true → next ∈ s'.seen

/-- No new pair: all of the tasks tried have been seen. -/
structure Failed (reachable : Fin n → Fin n → Bool) (laters : List (Fin n)) (earlier : Fin n)
    (s s' : Search n) : Prop extends Grown reachable s s' where
  tried : ∀ later ∈ laters, reachable later earlier = true → later ∈ s'.seen

/-- A new pair: the task is matched once more, and closed sets are left alone. -/
structure Found (reachable : Fin n → Fin n → Bool) (earlier : Fin n) (s s' : Search n) :
    Prop where
  kept : ∀ later ∈ s.seen, s'.matchOfLater later = s.matchOfLater later
  edges : ∀ later u, s'.matchOfLater later = some u →
    reachable later u = true ∨ s.matchOfLater later = some u
  counts : ∀ u, degree s'.matchOfLater u = degree s.matchOfLater u + if u = earlier then 1 else 0
  avoids : ∀ Z, ClosedUnder (fun a b => reachable b a = true) s.matchOfLater Z →
    (∃ next, reachable next earlier = true ∧ next ∉ Z) ∧
      ∀ later ∈ Z, s'.matchOfLater later = s.matchOfLater later

def Outcome (reachable : Fin n → Fin n → Bool) (laters : List (Fin n)) (earlier : Fin n)
    (s : Search n) : Bool × Search n → Prop
  | (true, s') => Found reachable earlier s s'
  | (false, s') => Failed reachable laters earlier s s'

variable {reachable : Fin n → Fin n → Bool} {laters : List (Fin n)} {earlier later : Fin n}
  {s s' s'' : Search n}

theorem Grown.refl (s : Search n) : Grown reachable s s :=
  ⟨rfl, subset_rfl, fun _ mem fresh => absurd mem fresh⟩

theorem Grown.trans (first : Grown reachable s s') (second : Grown reachable s' s'') :
    Grown reachable s s'' := by
  refine ⟨second.same.trans first.same, first.grows.trans second.grows, fun later mem fresh => ?_⟩
  by_cases known : later ∈ s'.seen
  · obtain ⟨u, eq, into⟩ := first.closed later known fresh
    exact ⟨u, eq, fun next reach => second.grows (into next reach)⟩
  · obtain ⟨u, eq, into⟩ := second.closed later mem known
    exact ⟨u, first.same ▸ eq, into⟩

/-- What comes after a part of the loop without a pair is the outcome of the whole. -/
theorem Outcome.of_grown {outcome : Bool × Search n} (grown : Grown reachable s s')
    (head : reachable later earlier = true → later ∈ s'.seen)
    (rest : Outcome reachable laters earlier s' outcome) :
    Outcome reachable (later :: laters) earlier s outcome := by
  match outcome, rest with
  | (true, t), found =>
    have found : Found reachable earlier s' t := found
    exact {
      kept := fun v mem => (found.kept v (grown.grows mem)).trans (congrFun grown.same v)
      edges := grown.same ▸ found.edges
      counts := grown.same ▸ found.counts
      avoids := grown.same ▸ found.avoids }
  | (false, t), failed =>
    have failed : Failed reachable laters earlier s' t := failed
    refine ⟨grown.trans failed.toGrown, fun v mem reach => ?_⟩
    rcases List.mem_cons.mp mem with rfl | mem
    · exact failed.grows (head reach)
    · exact failed.tried v mem reach

/-- A later task without a pair gets the task. -/
theorem Found.of_none (reach : reachable later earlier = true) (fresh : later ∉ s.seen)
    (free : s.matchOfLater later = none) :
    Found reachable earlier s ((s.see later).assign later earlier) where
  kept _ mem := assign_of_notMem _ earlier fresh mem
  edges v u eq := by
    rcases assign_edge eq with ⟨rfl, rfl⟩ | before
    · exact .inl reach
    · exact .inr before
  counts u := by
    have counted := degree_assign (s.see later) later earlier u
    rwa [show (s.see later).matchOfLater later = none from free,
      if_neg (Option.some_ne_none u).symm, Nat.add_zero] at counted
  avoids Z closed := by
    have outside : later ∉ Z := fun mem => by
      obtain ⟨u, eq, _⟩ := closed later mem
      exact Option.some_ne_none u (eq.symm.trans free)
    exact ⟨⟨later, reach, outside⟩, fun v mem => assign_of_notMem _ earlier outside mem⟩

/-- A later task whose pair finds another one gets the task. -/
theorem Found.of_descend {other : Fin n} {t : Search n} (reach : reachable later earlier = true)
    (fresh : later ∉ s.seen) (pair : s.matchOfLater later = some other)
    (found : Found reachable other (s.see later) t) :
    Found reachable earlier s (t.assign later earlier) where
  kept v mem := (assign_of_notMem t earlier fresh mem).trans
    (found.kept v (Finset.mem_insert_of_mem mem))
  edges v u eq := by
    rcases assign_edge eq with ⟨rfl, rfl⟩ | before
    · exact .inl reach
    · exact found.edges v u before
  counts u := by
    have still : t.matchOfLater later = some other :=
      (found.kept later (Finset.mem_insert_self later s.seen)).trans pair
    have counted := degree_assign t later earlier u
    have swap : (if some other = some u then 1 else 0) = if u = other then 1 else 0 := by
      simp only [Option.some.injEq, eq_comm]
    rw [still, found.counts u, swap, Nat.add_right_comm] at counted
    exact Nat.add_right_cancel counted
  avoids Z closed := by
    obtain ⟨⟨next, leads, away⟩, untouched⟩ := found.avoids Z closed
    have outside : later ∉ Z := fun mem => by
      obtain ⟨u, eq, into⟩ := closed later mem
      obtain rfl := Option.some_injective _ (pair.symm.trans eq)
      exact away (into next leads)
    exact ⟨⟨later, reach, outside⟩, fun v mem =>
      (assign_of_notMem t earlier outside mem).trans (untouched v mem)⟩

/-- A later task whose pair finds no other one is seen, and the loop goes on. -/
theorem Grown.of_descend {other : Fin n} {t : Search n} (pair : s.matchOfLater later = some other)
    (failed : Failed reachable (List.finRange n) other (s.see later) t) :
    Grown reachable s t where
  same := failed.same
  grows := (Finset.subset_insert later s.seen).trans failed.grows
  closed v mem fresh := by
    by_cases here : v = later
    · subst here
      exact ⟨other, pair, fun next => failed.tried next (List.mem_finRange next)⟩
    · refine failed.closed v mem fun known => ?_
      exact (Finset.mem_insert.mp known).elim here fresh

/-! ## The search ends -/

theorem tryLaters_outcome {descend : Fin n → Search n → Option (Bool × Search n)} {fuel : Nat}
    (descends : ∀ other t, (t.seenᶜ).card < fuel → ∃ outcome, descend other t = some outcome ∧
      Outcome reachable (List.finRange n) other t outcome) (enough : (s.seenᶜ).card ≤ fuel) :
    ∃ outcome, tryLaters reachable descend earlier laters s = some outcome ∧
      Outcome reachable laters earlier s outcome := by
  induction laters generalizing s with
  | nil => exact ⟨_, rfl, Grown.refl s, fun v mem => absurd mem List.not_mem_nil⟩
  | cons later laters ih =>
    rw [tryLaters]
    by_cases skip : reachable later earlier = false ∨ later ∈ s.seen
    · rw [if_pos skip]
      obtain ⟨outcome, eq, rest⟩ := ih enough
      refine ⟨outcome, eq, rest.of_grown (Grown.refl s) fun reach => skip.resolve_left ?_⟩
      exact fun unreached => Bool.false_ne_true (unreached.symm.trans reach)
    · rw [if_neg skip]
      obtain ⟨reach, fresh⟩ := not_or.mp skip
      rw [Bool.not_eq_false] at reach
      cases pair : s.matchOfLater later with
      | none => exact ⟨_, rfl, Found.of_none reach fresh pair⟩
      | some other =>
        have smaller : ((s.see later).seenᶜ).card < (s.seenᶜ).card := by
          refine Finset.card_lt_card (Finset.compl_ssubset_compl.mpr ?_)
          exact Finset.ssubset_insert fresh
        obtain ⟨outcome, eq, result⟩ := descends other (s.see later) (smaller.trans_le enough)
        simp only [eq]
        match outcome, result with
        | (true, t), found => exact ⟨_, rfl, Found.of_descend reach fresh pair found⟩
        | (false, t), failed =>
          have failed : Failed reachable (List.finRange n) other (s.see later) t := failed
          have grown := Grown.of_descend pair failed
          have enough' : (t.seenᶜ).card ≤ fuel :=
            (Finset.card_le_card (Finset.compl_subset_compl.mpr grown.grows)).trans enough
          obtain ⟨outcome, eq, rest⟩ := ih enough'
          exact ⟨outcome, eq, rest.of_grown grown fun _ =>
            failed.grows (Finset.mem_insert_self later s.seen)⟩

theorem augment_outcome {fuel : Nat} (enough : (s.seenᶜ).card < fuel) :
    ∃ outcome, augment reachable fuel earlier s = some outcome ∧
      Outcome reachable (List.finRange n) earlier s outcome := by
  induction fuel generalizing earlier s with
  | zero => exact absurd enough (Nat.not_lt_zero _)
  | succ fuel ih => exact tryLaters_outcome (fun other t => ih) (Nat.lt_succ_iff.mp enough)

/-! ## The matching -/

/-- After searches for `done`: a matching with a closed set all unmatched tasks lead into. -/
structure Maximal (reachable : Fin n → Fin n → Bool) (done : List (Fin n))
    (M : Fin n → Option (Fin n)) (matching : Nat) : Prop where
  edges : ∀ later u, M later = some u → reachable later u = true
  size : (matched M).card = matching
  once : ∀ u, degree M u ≤ 1
  fresh : ∀ u, u ∉ done → degree M u = 0
  closed : ∃ Z, ClosedUnder (fun a b => reachable b a = true) M Z ∧
    ∀ u ∈ done, degree M u = 0 → ∀ next, reachable next u = true → next ∈ Z

theorem card_matched (M : Fin n → Option (Fin n)) : (matched M).card = ∑ u, degree M u := by
  have fibers := Finset.card_eq_sum_card_fiberwise (f := M) (s := matched M)
    (t := Finset.univ.image some) (fun later mem => by
      obtain ⟨u, eq⟩ := mem_matched.mp (Finset.mem_coe.mp mem)
      exact Finset.mem_coe.mpr (Finset.mem_image.mpr ⟨u, Finset.mem_univ u, eq.symm⟩))
  rw [fibers, Finset.sum_image fun _ _ _ _ eq => Option.some_injective _ eq]
  refine Finset.sum_congr rfl fun u _ => congrArg Finset.card ?_
  ext later
  rw [Finset.mem_filter, Finset.mem_filter, mem_matched]
  exact and_congr_left fun eq => iff_of_true ⟨u, eq⟩ (Finset.mem_univ later)

theorem Maximal.of_found {done : List (Fin n)} {M : Fin n → Option (Fin n)} {matching : Nat}
    {t : Search n} (maximal : Maximal reachable done M matching) (new : earlier ∉ done)
    (found : Found reachable earlier ⟨∅, M⟩ t) :
    Maximal reachable (done ++ [earlier]) t.matchOfLater (matching + 1) where
  edges later u eq := (found.edges later u eq).elim id (maximal.edges later u)
  size := by
    rw [card_matched, Finset.sum_congr rfl fun u _ => found.counts u, Finset.sum_add_distrib,
      ← card_matched, maximal.size, Finset.sum_ite_eq' Finset.univ earlier,
      if_pos (Finset.mem_univ earlier)]
  once u := by
    rw [found.counts u]
    split
    · next eq => rw [eq, maximal.fresh earlier new]
    · exact maximal.once u
  fresh u away := by
    rw [List.mem_append, List.mem_singleton, not_or] at away
    rw [found.counts u, if_neg away.2, maximal.fresh u away.1]
  closed := by
    obtain ⟨Z, closed, into⟩ := maximal.closed
    obtain ⟨_, untouched⟩ := found.avoids Z closed
    refine ⟨Z, fun later mem => ?_, fun u mem unmatched => ?_⟩
    · rw [untouched later mem]
      exact closed later mem
    · rw [found.counts u] at unmatched
      obtain ⟨before, other⟩ := Nat.add_eq_zero_iff.mp unmatched
      rcases List.mem_append.mp mem with old | last
      · exact into u old before
      · rw [if_pos (List.mem_singleton.mp last)] at other
        exact absurd other Nat.one_ne_zero

theorem Maximal.of_failed {done : List (Fin n)} {M : Fin n → Option (Fin n)} {matching : Nat}
    {t : Search n} (maximal : Maximal reachable done M matching)
    (failed : Failed reachable (List.finRange n) earlier ⟨∅, M⟩ t) :
    Maximal reachable (done ++ [earlier]) t.matchOfLater matching := by
  have same : t.matchOfLater = M := failed.same
  rw [same]
  refine ⟨maximal.edges, maximal.size, maximal.once, fun u away => maximal.fresh u fun mem =>
    away (List.mem_append_left _ mem), ?_⟩
  obtain ⟨Z, closed, into⟩ := maximal.closed
  refine ⟨Z ∪ t.seen, fun later mem => ?_, fun u mem unmatched next reach => ?_⟩
  · rcases Finset.mem_union.mp mem with old | seen
    · obtain ⟨u, eq, inside⟩ := closed later old
      exact ⟨u, eq, fun next reach => Finset.mem_union_left _ (inside next reach)⟩
    · obtain ⟨u, eq, inside⟩ := failed.closed later seen (Finset.notMem_empty later)
      exact ⟨u, eq, fun next reach => Finset.mem_union_right _ (inside next reach)⟩
  · rcases List.mem_append.mp mem with old | last
    · exact Finset.mem_union_left _ (into u old unmatched next reach)
    · rw [List.mem_singleton.mp last] at reach
      exact Finset.mem_union_right _ (failed.tried next (List.mem_finRange next) reach)

theorem matchAll_eq_some {done earliers : List (Fin n)} {M : Fin n → Option (Fin n)}
    {matching : Nat} (maximal : Maximal reachable done M matching)
    (distinct : (done ++ earliers).Nodup) : ∃ M' matching',
      matchAll reachable earliers M matching = some matching' ∧
        Maximal reachable (done ++ earliers) M' matching' := by
  induction earliers generalizing done M matching with
  | nil => exact ⟨M, matching, rfl, (List.append_nil done).symm ▸ maximal⟩
  | cons earlier earliers ih =>
    have enough : ((∅ : Finset (Fin n))ᶜ).card < n + 1 := by
      rw [Finset.compl_empty, Finset.card_univ, Fintype.card_fin]
      exact Nat.lt_succ_self n
    have new : earlier ∉ done := fun mem =>
      List.disjoint_of_nodup_append distinct mem List.mem_cons_self
    rw [List.append_cons] at distinct ⊢
    obtain ⟨outcome, eq, result⟩ :=
      @augment_outcome n reachable earlier ⟨∅, M⟩ (n + 1) enough
    rw [matchAll, eq]
    match outcome, result with
    | (true, t), found => exact ih (maximal.of_found new found) distinct
    | (false, t), failed => exact ih (maximal.of_failed failed) distinct

theorem Maximal.isMatching {done : List (Fin n)} {M : Fin n → Option (Fin n)} {matching : Nat}
    (maximal : Maximal reachable done M matching) :
    IsMatching (fun a b => reachable b a = true) M where
  before_of_eq eq := maximal.edges _ _ eq
  injective {earlier later later'} eq eq' := by
    have mem : ∀ {v}, M v = some earlier → v ∈ Finset.univ.filter fun v => M v = some earlier :=
      fun eq => Finset.mem_filter.mpr ⟨Finset.mem_univ _, eq⟩
    exact Finset.card_le_one.mp (maximal.once earlier) later (mem eq) later' (mem eq')

theorem degree_none (u : Fin n) : degree (fun _ => none) u = 0 :=
  Finset.card_eq_zero.mpr (Finset.filter_false_of_mem fun _ _ => (Option.some_ne_none u).symm)

theorem maximal_none : Maximal reachable [] (fun _ => none) 0 where
  edges _ _ eq := nomatch eq
  size := Finset.card_eq_zero.mpr (Finset.filter_false_of_mem fun _ _ => Bool.false_ne_true)
  once u := (degree_none u).le.trans (Nat.zero_le 1)
  fresh u _ := degree_none u
  closed := ⟨∅, fun _ mem => absurd mem (Finset.notMem_empty _),
    fun _ mem => absurd mem List.not_mem_nil⟩

/-- Less the pairs, the elements are as many as in some set without edges, and as many as in
any where the edges are a strict order. -/
theorem Maximal.isGreatest {M : Fin n → Option (Fin n)} {matching : Nat}
    (maximal : Maximal reachable (List.finRange n) M matching)
    (irrefl : ∀ a, ¬ reachable a a = true)
    (trans : ∀ a b c, reachable b a = true → reachable c b = true → reachable c a = true) :
    IsGreatest {k | ∃ A : Finset (Fin n),
      IsAntichain (fun a b => reachable b a = true) (A : Set (Fin n)) ∧ A.card = k}
      (n - matching) := by
  have bound : ∀ A : Finset (Fin n),
      IsAntichain (fun a b => reachable b a = true) (A : Set (Fin n)) → A.card + matching ≤ n := by
    intro A antichain
    have both := maximal.isMatching.card_add_card_le irrefl trans antichain
    rwa [maximal.size, Fintype.card_fin] at both
  obtain ⟨Z, closed, into⟩ := maximal.closed
  obtain ⟨A, antichain, enough⟩ := closed.exists_antichain fun u unmatched =>
    into u (List.mem_finRange u) (Finset.card_eq_zero.mpr
      (Finset.filter_false_of_mem fun later _ => unmatched later))
  rw [maximal.size, Fintype.card_fin] at enough
  constructor
  · exact ⟨A, antichain, Nat.eq_sub_of_add_eq (le_antisymm (bound A antichain) enough)⟩
  · rintro _ ⟨B, antichainB, rfl⟩
    exact Nat.le_sub_of_add_le (bound B antichainB)

/-- The width is the size of the largest set of independent tasks. -/
theorem stageTaskGraphWidth_eq_ok {tasks : List PlannedStageTask} (plan : IsPlan tasks) :
    ∃ width, stageTaskGraphWidth tasks = .ok (some width) ∧
      IsGreatest {k | ∃ A, Independent tasks A ∧ A.card = k} width := by
  obtain ⟨rows, closes, isRows⟩ := transitiveClosure_eq_ok plan
  let reaches (later earlier : Fin tasks.length) : Bool :=
    decide ((earlier : Nat) ∈ rows.getD later ∅)
  have reaches_iff : ∀ {later earlier}, reaches later earlier = true ↔ Chain tasks later earlier :=
    fun {later earlier} => decide_eq_true_iff.trans (isRows later later.isLt earlier)
  obtain ⟨M, matching, matches_, maximal⟩ :=
    matchAll_eq_some (@maximal_none tasks.length reaches) (List.nodup_finRange tasks.length)
  have greatest := maximal.isGreatest
    (fun a reach => Nat.lt_irrefl a (plan.chain_lt (reaches_iff.mp reach)))
    fun a b c first second =>
      reaches_iff.mpr ((reaches_iff.mp second).trans (reaches_iff.mp first))
  refine ⟨tasks.length - matching, ?_, ?_⟩
  · rw [stageTaskGraphWidth, closes]
    exact congrArg (fun found => Except.ok (found.map (tasks.length - ·))) matches_
  · have same : ∀ A : Finset (Fin tasks.length), Independent tasks A ↔
        IsAntichain (fun a b => reaches b a = true) (A : Set (Fin tasks.length)) := by
      intro A
      constructor
      · exact fun independent a memA b memB ne reach =>
          independent b memB a memA ne.symm (reaches_iff.mp reach)
      · exact fun antichain a memA b memB ne chain =>
          antichain memB memA ne.symm (reaches_iff.mpr chain)
    simp only [same]
    exact greatest

/-- The width is the largest number of independent tasks and the greatest number of tasks that
ever run at once, with any number of slots; with that many slots a ready task always starts. -/
theorem stageTaskGraphWidth_exact {tasks : List PlannedStageTask} (plan : IsPlan tasks) :
    ∃ width, stageTaskGraphWidth tasks = .ok (some width) ∧
      IsGreatest {k | ∃ A, Independent tasks A ∧ A.card = k} width ∧
      IsGreatest {k | ∃ slots run, (stageRuns tasks slots).Reachable run ∧ run.running.card = k}
        width ∧
      ∀ run, (stageRuns tasks width).Reachable run → ∀ i, Ready tasks run i →
        (stageRuns tasks width).step run (run.start i) := by
  obtain ⟨width, eq, ⟨A, independent, size⟩, greatest⟩ := stageTaskGraphWidth_eq_ok plan
  refine ⟨width, eq, ⟨⟨A, independent, size⟩, greatest⟩, ⟨?_, ?_⟩, fun run reachable i ready => ?_⟩
  · obtain ⟨run, reachable, runs⟩ := exists_run plan independent
    exact ⟨A.card, run, reachable, runs ▸ size⟩
  · rintro _ ⟨slots, run, reachable, rfl⟩
    exact greatest ⟨_, (reachable_sound reachable).independent, rfl⟩
  · have room := greatest ⟨_, (reachable_sound reachable).independent_start ready, rfl⟩
    rw [StageRun.start, Finset.card_insert_of_notMem ready.2.1] at room
    exact .start ready room

theorem stageTaskGraphWidth_inventoryThenColor :
    ∃ width, stageTaskGraphWidth inventoryThenColor = .ok (some width) ∧
      ∀ run, (stageRuns inventoryThenColor width).Reachable run →
        ∀ i, Ready inventoryThenColor run i →
          (stageRuns inventoryThenColor width).step run (run.start i) := by
  obtain ⟨width, eq, _, _, starts⟩ := stageTaskGraphWidth_exact inventoryThenColor_isPlan
  exact ⟨width, eq, starts⟩

end Svp.Builder
