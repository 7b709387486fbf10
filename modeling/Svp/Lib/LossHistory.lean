import Mathlib

/-!
# Independent losses in a history

Attempts are granted on a resource and lost or verified later. When one is lost
the others outstanding are presumed lost to the same cause, so a loss counts only
if its attempt was granted after every loss counted so far (`Counted`), and only
the success of such an attempt shows that the resource works again (`Recovered`).
`LossChain h n` says that `n` losses were counted in the history `h` without a
recovery between two of them; `Tail h n` that the last `n` were, with no recovery
since. The lemmas say how either changes with one more occurrence.
-/

namespace Svp.Lib

/-- What happens to an attempt. -/
inductive Occurrence (ι : Type*)
  | granted (a : ι)
  | lost (a : ι)
  | verified (a : ι)
deriving DecidableEq

namespace LossHistory

variable {ι : Type*}

/-- The loss at position `i` counts: its attempt was granted after every loss
counted before. -/
def Counted (h : List (Occurrence ι)) (i : Nat) : Prop :=
  ∃ a, h[i]? = some (.lost a) ∧
    ∃ g, g < i ∧ h[g]? = some (.granted a) ∧ ∀ j, (_ : j < i) → Counted h j → j < g
termination_by i

/-- Before position `i`, the attempt was granted after every counted loss. -/
def Fresh (h : List (Occurrence ι)) (i : Nat) (a : ι) : Prop :=
  ∃ g < i, h[g]? = some (.granted a) ∧ ∀ j < i, Counted h j → j < g

/-- The success at position `v` is of an attempt granted after every counted
loss. -/
def Recovered (h : List (Occurrence ι)) (v : Nat) : Prop :=
  ∃ a, h[v]? = some (.verified a) ∧ Fresh h v a

/-- So many losses count, and no recovery lies between two of them. -/
def LossChain (h : List (Occurrence ι)) (n : Nat) : Prop :=
  ∃ s : Finset Nat, s.card = n ∧ (∀ i ∈ s, Counted h i) ∧
    ∀ i ∈ s, ∀ j ∈ s, ∀ v, i < v → v < j → ¬ Recovered h v

/-- So many losses count, and no recovery lies behind any of them. -/
def Tail (h : List (Occurrence ι)) (n : Nat) : Prop :=
  ∃ s : Finset Nat, s.card = n ∧ (∀ i ∈ s, Counted h i) ∧ ∀ i ∈ s, ∀ v, i < v → ¬ Recovered h v

/-- The attempt was granted after every loss counted so far. -/
def FreshNow (h : List (Occurrence ι)) (a : ι) : Prop := Fresh h h.length a

theorem counted_iff {h : List (Occurrence ι)} {i : Nat} :
    Counted h i ↔ ∃ a, h[i]? = some (.lost a) ∧ Fresh h i a := by
  rw [Counted]
  rfl

/-! ## One more occurrence -/

theorem Counted.lt {h : List (Occurrence ι)} {i : Nat} (counted : Counted h i) : i < h.length := by
  obtain ⟨a, lost, -⟩ := counted_iff.mp counted
  exact (List.getElem?_eq_some_iff.mp lost).1

theorem Recovered.lt {h : List (Occurrence ι)} {v : Nat} (recovered : Recovered h v) :
    v < h.length := by
  obtain ⟨a, verified, -⟩ := recovered
  exact (List.getElem?_eq_some_iff.mp verified).1

/-- What happens later does not matter. -/
theorem counted_append (h more : List (Occurrence ι)) {i : Nat} (lt : i < h.length) :
    Counted (h ++ more) i ↔ Counted h i := by
  induction i using Nat.strong_induction_on with
  | _ i ih =>
    have same : ∀ j < h.length, (h ++ more)[j]? = h[j]? := fun j lt => List.getElem?_append_left lt
    have earlier : ∀ g, (∀ j < i, Counted (h ++ more) j → j < g) ↔ ∀ j < i, Counted h j → j < g :=
      fun g => forall₂_congr fun j before => by rw [ih j before (before.trans lt)]
    rw [counted_iff, counted_iff, same i lt]
    refine exists_congr fun a => and_congr_right fun _ => exists_congr fun g => ?_
    refine and_congr_right fun before => ?_
    rw [same g (before.trans lt), earlier]

theorem fresh_append (h more : List (Occurrence ι)) {i : Nat} (le : i ≤ h.length) (a : ι) :
    Fresh (h ++ more) i a ↔ Fresh h i a := by
  refine exists_congr fun g => and_congr_right fun before => ?_
  rw [List.getElem?_append_left (before.trans_le le)]
  refine and_congr_right fun _ => forall₂_congr fun j before => ?_
  rw [counted_append h more (before.trans_le le)]

theorem getElem?_snoc_length (h : List (Occurrence ι)) (o : Occurrence ι) :
    (h ++ [o])[h.length]? = some o := by
  simp

/-- A loss at the end counts if its attempt is fresh. -/
theorem counted_snoc {h : List (Occurrence ι)} {o : Occurrence ι} {i : Nat} :
    Counted (h ++ [o]) i ↔ Counted h i ∨ i = h.length ∧ ∃ a, o = .lost a ∧ FreshNow h a := by
  rcases lt_trichotomy i h.length with lt | rfl | gt
  · rw [counted_append h [o] lt]
    exact ⟨.inl, fun either => either.resolve_right fun last => absurd last.1 lt.ne⟩
  · have notBefore : ¬ Counted h h.length := fun counted => lt_irrefl _ counted.lt
    rw [counted_iff, getElem?_snoc_length]
    simp only [Option.some.injEq, fresh_append h [o] le_rfl, notBefore, true_and, false_or]
    rfl
  · constructor
    · intro counted
      have lt := counted.lt
      simp only [List.length_append, List.length_singleton] at lt
      omega
    · rintro (counted | ⟨rfl, -⟩)
      · exact absurd counted.lt gt.asymm
      · exact absurd gt (lt_irrefl _)

/-- A success at the end is a recovery if its attempt is fresh. -/
theorem recovered_snoc {h : List (Occurrence ι)} {o : Occurrence ι} {v : Nat} :
    Recovered (h ++ [o]) v ↔
      Recovered h v ∨ v = h.length ∧ ∃ a, o = .verified a ∧ FreshNow h a := by
  rcases lt_trichotomy v h.length with lt | rfl | gt
  · have same : Recovered (h ++ [o]) v ↔ Recovered h v := by
      unfold Recovered
      simp only [List.getElem?_append_left lt, fresh_append h [o] lt.le]
    rw [same]
    exact ⟨.inl, fun either => either.resolve_right fun last => absurd last.1 lt.ne⟩
  · have notBefore : ¬ Recovered h h.length := fun recovered => lt_irrefl _ recovered.lt
    rw [Recovered, getElem?_snoc_length]
    simp only [Option.some.injEq, fresh_append h [o] le_rfl, notBefore, true_and, false_or]
    rfl
  · constructor
    · intro recovered
      have lt := recovered.lt
      simp only [List.length_append, List.length_singleton] at lt
      omega
    · rintro (recovered | ⟨rfl, -⟩)
      · exact absurd recovered.lt gt.asymm
      · exact absurd gt (lt_irrefl _)

theorem freshNow_snoc {h : List (Occurrence ι)} {o : Occurrence ι} {a : ι} :
    FreshNow (h ++ [o]) a ↔
      o = .granted a ∨ FreshNow h a ∧ ¬ ∃ b, o = .lost b ∧ FreshNow h b := by
  unfold FreshNow
  rw [Fresh, List.length_append, List.length_singleton]
  constructor
  · rintro ⟨g, before, granted, since⟩
    rcases Nat.lt_succ_iff_lt_or_eq.mp before with lt | rfl
    · rw [List.getElem?_append_left lt] at granted
      refine .inr ⟨⟨g, lt, granted, fun j before counted => ?_⟩, fun counted => ?_⟩
      · exact since j (before.trans (Nat.lt_succ_self _)) (counted_snoc.mpr (.inl counted))
      · have := since h.length (Nat.lt_succ_self _) (counted_snoc.mpr (.inr ⟨rfl, counted⟩))
        omega
    · rw [getElem?_snoc_length] at granted
      exact .inl (Option.some.inj granted)
  · rintro (rfl | ⟨⟨g, lt, granted, since⟩, notCounted⟩)
    · -- the attempt just granted is after every loss
      refine ⟨h.length, Nat.lt_succ_self _, getElem?_snoc_length _ _, fun j _ counted => ?_⟩
      rcases counted_snoc.mp counted with counted | ⟨-, b, impossible, -⟩
      · exact counted.lt
      · cases impossible
    · refine ⟨g, lt.trans (Nat.lt_succ_self _), ?_, fun j _ counted => ?_⟩
      · rw [List.getElem?_append_left lt]
        exact granted
      · rcases counted_snoc.mp counted with counted | ⟨-, last⟩
        · exact since j counted.lt counted
        · exact absurd last notCounted

/-! ## Chains -/

/-- An occurrence that neither counts nor recovers changes no chain. -/
theorem chains_of_idle {h : List (Occurrence ι)} {o : Occurrence ι}
    (notLost : ∀ a, o = .lost a → ¬ FreshNow h a)
    (notVerified : ∀ a, o = .verified a → ¬ FreshNow h a) (n : Nat) :
    (LossChain (h ++ [o]) n ↔ LossChain h n) ∧ (Tail (h ++ [o]) n ↔ Tail h n) := by
  have counted : ∀ i, Counted (h ++ [o]) i ↔ Counted h i := fun i =>
    counted_snoc.trans (or_iff_left fun ⟨_, a, same, fresh⟩ => notLost a same fresh)
  have recovered : ∀ v, Recovered (h ++ [o]) v ↔ Recovered h v := fun v =>
    recovered_snoc.trans (or_iff_left fun ⟨_, a, same, fresh⟩ => notVerified a same fresh)
  simp only [LossChain, Tail, counted, recovered, and_self]

theorem tail_zero (h : List (Occurrence ι)) : Tail h 0 :=
  ⟨∅, rfl, by simp, by simp⟩

/-- A recovery ends every chain, and no chain runs across it. -/
theorem chains_of_recovery {h : List (Occurrence ι)} {a : ι} (fresh : FreshNow h a) (n : Nat) :
    (LossChain (h ++ [.verified a]) n ↔ LossChain h n) ∧
      (Tail (h ++ [.verified a]) n ↔ n = 0) := by
  have counted : ∀ i, Counted (h ++ [.verified a]) i ↔ Counted h i := fun i =>
    counted_snoc.trans (or_iff_left fun ⟨_, b, impossible, _⟩ => by cases impossible)
  have last : Recovered (h ++ [.verified a]) h.length :=
    recovered_snoc.mpr (.inr ⟨rfl, a, rfl, fresh⟩)
  constructor
  · -- the recovery comes after all of the chain
    have between : ∀ i j v, Counted h i → Counted h j → i < v → v < j →
        (Recovered (h ++ [.verified a]) v ↔ Recovered h v) := fun i j v _ counted _ before =>
      recovered_snoc.trans (or_iff_left fun ⟨atEnd, _⟩ => by
        have := counted.lt
        omega)
    constructor
    · rintro ⟨s, card, all, none⟩
      have all : ∀ i ∈ s, Counted h i := fun i mem => (counted i).mp (all i mem)
      refine ⟨s, card, all, fun i memI j memJ v after before recovered => ?_⟩
      exact none i memI j memJ v after before
        ((between i j v (all i memI) (all j memJ) after before).mpr recovered)
    · rintro ⟨s, card, all, none⟩
      refine ⟨s, card, fun i mem => (counted i).mpr (all i mem), fun i memI j memJ v after before
        recovered => ?_⟩
      exact none i memI j memJ v after before
        ((between i j v (all i memI) (all j memJ) after before).mp recovered)
  · constructor
    · rintro ⟨s, card, all, none⟩
      rw [← card, Finset.card_eq_zero]
      refine Finset.eq_empty_of_forall_notMem fun i mem => none i mem h.length ?_ last
      exact ((counted i).mp (all i mem)).lt
    · rintro rfl
      exact tail_zero _

/-- A counted loss lengthens the last chain by one. -/
theorem chains_of_loss {h : List (Occurrence ι)} {a : ι} (fresh : FreshNow h a) (n : Nat) :
    (LossChain (h ++ [.lost a]) (n + 1) ↔ LossChain h (n + 1) ∨ Tail h n) ∧
      (Tail (h ++ [.lost a]) (n + 1) ↔ Tail h n) := by
  have recovered : ∀ v, Recovered (h ++ [.lost a]) v ↔ Recovered h v := fun v =>
    recovered_snoc.trans (or_iff_left fun ⟨_, b, impossible, _⟩ => by cases impossible)
  have counted : ∀ i, Counted (h ++ [.lost a]) i ↔ Counted h i ∨ i = h.length := fun i =>
    counted_snoc.trans (or_congr_right ⟨fun last => last.1, fun last => ⟨last, a, rfl, fresh⟩⟩)
  have notCounted : ¬ Counted h h.length := fun counted => lt_irrefl _ counted.lt
  -- a tail with the new loss behind it
  have extend : Tail h n → Tail (h ++ [.lost a]) (n + 1) := by
    rintro ⟨s, card, all, none⟩
    refine ⟨insert h.length s, ?_, fun i mem => ?_, fun i mem v after isRecovery => ?_⟩
    · rw [Finset.card_insert_of_notMem fun mem => notCounted (all _ mem), card]
    · rcases Finset.mem_insert.mp mem with rfl | mem
      · exact (counted _).mpr (.inr rfl)
      · exact (counted i).mpr (.inl (all i mem))
    · have isRecovery := (recovered v).mp isRecovery
      rcases Finset.mem_insert.mp mem with rfl | mem
      · exact absurd isRecovery.lt after.asymm
      · exact none i mem v after isRecovery
  -- a chain without the new loss
  have shorten : ∀ {s : Finset Nat}, (∀ i ∈ s, Counted (h ++ [.lost a]) i) →
      ∀ i ∈ s.erase h.length, i ∈ s ∧ Counted h i := fun all i mem =>
    ⟨Finset.mem_of_mem_erase mem, ((counted i).mp (all i (Finset.mem_of_mem_erase mem))).resolve_right
      (Finset.ne_of_mem_erase mem)⟩
  constructor
  · constructor
    · rintro ⟨s, card, all, none⟩
      by_cases last : h.length ∈ s
      · refine .inr ⟨s.erase h.length, ?_, fun i mem => (shorten all i mem).2,
          fun i mem v after isRecovery => ?_⟩
        · rw [Finset.card_erase_of_mem last, card, Nat.add_sub_cancel]
        · exact none i (shorten all i mem).1 _ last v after isRecovery.lt
            ((recovered v).mpr isRecovery)
      · refine .inl ⟨s, card, fun i mem => ?_, fun i memI j memJ v after before isRecovery => ?_⟩
        · exact ((counted i).mp (all i mem)).resolve_right fun same => last (same ▸ mem)
        · exact none i memI j memJ v after before ((recovered v).mpr isRecovery)
    · rintro (⟨s, card, all, none⟩ | tail)
      · exact ⟨s, card, fun i mem => (counted i).mpr (.inl (all i mem)),
          fun i memI j memJ v after before isRecovery =>
            none i memI j memJ v after before ((recovered v).mp isRecovery)⟩
      · obtain ⟨s, card, all, none⟩ := extend tail
        exact ⟨s, card, all, fun i memI j _ v after _ => none i memI v after⟩
  · refine ⟨?_, extend⟩
    rintro ⟨s, card, all, none⟩
    by_cases last : h.length ∈ s
    · refine ⟨s.erase h.length, ?_, fun i mem => (shorten all i mem).2,
        fun i mem v after isRecovery => ?_⟩
      · rw [Finset.card_erase_of_mem last, card, Nat.add_sub_cancel]
      · exact none i (shorten all i mem).1 v after ((recovered v).mpr isRecovery)
    · -- without the new loss there is one too many
      have all : ∀ i ∈ s, Counted h i := fun i mem =>
        ((counted i).mp (all i mem)).resolve_right fun same => last (same ▸ mem)
      obtain ⟨i, mem⟩ : s.Nonempty := by
        rw [← Finset.card_pos, card]
        exact Nat.succ_pos n
      refine ⟨s.erase i, ?_, fun j mem => all j (Finset.mem_of_mem_erase mem),
        fun j mem v after isRecovery => ?_⟩
      · rw [Finset.card_erase_of_mem mem, card, Nat.add_sub_cancel]
      · exact none j (Finset.mem_of_mem_erase mem) v after ((recovered v).mpr isRecovery)

/-- Between two counted losses an attempt was granted, so that the losses of what
one event leaves behind are one. -/
theorem granted_between {h : List (Occurrence ι)} {i j : Nat} (first : Counted h i)
    (second : Counted h j) (lt : i < j) : ∃ g a, i < g ∧ g < j ∧ h[g]? = some (.granted a) := by
  obtain ⟨a, -, g, before, granted, since⟩ := counted_iff.mp second
  exact ⟨g, a, since i lt first, before, granted⟩

end LossHistory

end Svp.Lib
