import Svp.Lib.Binary64Order
import Svp.Lib.EditDistance
import Svp.Vision.OcrReadings

/-!
# Similarity against edit distance

`similarity` leaves the edit distance table early when its floor is out of reach. The
table is the one of `editDistance` (`editRows_eq`), but the edit budget is cut off from a
product just below the longer length over five: where five edits of the longer length
are just allowed the budget is one too small (`editBudget_eq`). There the early exits
turn a similarity of 0.8 into 0, unless a prefix of the second text is nearer to the
first than the text itself (`similarity_agrees_iff`).
-/

namespace Svp.Vision

open Exec (Bytes utf8)
open scoped Lib.ByteStrings
open Lib (round64 Representable editDistance)

/-! ## The table -/

/-- The distances of `a` from the prefixes of a text that start with `done`. -/
def rowAfter (a done rest : Bytes) : List Nat := rest.inits.map fun front => editDistance a (done ++ front)

def tableRow (a b : Bytes) : List Nat := rowAfter a [] b

theorem rowAfter_nil (a done : Bytes) : rowAfter a done [] = [editDistance a done] := by
  simp [rowAfter]

theorem rowAfter_cons (a done : Bytes) (d : UInt8) (rest : Bytes) :
    rowAfter a done (d :: rest) = editDistance a done :: rowAfter a (done ++ [d]) rest := by
  simp [rowAfter, Function.comp_def]

theorem rowAfter_eq (a done rest : Bytes) :
    rowAfter a done rest = editDistance a done :: (rowAfter a done rest).tail := by
  cases rest with
  | nil => rw [rowAfter_nil, List.tail_cons]
  | cons d rest => rw [rowAfter_cons, List.tail_cons]

theorem fillRow_rowAfter (c : UInt8) (a done rest : Bytes) :
    fillRow c (editDistance a done) (editDistance (a ++ [c]) done) rest (rowAfter a done rest).tail =
      (rowAfter (a ++ [c]) done rest).tail := by
  induction rest generalizing done with
  | nil => rw [rowAfter_nil, rowAfter_nil, List.tail_cons, List.tail_cons, fillRow]; nofun
  | cons d rest ih =>
    rw [rowAfter_cons, rowAfter_cons, List.tail_cons, List.tail_cons, rowAfter_eq a,
      rowAfter_eq (a ++ [c]), fillRow, ← Lib.editDistance_concat, ih]

theorem nextRow_tableRow (c : UInt8) (a b : Bytes) :
    nextRow c (a.length + 1) b (tableRow a b) = tableRow (a ++ [c]) b := by
  have first : a.length + 1 = editDistance (a ++ [c]) [] := by
    rw [Lib.editDistance_nil_right, List.length_append, List.length_singleton]
  have above : a.length = editDistance a [] := (Lib.editDistance_nil_right a).symm
  unfold tableRow
  rw [rowAfter_eq a, rowAfter_eq (a ++ [c]), nextRow, first, fillRow_rowAfter]

theorem tableRow_nil (b : Bytes) : tableRow [] b = List.range (b.length + 1) := by
  have shifted : ∀ (rest done : Bytes),
      rowAfter [] done rest = List.range' done.length (rest.length + 1) := by
    intro rest
    induction rest with
    | nil => exact fun done => rowAfter_nil [] done
    | cons d rest ih =>
      intro done
      rw [rowAfter_cons, ih, List.length_append, List.length_singleton, List.length_cons,
        List.range'_succ (n := rest.length + 1)]
      rfl
  rw [tableRow, shifted, List.range_eq_range']
  rfl

theorem getD_rowAfter (a done rest : Bytes) :
    (rowAfter a done rest).getD rest.length 0 = editDistance a (done ++ rest) := by
  induction rest generalizing done with
  | nil => rw [rowAfter_nil, List.append_nil]; rfl
  | cons d rest ih =>
    rw [rowAfter_cons, List.length_cons, List.getD_cons_succ, ih, List.append_assoc,
      List.singleton_append]

/-- All entries of a row are above the budget. -/
def RowAbove (budget : Nat) (a b : Bytes) : Prop :=
  ∀ front, front <+: b → budget < editDistance a front

theorem all_tableRow (budget : Nat) (a b : Bytes) :
    ((tableRow a b).all fun entry => decide (budget < entry)) = true ↔ RowAbove budget a b := by
  simp [tableRow, rowAfter, RowAbove]

/-- From the row of `front` on the loop ends early if the last row is above the budget. -/
theorem editRows_eq (budget : Nat) (front rest b : Bytes) :
    (rest ≠ [] → RowAbove budget (front ++ rest) b →
        editRows budget b (front.length + 1) rest (tableRow front b) = none) ∧
      ((rest = [] ∨ ¬RowAbove budget (front ++ rest) b) →
        editRows budget b (front.length + 1) rest (tableRow front b) =
          some (tableRow (front ++ rest) b)) := by
  induction rest generalizing front with
  | nil => exact ⟨fun some => absurd rfl some, fun _ => by rw [editRows, List.append_nil]⟩
  | cons c rest ih =>
    have later := ih (front ++ [c])
    rw [List.append_assoc, List.singleton_append, List.length_append, List.length_singleton] at later
    have step : editRows budget b (front.length + 1) (c :: rest) (tableRow front b) =
        if (tableRow (front ++ [c]) b).all fun entry => decide (budget < entry) then none
        else editRows budget b (front.length + 1 + 1) rest (tableRow (front ++ [c]) b) := by
      rw [editRows, nextRow_tableRow]
    have onward : ∀ more, RowAbove budget (front ++ [c]) b →
        RowAbove budget (front ++ [c] ++ more) b := by
      intro more above
      induction more using List.reverseRecOn with
      | nil => rwa [List.append_nil]
      | append_singleton more x ih =>
        rw [← List.append_assoc]
        exact Lib.lt_row_concat x ih
    rw [step]
    by_cases above : RowAbove budget (front ++ [c]) b
    · rw [if_pos ((all_tableRow _ _ _).mpr above)]
      have last : RowAbove budget (front ++ c :: rest) b := by
        simpa using onward rest above
      refine ⟨fun _ _ => rfl, fun stays => ?_⟩
      rcases stays with none | below
      · cases none
      · exact absurd last below
    · rw [if_neg ((all_tableRow _ _ _).not.mpr above)]
      refine ⟨fun _ last => ?_, fun stays => later.2 ?_⟩
      · refine later.1 (fun none => ?_) last
        subst none
        exact above last
      · exact .inr (stays.resolve_left (List.cons_ne_nil _ _))

/-! ## The budget -/

/-- The edits that keep a similarity at the floor, by the length of the longer text. -/
def editBudget (floor : ℚ) (longer : Nat) : Nat := ⌊round64 (round64 (1 - floor) * round64 longer)⌋.toNat

/-- What 1 - 0.8 is in doubles, just below a fifth. -/
theorem allowance_eq :
    round64 (1 - kNearIdenticalSimilarity) = 1 / 5 - 1 / 5 / 2 ^ 52 := by
  decide +kernel

/-- There is a double between a whole number less its last place and the number. -/
theorem round64_lt_of_short {n : Nat} (pos : 0 < n) (small : n ≤ 2 ^ 50) {q : ℚ}
    (short : q ≤ n - n / 2 ^ 52) : round64 q < n := by
  obtain ⟨k, low, high⟩ : ∃ k, 2 ^ k ≤ n ∧ n < 2 ^ (k + 1) :=
    ⟨Nat.log 2 n, Nat.pow_log_le_self 2 pos.ne', Nat.lt_pow_succ_log_self one_lt_two n⟩
  have bits : k ≤ 50 := (Nat.pow_le_pow_iff_right one_lt_two).mp (low.trans small)
  obtain ⟨rest, total⟩ : ∃ rest, k + rest = 52 := Nat.le.dest (bits.trans (by decide))
  have place : (2 : ℚ) ^ k / 2 ^ 52 = 1 / 2 ^ rest := by
    rw [← total, pow_add]
    field_simp
  have below : Representable ((n : ℚ) - 1 / 2 ^ rest) := by
    refine ⟨n * 2 ^ rest - 1, -rest, ?_, ?_, ?_⟩
    · rw [Lib.leastExponent]
      linarith
    · have room : n * 2 ^ rest < 2 ^ 53 := by
        calc
          n * 2 ^ rest < 2 ^ (k + 1) * 2 ^ rest := Nat.mul_lt_mul_of_pos_right high (by positivity)
          _ = 2 ^ 53 := by rw [← pow_add, Nat.add_right_comm, total]
      have some : (1 : ℤ) ≤ n * 2 ^ rest := by
        exact_mod_cast Nat.one_le_iff_ne_zero.mpr (Nat.mul_pos pos (by positivity)).ne'
      have room : (n : ℤ) * 2 ^ rest < 2 ^ 53 := by exact_mod_cast room
      rw [abs_of_nonneg (by linarith)]
      linarith
    · push_cast
      rw [zpow_neg, zpow_natCast]
      field_simp
  have under : q ≤ (n : ℚ) - 1 / 2 ^ rest := by
    have least : (2 : ℚ) ^ k / 2 ^ 52 ≤ n / 2 ^ 52 := by
      have low : (2 : ℚ) ^ k ≤ n := by exact_mod_cast low
      exact div_le_div_of_nonneg_right low (by positivity)
    rw [place] at least
    linarith
  calc
    round64 q ≤ n - 1 / 2 ^ rest := Lib.round64_le_of_le below under
    _ < n := sub_lt_self _ (by positivity)

/-- The budget falls short of a fifth wherever a fifth is whole. -/
theorem editBudget_eq {longer : Nat} (pos : 0 < longer) (small : longer ≤ 2 ^ 52) :
    editBudget kNearIdenticalSimilarity longer = (longer - 1) / 5 := by
  have double : round64 longer = longer := Lib.round64_natCast (small.trans_lt (by decide))
  have upper : longer ≤ 5 * ((longer - 1) / 5 + 1) := by omega
  have lower : 5 * ((longer - 1) / 5) ≤ longer - 1 := Nat.mul_div_le _ _
  have half : (longer - 1) / 5 + 1 ≤ 2 ^ 50 := by omega
  generalize (longer - 1) / 5 = m at upper lower half
  unfold editBudget
  rw [allowance_eq, double]
  have whole : m ≤ round64 ((1 / 5 - 1 / 5 / 2 ^ 52) * longer) := by
    have exact : ((m : ℤ) : ℚ) ≤ (1 / 5 - 1 / 5 / 2 ^ 52) * longer := by
      have few : (longer : ℚ) ≤ 2 ^ 52 := by exact_mod_cast small
      have fifth : (5 * m + 1 : ℚ) ≤ longer := by
        have : 5 * m + 1 ≤ longer := by omega
        exact_mod_cast this
      push_cast
      linarith
    refine Lib.le_round64_of_le (Lib.representable_intCast ?_) exact
    rw [abs_of_nonneg (Int.natCast_nonneg m)]
    have : m < 2 ^ 53 := by omega
    exact_mod_cast this
  have short : round64 ((1 / 5 - 1 / 5 / 2 ^ 52) * longer) < (m + 1 : Nat) := by
    refine round64_lt_of_short (Nat.succ_pos m) half ?_
    have fifth : (longer : ℚ) ≤ 5 * (m + 1) := by exact_mod_cast upper
    push_cast
    linarith
  have floor : ⌊round64 ((1 / 5 - 1 / 5 / 2 ^ 52) * longer)⌋ = m := by
    rw [Int.floor_eq_iff]
    exact ⟨by exact_mod_cast whole, by exact_mod_cast short⟩
  rw [floor, Int.toNat_natCast]

/-! ## Early exits and the value -/

/-- The function leaves with 0 before the table is done. -/
def returnsEarly (a b : Bytes) (floor : ℚ) : Bool :=
  let longer := max a.length b.length
  let budget := editBudget floor longer
  decide (longer ≠ 0) &&
    (decide (budget < max a.length b.length - min a.length b.length) ||
      (editRows budget b 1 a (List.range (b.length + 1))).isNone)

/-- 1 - edit distance / longer length, in doubles. -/
def plainSimilarity (a b : Bytes) : ℚ :=
  let longer := max a.length b.length
  if longer = 0 then 1 else round64 (1 - round64 (round64 (editDistance a b) / round64 longer))

/-- Of the rows only the last one matters. -/
theorem editRows_start (budget : Nat) (a b : Bytes) :
    ((a ≠ [] ∧ RowAbove budget a b) ∧
        editRows budget b 1 a (List.range (b.length + 1)) = none) ∨
      (¬(a ≠ [] ∧ RowAbove budget a b) ∧
        editRows budget b 1 a (List.range (b.length + 1)) = some (tableRow a b)) := by
  have rows := editRows_eq budget [] a b
  rw [tableRow_nil, List.nil_append, List.length_nil, Nat.zero_add] at rows
  by_cases exits : a ≠ [] ∧ RowAbove budget a b
  · exact .inl ⟨exits, rows.1 exits.1 exits.2⟩
  · exact .inr ⟨exits, rows.2 (by tauto)⟩

theorem returnsEarly_iff (a b : Bytes) (floor : ℚ) :
    returnsEarly a b floor = true ↔
      max a.length b.length ≠ 0 ∧
        (editBudget floor (max a.length b.length) < max a.length b.length - min a.length b.length ∨
          a ≠ [] ∧ RowAbove (editBudget floor (max a.length b.length)) a b) := by
  unfold returnsEarly
  rcases editRows_start (editBudget floor (max a.length b.length)) a b with
    ⟨exits, rows⟩ | ⟨stays, rows⟩
  · simp [rows, exits]
  · simp only [rows, stays, Option.isNone_some, Bool.or_false, Bool.and_eq_true, decide_eq_true_eq,
      or_false]

theorem similarity_eq (a b : Bytes) (floor : ℚ) :
    similarity a b floor = if returnsEarly a b floor then 0 else plainSimilarity a b := by
  have last : (tableRow a b).getD b.length 0 = editDistance a b := getD_rowAfter a [] b
  have early := returnsEarly_iff a b floor
  unfold similarity plainSimilarity
  dsimp only
  split
  · next empty => rw [if_neg (early.not.mpr fun exits => exits.1 empty)]
  · next some =>
    split
    · next far => rw [if_pos (early.mpr ⟨some, .inl far⟩)]
    · next near =>
      rcases editRows_start (editBudget floor (max a.length b.length)) a b with
        ⟨exits, rows⟩ | ⟨stays, rows⟩ <;> unfold editBudget at rows <;> rw [rows]
      · rw [if_pos (early.mpr ⟨some, .inr exits⟩)]
      · rw [if_neg (early.not.mpr fun exits => exits.2.elim near stays)]
        show round64 (1 - round64 (round64 ((tableRow a b).getD b.length 0 : Nat) / _)) = _
        rw [last]

/-! ## At the floor -/

/-- A fifth of the longer text in edits leaves a similarity of 0.8, and one edit more does
not. -/
theorem floor_le_plainSimilarity {a b : Bytes} (small : max a.length b.length ≤ 2 ^ 52) :
    kNearIdenticalSimilarity ≤ plainSimilarity a b ↔
      5 * editDistance a b ≤ max a.length b.length := by
  have within := Lib.editDistance_le_length a b
  unfold plainSimilarity
  dsimp only
  generalize max a.length b.length = longer at *
  generalize editDistance a b = distance at *
  split
  · next empty =>
    have none : 5 * distance ≤ longer := by omega
    exact iff_of_true (by decide +kernel) none
  · next some =>
    have pos : (0 : ℚ) < longer := by exact_mod_cast Nat.pos_of_ne_zero some
    rw [Lib.round64_natCast (within.trans_lt (small.trans_lt (by decide))),
      Lib.round64_natCast (small.trans_lt (by decide))]
    constructor
    · intro reaches
      by_contra far
      have more : (longer + 1 : ℚ) ≤ 5 * distance := by exact_mod_cast not_le.mp far
      have few : (longer : ℚ) ≤ 2 ^ 52 := by exact_mod_cast small
      have ratio : 1 / 5 + 1 / (5 * 2 ^ 52) ≤ (distance : ℚ) / longer := by
        rw [le_div_iff₀ pos]
        linarith
      have below : round64 (1 - round64 (distance / longer)) < kNearIdenticalSimilarity :=
        calc
          _ ≤ round64 (1 - round64 (1 / 5 + 1 / (5 * 2 ^ 52))) :=
            Lib.round64_mono (sub_le_sub_left (Lib.round64_mono ratio) 1)
          _ < kNearIdenticalSimilarity := by decide +kernel
      exact below.not_ge reaches
    · intro within
      have ratio : (distance : ℚ) / longer ≤ 1 / 5 := by
        have within : (5 * distance : ℚ) ≤ longer := by exact_mod_cast within
        rw [div_le_iff₀ pos]
        linarith
      calc
        kNearIdenticalSimilarity = round64 (1 - round64 (1 / 5)) := by decide +kernel
        _ ≤ _ := Lib.round64_mono (sub_le_sub_left (Lib.round64_mono ratio) 1)

/-- The pruned similarity reaches its floor just when 1 - distance / length does, and is
that value unless it left early. -/
def SimilarityAgrees (a b : Bytes) : Prop :=
  (kNearIdenticalSimilarity ≤ similarity a b kNearIdenticalSimilarity ↔
      5 * editDistance a b ≤ max a.length b.length) ∧
    (returnsEarly a b kNearIdenticalSimilarity = false →
      similarity a b kNearIdenticalSimilarity = plainSimilarity a b)

/-- A fifth of the longer text is edited, and the table shows no way with less: either the
lengths differ by as much, or no prefix of `b` is nearer to `a`. -/
def AtBudget (a b : Bytes) : Prop :=
  max a.length b.length ≠ 0 ∧ 5 * editDistance a b = max a.length b.length ∧
    (max a.length b.length - min a.length b.length = editDistance a b ∨
      ∀ front, front <+: b → editDistance a b ≤ editDistance a front)

theorem returnsEarly_iff_budget {a b : Bytes} (some : max a.length b.length ≠ 0)
    (small : max a.length b.length ≤ 2 ^ 52) :
    returnsEarly a b kNearIdenticalSimilarity = true ↔
      (max a.length b.length - 1) / 5 < max a.length b.length - min a.length b.length ∨
        a ≠ [] ∧ RowAbove ((max a.length b.length - 1) / 5) a b := by
  rw [returnsEarly_iff, editBudget_eq (Nat.pos_of_ne_zero some) small, and_iff_right some]

/-- Below a fifth nothing is cut off. -/
theorem not_returnsEarly {a b : Bytes} (small : max a.length b.length ≤ 2 ^ 52)
    (within : 5 * editDistance a b < max a.length b.length) :
    returnsEarly a b kNearIdenticalSimilarity = false := by
  have budget : editDistance a b ≤ (max a.length b.length - 1) / 5 := by omega
  rw [← Bool.not_eq_true, returnsEarly_iff_budget (by omega) small, not_or]
  constructor
  · exact ((Lib.length_sub_le_editDistance a b).trans budget).not_gt
  · rintro ⟨-, above⟩
    exact (above b (List.prefix_refl b)).not_ge budget

/-- At a fifth the exits decide. -/
theorem returnsEarly_iff_atBudget {a b : Bytes} (small : max a.length b.length ≤ 2 ^ 52)
    (some : max a.length b.length ≠ 0) (fifth : 5 * editDistance a b = max a.length b.length) :
    returnsEarly a b kNearIdenticalSimilarity = true ↔ AtBudget a b := by
  have budget : (max a.length b.length - 1) / 5 = editDistance a b - 1 := by omega
  have pos : 0 < editDistance a b := by omega
  have differ := Lib.length_sub_le_editDistance a b
  rw [returnsEarly_iff_budget some small, budget, AtBudget, and_iff_right some, and_iff_right fifth]
  have lengths : editDistance a b - 1 < max a.length b.length - min a.length b.length ↔
      max a.length b.length - min a.length b.length = editDistance a b := by omega
  have rows : RowAbove (editDistance a b - 1) a b ↔
      ∀ front, front <+: b → editDistance a b ≤ editDistance a front := by
    refine forall₂_congr fun front before => ?_
    omega
  rw [lengths, rows]
  constructor
  · exact Or.imp_right And.right
  · rintro (equal | nearest)
    · exact .inl equal
    · rcases eq_or_ne a [] with rfl | some
      · exact .inl (by simp [Lib.editDistance_nil])
      · exact .inr ⟨some, nearest⟩

/-- The pruned similarity agrees with plain edit distance but where a fifth of the longer
text is edited and the exits see no way with less. Longer texts than memory holds are
left out. -/
theorem similarity_agrees_iff (a b : Bytes) (small : max a.length b.length ≤ 2 ^ 52) :
    SimilarityAgrees a b ↔ ¬AtBudget a b := by
  have value : returnsEarly a b kNearIdenticalSimilarity = false →
      similarity a b kNearIdenticalSimilarity = plainSimilarity a b := fun stays => by
    rw [similarity_eq, stays, if_neg Bool.false_ne_true]
  have stays : returnsEarly a b kNearIdenticalSimilarity = false → SimilarityAgrees a b :=
    fun stays => ⟨by rw [value stays, floor_le_plainSimilarity small], value⟩
  have positive : ¬kNearIdenticalSimilarity ≤ 0 := by decide +kernel
  rcases lt_trichotomy (5 * editDistance a b) (max a.length b.length) with below | fifth | above
  · refine iff_of_true (stays (not_returnsEarly small below)) fun budget => ?_
    exact below.ne budget.2.1
  · by_cases some : max a.length b.length = 0
    · refine iff_of_true (stays ?_) fun budget => budget.1 some
      rw [← Bool.not_eq_true, returnsEarly_iff]
      exact fun early => early.1 some
    · have exits := returnsEarly_iff_atBudget small some fifth
      cases early : returnsEarly a b kNearIdenticalSimilarity with
      | false => exact iff_of_true (stays early) fun budget => by simp [early, budget] at exits
      | true =>
        refine iff_of_false (fun agrees => ?_) (not_not.mpr (exits.mp early))
        have reaches := agrees.1.mpr fifth.le
        rw [similarity_eq, early, if_pos rfl] at reaches
        exact positive reaches
  · refine iff_of_true ⟨iff_of_false (fun reaches => ?_) above.not_ge, value⟩ fun budget => ?_
    · rw [similarity_eq] at reaches
      split at reaches
      · exact positive reaches
      · exact above.not_ge ((floor_le_plainSimilarity small).mp reaches)
    · exact above.ne budget.2.1.symm

theorem similarity_agrees_abcd :
    max (utf8 "abcdefgh").length (utf8 "abcdefxh").length ≤ 2 ^ 52 ∧
      (SimilarityAgrees (utf8 "abcdefgh") (utf8 "abcdefxh") ↔
        ¬AtBudget (utf8 "abcdefgh") (utf8 "abcdefxh")) :=
  ⟨by decide, similarity_agrees_iff _ _ (by decide)⟩

/-- One letter of five. -/
theorem one_of_five_disagrees :
    5 * editDistance (utf8 "abcde") (utf8 "abcdx") = 5 ∧
      similarity (utf8 "abcde") (utf8 "abcdx") kNearIdenticalSimilarity = 0 ∧
      ¬SimilarityAgrees (utf8 "abcde") (utf8 "abcdx") := by
  have fifth : 5 * editDistance (utf8 "abcde") (utf8 "abcdx") = 5 := by decide +kernel
  have early : similarity (utf8 "abcde") (utf8 "abcdx") kNearIdenticalSimilarity = 0 := by
    decide +kernel
  refine ⟨fifth, early, fun agrees => ?_⟩
  have reaches := agrees.1.mpr (fifth.trans_le (by decide +kernel))
  rw [early] at reaches
  exact absurd reaches (by decide +kernel)

end Svp.Vision
