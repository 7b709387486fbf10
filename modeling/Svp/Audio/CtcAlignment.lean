import Svp.Lib.BestWalk

/-!
# CTC forced alignment

The aligner fills a trellis over the frames and the states of a token sequence, a blank
before and after every token, and reads a path back from its end. A path stays, goes to
the next state, or skips the blank between two different tokens.

With frames enough for the tokens, the path read back is a path from the first two states
to the last two and a best one (`alignedPath_best`), and the runs of such a path are one
span for each token (`spans_of_isCtcPath`). Scores are exact numbers here.
-/

namespace Svp.Audio

open Lib (walkBack walkBack_last MoveGraph WalkTable)

/-! ## The program -/

def kFrameSeconds : ℚ := 320 / 16000

structure CtcAlignmentToken where
  phone : String
  wordIndex : Nat := 0

structure CtcPhoneSpan where
  tokenIndex : Nat
  startSeconds : ℚ
  endSeconds : ℚ
deriving DecidableEq

/-- The token a state belongs to; a blank belongs to none. -/
def stateToken (s : Nat) : Option Nat := if s % 2 = 1 then some (s / 2) else none

/-- The loop over the frames of a path. -/
def spansFrom (frame : Nat) : List Nat → List CtcPhoneSpan
  | [] => []
  | state :: rest =>
    match stateToken state with
    | none => spansFrom (frame + 1) rest
    | some token =>
      let later := frame + 1 + (rest.takeWhile fun s => stateToken s = some token).length
      ⟨token, frame * kFrameSeconds, later * kFrameSeconds⟩ ::
        spansFrom later (rest.dropWhile fun s => stateToken s = some token)
termination_by states => states.length
decreasing_by
  · exact Nat.lt_succ_self _
  · exact Nat.lt_succ_of_le (List.dropWhile_suffix _).length_le

section Trellis

variable {α : Type} [LinearOrder α] {vocabSize : Nat} (blank : Fin vocabSize)
  (sequence : List (Fin vocabSize))

/-- The number of states. -/
def expanded : Nat := sequence.length * 2 + 1

/-- The vocabulary id of a state. -/
def stateLabel (s : Nat) : Fin vocabSize :=
  if s % 2 = 1 then sequence.getD (s / 2) blank else blank

/-- Takes the state `offset` before `s` where that is allowed and better. -/
def consider (before : Nat → α) (s offset : Nat) (allowed : Prop) [Decidable allowed]
    (best : α × Nat) : α × Nat :=
  if allowed ∧ best.1 < before (s - offset) then (before (s - offset), offset) else best

def bestChoice (before : Nat → α) (s : Nat) : α × Nat :=
  consider before s 2
    (1 < s ∧ stateLabel blank sequence s ≠ blank ∧
      stateLabel blank sequence s ≠ stateLabel blank sequence (s - 2))
    (consider before s 1 (0 < s) (before s, 0))

variable [AddCommMonoid α] (negInf : α) (emissions : Nat → Fin vocabSize → α)

/-- A row of `trellis` and `backpointers`. -/
def trellisRow : Nat → List (α × Nat)
  | 0 => (List.range (expanded sequence)).map fun s =>
      (if s < 2 then emissions 0 (stateLabel blank sequence s) else negInf, 0)
  | f + 1 =>
    let before := trellisRow f
    (List.range (expanded sequence)).map fun s =>
      let best := bestChoice blank sequence (fun q => (before.getD q (negInf, 0)).1) s
      (best.1 + emissions (f + 1) (stateLabel blank sequence s), best.2)

def trellis (f s : Nat) : α := ((trellisRow blank sequence negInf emissions f).getD s (negInf, 0)).1

def backpointer (f s : Nat) : Nat :=
  ((trellisRow blank sequence negInf emissions f).getD s (negInf, 0)).2

def finalState (frames : Nat) : Nat :=
  if 1 < expanded sequence ∧
      trellis blank sequence negInf emissions (frames - 1) (expanded sequence - 1) <
        trellis blank sequence negInf emissions (frames - 1) (expanded sequence - 2) then
    expanded sequence - 2
  else expanded sequence - 1

/-- The loop that fills `path` from its end. -/
def backtrack : (frames state : Nat) → List Nat → List Nat
  | 0, _, path => path
  | f + 1, state, path =>
    backtrack f (state - backpointer blank sequence negInf emissions f state) (state :: path)

def alignedPath (frames : Nat) : List Nat :=
  backtrack blank sequence negInf emissions frames
    (finalState blank sequence negInf emissions frames) []

end Trellis

/-! ## Paths -/

section
variable {α : Type} [AddCommMonoid α] [LinearOrder α] {vocabSize : Nat}
  (blank : Fin vocabSize) (sequence : List (Fin vocabSize))

/-- Stay, next, or skip the blank between two different tokens. -/
def CtcMove (q s : Nat) : Prop :=
  s < expanded sequence ∧ (s = q ∨ s = q + 1 ∨
    (s = q + 2 ∧ q % 2 = 1 ∧ stateLabel blank sequence q ≠ stateLabel blank sequence s))

/-- One of the last two states. -/
def IsFinal (s : Nat) : Prop := s + 1 = expanded sequence ∨ s + 2 = expanded sequence

/-- A path over the frames from the first two states to the last two. -/
structure IsCtcPath (frames : Nat) (path : List Nat) : Prop where
  length_eq : path.length = frames
  starts : path.getD 0 0 < 2 ∧ path.getD 0 0 < expanded sequence
  moves : ∀ f, f + 1 < frames → CtcMove blank sequence (path.getD f 0) (path.getD (f + 1) 0)
  ends : IsFinal sequence (path.getD (frames - 1) 0)

def totalEmission (emissions : Nat → Fin vocabSize → α) (path : List Nat) : α :=
  ∑ f ∈ Finset.range path.length, emissions f (stateLabel blank sequence (path.getD f 0))

/-- How many of the first tokens are followed by an equal one. -/
def repeats (tokens : Nat) : Nat :=
  (List.range tokens).countP fun i => sequence[i]? = sequence[i + 1]?

def ctcGraph (emissions : Nat → Fin vocabSize → α) : MoveGraph α where
  width := expanded sequence
  emit f s := emissions f (stateLabel blank sequence s)
  start s := s < 2 ∧ s < expanded sequence
  move := CtcMove blank sequence
  start_lt _ h := h.2
  move_lt _ _ h := h.1

end

/-! ## The table -/

section
variable {α : Type} [LinearOrder α] {vocabSize : Nat} {blank : Fin vocabSize}
  {sequence : List (Fin vocabSize)}

/-- A choice so far: its score is that of the state it leads from, and no smaller than
that of any state in question. -/
structure Chosen (before : Nat → α) (s : Nat) (offsets : Nat → Prop) (best : α × Nat) : Prop where
  among : offsets best.2
  score : best.1 = before (s - best.2)
  largest : ∀ offset, offsets offset → before (s - offset) ≤ best.1

theorem Chosen.consider {before : Nat → α} {s : Nat} {offsets : Nat → Prop} {best : α × Nat}
    (chosen : Chosen before s offsets best) (offset : Nat) (allowed : Prop) [Decidable allowed] :
    Chosen before s (fun other => offsets other ∨ (allowed ∧ other = offset))
      (consider before s offset allowed best) := by
  unfold Audio.consider
  split
  · next taken =>
    refine ⟨.inr ⟨taken.1, rfl⟩, rfl, fun other inQuestion => ?_⟩
    rcases inQuestion with earlier | ⟨_, rfl⟩
    · exact (chosen.largest other earlier).trans taken.2.le
    · exact le_rfl
  · next kept =>
    refine ⟨.inl chosen.among, chosen.score, fun other inQuestion => ?_⟩
    rcases inQuestion with earlier | ⟨isAllowed, rfl⟩
    · exact chosen.largest other earlier
    · exact not_lt.mp fun better => kept ⟨isAllowed, better⟩

theorem stateLabel_ne_blank (noBlank : blank ∉ sequence) {s : Nat} (inside : s < expanded sequence) :
    stateLabel blank sequence s ≠ blank ↔ s % 2 = 1 := by
  unfold stateLabel
  split
  · next odd =>
    have within : s / 2 < sequence.length := by
      rw [expanded] at inside
      omega
    rw [List.getD_eq_getElem _ _ within]
    exact iff_of_true (fun same => noBlank (same ▸ List.getElem_mem within)) odd
  · next even => exact iff_of_false (fun differs => differs rfl) even

/-- The code considers exactly the states a move leads from. -/
theorem bestChoice_spec (noBlank : blank ∉ sequence) (before : Nat → α) {s : Nat}
    (inside : s < expanded sequence) :
    let best := bestChoice blank sequence before s
    CtcMove blank sequence (s - best.2) s ∧ best.1 = before (s - best.2) ∧
      ∀ q, CtcMove blank sequence q s → before q ≤ best.1 := by
  intro best
  have start : Chosen before s (· = 0) (before s, 0) :=
    ⟨rfl, rfl, fun offset zero => by rw [zero]; exact le_rfl⟩
  have chosen := (start.consider 1 (0 < s)).consider 2
    (1 < s ∧ stateLabel blank sequence s ≠ blank ∧
      stateLabel blank sequence s ≠ stateLabel blank sequence (s - 2))
  have token := stateLabel_ne_blank noBlank inside
  refine ⟨⟨inside, ?_⟩, chosen.score, fun q move => ?_⟩
  · obtain (stay | ⟨later, next⟩) | ⟨⟨later, isToken, differs⟩, skip⟩ := chosen.among
    · exact .inl (by rw [show best.2 = 0 from stay, Nat.sub_zero])
    · exact .inr (.inl (by rw [show best.2 = 1 from next, Nat.sub_add_cancel later]))
    · have odd := token.mp isToken
      refine .inr (.inr ?_)
      rw [show best.2 = 2 from skip, Nat.sub_add_cancel later]
      exact ⟨rfl, by omega, differs.symm⟩
  · obtain ⟨-, rfl | rfl | ⟨rfl, odd, differs⟩⟩ := move
    · exact chosen.largest 0 (.inl (.inl rfl))
    · exact chosen.largest 1 (.inl (.inr ⟨q.succ_pos, rfl⟩))
    · refine chosen.largest 2 (.inr ⟨⟨by omega, token.mpr (by omega), ?_⟩, rfl⟩)
      rw [Nat.add_sub_cancel]
      exact differs.symm

end

section
variable {α : Type} [AddCommMonoid α] [LinearOrder α] {vocabSize : Nat}
  {blank : Fin vocabSize} {sequence : List (Fin vocabSize)} {negInf : α}
  {emissions : Nat → Fin vocabSize → α}

theorem trellis_zero {s : Nat} (inside : s < expanded sequence) :
    trellis blank sequence negInf emissions 0 s =
      if s < 2 then emissions 0 (stateLabel blank sequence s) else negInf := by
  simp [trellis, trellisRow, List.getD_eq_getElem?_getD, inside]

theorem trellis_succ {f s : Nat} (inside : s < expanded sequence) :
    trellis blank sequence negInf emissions (f + 1) s =
        (bestChoice blank sequence (trellis blank sequence negInf emissions f) s).1 +
          emissions (f + 1) (stateLabel blank sequence s) ∧
      backpointer blank sequence negInf emissions (f + 1) s =
        (bestChoice blank sequence (trellis blank sequence negInf emissions f) s).2 := by
  have row : (trellisRow blank sequence negInf emissions (f + 1)).getD s (negInf, 0) =
      ((bestChoice blank sequence (trellis blank sequence negInf emissions f) s).1 +
          emissions (f + 1) (stateLabel blank sequence s),
        (bestChoice blank sequence (trellis blank sequence negInf emissions f) s).2) := by
    simp only [trellisRow, List.getD_eq_getElem?_getD, List.getElem?_map,
      List.getElem?_range inside, Option.map_some, Option.getD_some]
    rfl
  exact ⟨by rw [trellis, row], by rw [backpointer, row]⟩

theorem walkTable (noBlank : blank ∉ sequence) (last : Nat) :
    WalkTable (ctcGraph blank sequence emissions) last (trellis blank sequence negInf emissions)
      fun f s => s - backpointer blank sequence negInf emissions f s where
  first s start := by rw [trellis_zero start.2, if_pos start.1, ctcGraph]
  back_lt f _ s inside := (Nat.sub_le _ _).trans_lt inside
  back_move f _ s inside := by
    rw [(trellis_succ inside).2]
    exact (bestChoice_spec noBlank _ inside).1
  reached f _ s inside := by
    obtain ⟨value, pointer⟩ := @trellis_succ _ _ _ _ blank sequence negInf emissions f s inside
    rw [value, pointer, (bestChoice_spec noBlank _ inside).2.1]
    rfl
  largest f _ s q move := by
    obtain ⟨-, score, largest⟩ :=
      bestChoice_spec noBlank (trellis blank sequence negInf emissions f) move.1
    rw [(trellis_succ move.1).2, ← score]
    exact largest q move

end

/-! ## Paths as walks -/

section
variable {α : Type} {vocabSize : Nat} {blank : Fin vocabSize} {sequence : List (Fin vocabSize)}
  {emissions : Nat → Fin vocabSize → α}

/-- The states of a path of the graph as the list of the code. -/
theorem getD_map_range {frames f : Nat} (path : Nat → Nat) (before : f < frames) :
    ((List.range frames).map path).getD f 0 = path f := by
  rw [List.getD_eq_getElem?_getD, List.getElem?_map, List.getElem?_range before, Option.map_some,
    Option.getD_some]

theorem isCtcPath_of_isWalk {last : Nat} {path : Nat → Nat}
    (walk : (ctcGraph blank sequence emissions).IsWalk last path)
    (ends : IsFinal sequence (path last)) :
    IsCtcPath blank sequence (last + 1) ((List.range (last + 1)).map path) where
  length_eq := by rw [List.length_map, List.length_range]
  starts := by
    rw [getD_map_range path last.succ_pos]
    exact walk.starts
  moves f before := by
    rw [getD_map_range path before, getD_map_range path (Nat.lt_of_succ_lt before)]
    exact walk.moves f (Nat.lt_of_succ_lt_succ before)
  ends := by
    rw [Nat.add_sub_cancel, getD_map_range path last.lt_succ_self]
    exact ends

theorem isWalk_of_isCtcPath {last : Nat} {path : List Nat}
    (isPath : IsCtcPath blank sequence (last + 1) path) :
    (ctcGraph blank sequence emissions).IsWalk last fun f => path.getD f 0 :=
  ⟨isPath.starts, fun f before => isPath.moves f (Nat.succ_lt_succ before)⟩

theorem totalEmission_map_range [AddCommMonoid α] {last : Nat} (path : Nat → Nat) :
    totalEmission blank sequence emissions ((List.range (last + 1)).map path) =
      (ctcGraph blank sequence emissions).total path last := by
  rw [totalEmission, List.length_map, List.length_range]
  refine Finset.sum_congr rfl fun f inside => ?_
  rw [getD_map_range path (Finset.mem_range.mp inside), ctcGraph]

theorem totalEmission_eq_total [AddCommMonoid α] {last : Nat} {path : List Nat} (size : path.length = last + 1) :
    totalEmission blank sequence emissions path =
      (ctcGraph blank sequence emissions).total (fun f => path.getD f 0) last := by
  rw [totalEmission, size]
  rfl

/-! ## A path for every token sequence -/

/-- Some walk is at a state at a frame. -/
def Reaches (blank : Fin vocabSize) (sequence : List (Fin vocabSize))
    (emissions : Nat → Fin vocabSize → α) (f s : Nat) : Prop :=
  ∃ path, (ctcGraph blank sequence emissions).IsWalk f path ∧ path f = s

theorem Reaches.step {f q s : Nat} (reaches : Reaches blank sequence emissions f q)
    (move : CtcMove blank sequence q s) : Reaches blank sequence emissions (f + 1) s := by
  obtain ⟨path, walk, rfl⟩ := reaches
  exact ⟨_, walk.extend move, Function.update_self _ _ _⟩

theorem Reaches.wait {f later s : Nat} (reaches : Reaches blank sequence emissions f s)
    (inside : s < expanded sequence) (before : f ≤ later) :
    Reaches blank sequence emissions later s := by
  induction later, before using Nat.le_induction with
  | base => exact reaches
  | succ later _ ih => exact ih.step ⟨inside, .inl rfl⟩

theorem reaches_start {s : Nat} (first : s < 2) (inside : s < expanded sequence) :
    Reaches blank sequence emissions 0 s :=
  ⟨fun _ => s, ⟨⟨first, inside⟩, fun i before => absurd before i.not_lt_zero⟩, rfl⟩

theorem repeats_succ (tokens : Nat) : repeats sequence (tokens + 1) =
    repeats sequence tokens + if sequence[tokens]? = sequence[tokens + 1]? then 1 else 0 := by
  rw [repeats, repeats, List.range_succ, List.countP_append, List.countP_singleton]
  simp

theorem stateLabel_token {i : Nat} (within : i < sequence.length) :
    stateLabel blank sequence (2 * i + 1) = sequence[i] := by
  have half : (2 * i + 1) / 2 = i := by omega
  rw [stateLabel, if_pos (by omega), half, List.getD_eq_getElem _ _ within]

/-- A token is reached after the tokens before it, and a blank for every repeated one. -/
theorem reaches_token {i : Nat} (within : i < sequence.length) :
    Reaches blank sequence emissions (i + repeats sequence i) (2 * i + 1) := by
  induction i with
  | zero => exact reaches_start Nat.one_lt_two (by rw [expanded]; omega)
  | succ i ih =>
    have before := ih (Nat.lt_of_succ_lt within)
    have inside : 2 * (i + 1) + 1 < expanded sequence := by rw [expanded]; omega
    rw [repeats_succ]
    split
    · have blankBetween : CtcMove blank sequence (2 * i + 1) (2 * i + 2) :=
        ⟨by omega, .inr (.inl rfl)⟩
      have token : CtcMove blank sequence (2 * i + 2) (2 * (i + 1) + 1) :=
        ⟨inside, .inr (.inl (by omega))⟩
      have reached := (before.step blankBetween).step token
      rwa [show i + 1 + (repeats sequence i + 1) = i + repeats sequence i + 1 + 1 by omega]
    · next differs =>
      have skip : CtcMove blank sequence (2 * i + 1) (2 * (i + 1) + 1) := by
        refine ⟨inside, .inr (.inr ⟨by omega, by omega, ?_⟩)⟩
        rw [stateLabel_token (Nat.lt_of_succ_lt within), stateLabel_token within]
        intro same
        rw [List.getElem?_eq_getElem (Nat.lt_of_succ_lt within), List.getElem?_eq_getElem within,
          same] at differs
        exact differs rfl
      have reached := before.step skip
      rwa [show i + 1 + (repeats sequence i + 0) = i + repeats sequence i + 1 by omega]

/-- With frames enough for the tokens and a blank between equal neighbours there is a
path. -/
theorem exists_walk {last : Nat}
    (room : sequence.length + repeats sequence (sequence.length - 1) ≤ last + 1) :
    ∃ path, (ctcGraph blank sequence emissions).IsWalk last path ∧ IsFinal sequence (path last) := by
  cases size : sequence.length with
  | zero =>
    have one : expanded sequence = 1 := by rw [expanded, size]
    have start : Reaches blank sequence emissions 0 0 := reaches_start Nat.two_pos (one ▸ Nat.one_pos)
    obtain ⟨path, walk, here⟩ := start.wait (one ▸ Nat.one_pos) last.zero_le
    exact ⟨path, walk, .inl (by rw [here, one])⟩
  | succ tokens =>
    rw [size, Nat.add_sub_cancel] at room
    have token : Reaches blank sequence emissions (tokens + repeats sequence tokens) (2 * tokens + 1) :=
      reaches_token (size ▸ tokens.lt_succ_self)
    have reached : Reaches blank sequence emissions last (2 * tokens + 1) :=
      token.wait (by rw [expanded]; omega) (by omega)
    obtain ⟨path, walk, here⟩ := reached
    exact ⟨path, walk, .inr (by rw [here, expanded, size]; omega)⟩

end

/-! ## The path of the code -/

section
variable {α : Type} [AddCommMonoid α] [LinearOrder α] {vocabSize : Nat}
  {blank : Fin vocabSize} {sequence : List (Fin vocabSize)} {negInf : α}
  {emissions : Nat → Fin vocabSize → α}

theorem backtrack_eq {last state : Nat} {path : List Nat} :
    backtrack blank sequence negInf emissions (last + 1) state path =
      (List.range (last + 1)).map (walkBack
        (fun f s => s - backpointer blank sequence negInf emissions f s) last state) ++ path := by
  induction last generalizing state path with
  | zero => rfl
  | succ last ih =>
    rw [backtrack, ih, List.range_succ (n := last + 1), List.map_append, List.append_assoc]
    refine congrArg₂ _ (List.map_congr_left fun i mem => ?_) ?_
    · exact (if_neg (List.mem_range.mp mem).ne).symm
    · simp [walkBack_last]

theorem finalState_spec (last : Nat) :
    let state := finalState blank sequence negInf emissions (last + 1)
    IsFinal sequence state ∧ state < expanded sequence ∧
      ∀ q, IsFinal sequence q → trellis blank sequence negInf emissions last q ≤
        trellis blank sequence negInf emissions last state := by
  intro state
  have some : 0 < expanded sequence := Nat.succ_pos _
  have last1 : ∀ q, q + 1 = expanded sequence → q = expanded sequence - 1 := by omega
  have last2 : ∀ q, q + 2 = expanded sequence → q = expanded sequence - 2 := by omega
  by_cases better : 1 < expanded sequence ∧
      trellis blank sequence negInf emissions last (expanded sequence - 1) <
        trellis blank sequence negInf emissions last (expanded sequence - 2)
  · have isState : state = expanded sequence - 2 := if_pos better
    rw [isState]
    refine ⟨.inr (Nat.sub_add_cancel better.1), Nat.sub_lt some Nat.two_pos, ?_⟩
    rintro q (isLast | isBefore)
    · rw [last1 q isLast]
      exact better.2.le
    · rw [last2 q isBefore]
  · have isState : state = expanded sequence - 1 := if_neg better
    rw [isState]
    refine ⟨.inl (Nat.sub_add_cancel some), Nat.sub_lt some Nat.one_pos, ?_⟩
    rintro q (isLast | isBefore)
    · rw [last1 q isLast]
    · rw [last2 q isBefore]
      exact not_lt.mp fun more => better ⟨by omega, more⟩

end

/-! ## Spans -/

section
variable {vocabSize : Nat} {blank : Fin vocabSize} {sequence : List (Fin vocabSize)}

theorem stateToken_eq_some {s token : Nat} :
    stateToken s = some token ↔ s = 2 * token + 1 := by
  rw [stateToken]
  split
  · rw [Option.some.injEq]
    omega
  · exact iff_of_false nofun (by omega)

theorem stateToken_eq_none {s : Nat} : stateToken s = none ↔ s % 2 = 0 := by
  rw [stateToken]
  split
  · exact iff_of_false nofun (by omega)
  · exact iff_of_true rfl (by omega)

/-- A run of one token and the states after it. -/
theorem run_split {s token : Nat} (isToken : stateToken s = some token) (rest : List Nat) :
    ∃ run, s :: rest = run ++ rest.dropWhile (fun s => decide (stateToken s = some token)) ∧
      run.getLast? = some s := by
  refine ⟨s :: rest.takeWhile fun s => decide (stateToken s = some token), ?_, ?_⟩
  · rw [List.cons_append, List.takeWhile_append_dropWhile]
  · have all : ∀ x ∈ s :: rest.takeWhile (fun s => decide (stateToken s = some token)), x = s := by
      intro x mem
      rcases List.mem_cons.mp mem with same | inRun
      · exact same
      · have ofToken : stateToken x = some token := by simpa using List.mem_takeWhile_imp inRun
        rw [stateToken_eq_some.mp ofToken, stateToken_eq_some.mp isToken]
    rw [List.getLast?_eq_some_getLast (List.cons_ne_nil _ _)]
    exact congrArg some (all _ (List.getLast_mem _))

/-- The runs of a path that ends in one of the last two states are the tokens from the one
its first state is at or before. -/
theorem spansFrom_tokenIndex (frame : Nat) (states : List Nat)
    (chain : states.IsChain (CtcMove blank sequence))
    (inside : ∀ s ∈ states, s < expanded sequence)
    (ends : ∀ s ∈ states.getLast?, expanded sequence ≤ s + 2) :
    (spansFrom frame states).map CtcPhoneSpan.tokenIndex =
      (states.head?.map fun s => List.range' (s / 2) (sequence.length - s / 2)).getD [] := by
  fun_induction spansFrom frame states with
  | case1 => rfl
  | case2 frame s rest isBlank ih =>
    have even := stateToken_eq_none.mp isBlank
    rw [List.head?_cons, Option.map_some, Option.getD_some]
    cases rest with
    | nil =>
      have final := ends s rfl
      have bound := inside s List.mem_cons_self
      rw [expanded] at final bound
      rw [spansFrom, show sequence.length - s / 2 = 0 by omega]
      rfl
    | cons next rest =>
      obtain ⟨step, chainRest⟩ := List.isChain_cons_cons.mp chain
      rw [ih chainRest (fun x mem => inside x (List.mem_cons_of_mem s mem)) ends, List.head?_cons,
        Option.map_some, Option.getD_some]
      obtain ⟨-, rfl | rfl | ⟨-, odd, -⟩⟩ := step
      · rfl
      · rw [show (s + 1) / 2 = s / 2 by omega]
      · omega
  | case3 frame s rest token isToken later ih =>
    have odd := stateToken_eq_some.mp isToken
    have bound := inside s List.mem_cons_self
    rw [expanded] at bound
    obtain ⟨run, split, runLast⟩ := run_split isToken rest
    rw [split] at chain ends inside
    obtain ⟨-, chainRest, step⟩ := List.isChain_append.mp chain
    have half : s / 2 = token := by omega
    rw [List.head?_cons, Option.map_some, Option.getD_some, half, List.map_cons,
      show sequence.length - token = sequence.length - (token + 1) + 1 by omega, List.range'_succ]
    refine congrArg _ ?_
    cases after : rest.dropWhile fun s => decide (stateToken s = some token) with
    | nil =>
      rw [after, List.append_nil] at ends
      have final := ends s runLast
      rw [expanded] at final
      rw [spansFrom, show sequence.length - (token + 1) = 0 by omega]
      rfl
    | cons next others =>
      rw [after] at ih chainRest inside ends step
      have differs : stateToken next ≠ some token := by
        have stops := List.head?_dropWhile_not (fun s => decide (stateToken s = some token)) rest
        rw [after] at stops
        simpa using stops
      rw [ih chainRest (fun x mem => inside x (List.mem_append_right run mem)) (by
        rw [List.getLast?_append_of_ne_nil _ (List.cons_ne_nil _ _)] at ends
        exact ends), List.head?_cons, Option.map_some, Option.getD_some]
      have move := step s runLast next rfl
      rw [ne_eq, stateToken_eq_some] at differs
      obtain ⟨-, rfl | rfl | ⟨rfl, -, -⟩⟩ := move
      · exact absurd odd differs
      · rw [show (s + 1) / 2 = token + 1 by omega]
      · rw [show (s + 2) / 2 = token + 1 by omega]

theorem kFrameSeconds_pos : 0 < kFrameSeconds := by
  rw [kFrameSeconds]
  norm_num

theorem seconds_mono {a b : Nat} (before : a ≤ b) : a * kFrameSeconds ≤ b * kFrameSeconds :=
  mul_le_mul_of_nonneg_right (Nat.cast_le.mpr before) kFrameSeconds_pos.le

/-- Spans are not empty and follow each other. -/
theorem spansFrom_ordered (frame : Nat) (states : List Nat) :
    (∀ span ∈ spansFrom frame states,
        frame * kFrameSeconds ≤ span.startSeconds ∧ span.startSeconds < span.endSeconds) ∧
      (spansFrom frame states).Pairwise fun a b => a.endSeconds ≤ b.startSeconds := by
  fun_induction spansFrom frame states with
  | case1 => exact ⟨nofun, List.Pairwise.nil⟩
  | case2 frame s rest isBlank ih =>
    refine ⟨fun span mem => ?_, ih.2⟩
    exact ⟨(seconds_mono frame.le_succ).trans (ih.1 span mem).1, (ih.1 span mem).2⟩
  | case3 frame s rest token isToken later ih =>
    have more : frame < later := Nat.lt_of_lt_of_le frame.lt_succ_self (Nat.le_add_right _ _)
    refine ⟨fun span mem => ?_, List.pairwise_cons.mpr ⟨fun span mem => (ih.1 span mem).1, ih.2⟩⟩
    rcases List.mem_cons.mp mem with rfl | mem
    · exact ⟨le_rfl, mul_lt_mul_of_pos_right (Nat.cast_lt.mpr more) kFrameSeconds_pos⟩
    · exact ⟨(seconds_mono more.le).trans (ih.1 span mem).1, (ih.1 span mem).2⟩

end

/-! ## The best path -/

section
variable {α : Type} [AddCommMonoid α] [LinearOrder α] [IsOrderedAddMonoid α] {vocabSize : Nat}
  {blank : Fin vocabSize} {sequence : List (Fin vocabSize)} {negInf : α}
  {emissions : Nat → Fin vocabSize → α}

/-- No sum of emissions makes up for the constant for minus infinity in place of the
emission of the first frame. -/
def StaysBelow (negInf : α) (emissions : Nat → Fin vocabSize → α) (frames : Nat) : Prop :=
  ∀ labels other : Nat → Fin vocabSize,
    negInf + ∑ f ∈ Finset.range (frames - 1), emissions (f + 1) (other (f + 1)) <
      ∑ f ∈ Finset.range frames, emissions f (labels f)

/-- On any emissions, the path read back is a path, and no path has a greater total. -/
theorem alignedPath_best (noBlank : blank ∉ sequence) {frames : Nat} (nonempty : 0 < frames)
    (room : sequence.length + repeats sequence (sequence.length - 1) ≤ frames)
    (below : StaysBelow negInf emissions frames) :
    IsCtcPath blank sequence frames (alignedPath blank sequence negInf emissions frames) ∧
      ∀ other, IsCtcPath blank sequence frames other →
        totalEmission blank sequence emissions other ≤ totalEmission blank sequence emissions
          (alignedPath blank sequence negInf emissions frames) := by
  obtain ⟨last, rfl⟩ := Nat.exists_eq_succ_of_ne_zero nonempty.ne'
  obtain ⟨ends, inside, largest⟩ :=
    @finalState_spec α _ _ vocabSize blank sequence negInf emissions last
  have table := @walkTable α _ _ vocabSize blank sequence negInf emissions noBlank last
  have apart : ∀ q < expanded sequence, ¬(q < 2 ∧ q < expanded sequence) → ∀ path other : Nat → Nat,
      trellis blank sequence negInf emissions 0 q +
          (ctcGraph blank sequence emissions).later other last <
        (ctcGraph blank sequence emissions).total path last := by
    intro q inStates outside path other
    rw [trellis_zero inStates, if_neg fun early => outside ⟨early, inStates⟩]
    exact below (fun f => stateLabel blank sequence (path f)) fun f =>
      stateLabel blank sequence (other f)
  have best : ∀ path, (ctcGraph blank sequence emissions).IsWalk last path →
      IsFinal sequence (path last) →
      (ctcGraph blank sequence emissions).IsWalk last (walkBack
          (fun f s => s - backpointer blank sequence negInf emissions f s) last
          (finalState blank sequence negInf emissions (last + 1))) ∧
        (ctcGraph blank sequence emissions).total path last ≤
          (ctcGraph blank sequence emissions).total (walkBack
            (fun f s => s - backpointer blank sequence negInf emissions f s) last
            (finalState blank sequence negInf emissions (last + 1))) last :=
    fun path walk isEnd => table.best inside (fun q isFinal _ => largest q isFinal)
      (fun q inStates outside path other _ _ => apart q inStates outside path other) walk isEnd
  have read : alignedPath blank sequence negInf emissions (last + 1) =
      (List.range (last + 1)).map (walkBack
        (fun f s => s - backpointer blank sequence negInf emissions f s) last
        (finalState blank sequence negInf emissions (last + 1))) := by
    rw [alignedPath, backtrack_eq, List.append_nil]
  obtain ⟨path, walk, isEnd⟩ := @exists_walk α vocabSize blank sequence emissions last room
  rw [read]
  refine ⟨isCtcPath_of_isWalk (best path walk isEnd).1 (by rwa [walkBack_last]), ?_⟩
  intro other isPath
  rw [totalEmission_map_range, totalEmission_eq_total isPath.length_eq]
  exact (best _ (isWalk_of_isCtcPath isPath) isPath.ends).2

example : alignedPath (0 : Fin 3) [1, 1, 2] (-100 : ℤ) (fun _ v => -(v.val : ℤ)) 5 =
    [1, 2, 3, 5, 6] := by decide

end

section
variable {vocabSize : Nat} {blank : Fin vocabSize} {sequence : List (Fin vocabSize)}

/-- The spans of a path are one for each token. -/
theorem spans_of_isCtcPath {frames : Nat} (nonempty : 0 < frames) {path : List Nat}
    (isPath : IsCtcPath blank sequence frames path) :
    (spansFrom 0 path).map CtcPhoneSpan.tokenIndex = List.range sequence.length := by
  have states : ∀ f (before : f < path.length), path.getD f 0 = path[f] := fun f before =>
    List.getD_eq_getElem path 0 before
  have size := isPath.length_eq
  have chain : path.IsChain (CtcMove blank sequence) := by
    refine List.isChain_iff_getElem.mpr fun f before => ?_
    rw [← states, ← states]
    exact isPath.moves f (size ▸ before)
  have inside : ∀ s ∈ path, s < expanded sequence := by
    intro s mem
    obtain ⟨f, before, rfl⟩ := List.mem_iff_getElem.mp mem
    rw [← states]
    cases f with
    | zero => exact isPath.starts.2
    | succ f => exact (isPath.moves f (size ▸ before)).1
  have ends : ∀ s ∈ path.getLast?, expanded sequence ≤ s + 2 := by
    intro s isLast
    rw [Option.mem_def, List.getLast?_eq_getElem?, size] at isLast
    have last : path.getD (frames - 1) 0 = s := by
      rw [List.getD_eq_getElem?_getD, isLast, Option.getD_some]
    rcases last ▸ isPath.ends with final | final
    · exact final ▸ Nat.le_succ _
    · exact final.ge
  have first : path.head? = some (path.getD 0 0) := by
    rw [List.head?_eq_getElem?, List.getD_eq_getElem?_getD,
      List.getElem?_eq_getElem (size ▸ nonempty)]
    rfl
  rw [spansFrom_tokenIndex 0 path chain inside ends, first, Option.map_some, Option.getD_some,
    Nat.div_eq_of_lt isPath.starts.1, Nat.sub_zero, List.range_eq_range']

end

end Svp.Audio
