import Mathlib

/-!
# Incremental decoding of a prefix code

A stream decoder is fed symbols in chunks of any size and asked for the next
item at any time. `Decodes` states what it does at the front of its buffer: it
takes an item whose encoding is there whole and waits for one that is there in
part. From these laws, `run_prefix` says what any sequence of calls yields of a
prefix of a stream of encodings, and `run_drained` what it has yielded once the
decoder has nothing more to give: the items the prefix wholly contains.
-/

namespace Svp.Lib

/-- A call of a decoder's client. -/
inductive StreamCall (β : Type*)
  | feed (chunk : List β)
  | next

/-- The symbols a sequence of calls feeds. -/
def fedBy {β : Type*} : List (StreamCall β) → List β
  | [] => []
  | .feed chunk :: rest => chunk ++ fedBy rest
  | .next :: rest => fedBy rest

@[simp] theorem fedBy_append {β : Type*} (calls more : List (StreamCall β)) :
    fedBy (calls ++ more) = fedBy calls ++ fedBy more := by
  induction calls with
  | nil => rfl
  | cons call rest ih => cases call <;> simp [fedBy, ih]

@[simp] theorem fedBy_next {β : Type*} (n : Nat) :
    fedBy (List.replicate n (.next : StreamCall β)) = [] := by
  induction n with
  | zero => rfl
  | succ n ih => rw [List.replicate_succ, fedBy, ih]

/-- A decoder as its client sees it. Both operations may throw. -/
structure StreamDecoder (β α ε σ : Type*) where
  buffer : σ → List β
  feed : σ → List β → Except ε Unit × σ
  next : σ → Except ε (Option α) × σ

namespace StreamDecoder

variable {β α ε σ : Type*} (D : StreamDecoder β α ε σ)

/-- What a sequence of calls yields; the first call that throws ends it. -/
def run : List (StreamCall β) → σ → Except ε (List α) × σ
  | [], s => (.ok [], s)
  | .feed chunk :: rest, s =>
    match D.feed s chunk with
    | (.error e, s') => (.error e, s')
    | (.ok (), s') => run rest s'
  | .next :: rest, s =>
    match D.next s with
    | (.error e, s') => (.error e, s')
    | (.ok item, s') =>
      match run rest s' with
      | (.error e, s'') => (.error e, s'')
      | (.ok items, s'') => (.ok (item.toList ++ items), s'')

/-- The decoder decodes `code` on the accepted items. -/
structure Decodes (code : α → List β) (accepted : Set α) (healthy : σ → Prop) : Prop where
  feed : ∀ s chunk, healthy s →
    ∃ s', D.feed s chunk = (.ok (), s') ∧ healthy s' ∧ D.buffer s' = D.buffer s ++ chunk
  take : ∀ s a rest, healthy s → a ∈ accepted → D.buffer s = code a ++ rest →
    ∃ s', D.next s = (.ok (some a), s') ∧ healthy s' ∧ D.buffer s' = rest
  wait : ∀ s a, healthy s → a ∈ accepted → D.buffer s <+: code a → D.buffer s ≠ code a →
    ∃ s', D.next s = (.ok none, s') ∧ healthy s' ∧ D.buffer s' = D.buffer s
  idle : ∀ s, healthy s → D.buffer s = [] →
    ∃ s', D.next s = (.ok none, s') ∧ healthy s' ∧ D.buffer s' = []

/-- How many of the items lie wholly in the first `n` symbols. -/
def wholeCount (code : α → List β) : List α → Nat → Nat
  | [], _ => 0
  | a :: rest, n =>
    if (code a).length ≤ n then wholeCount code rest (n - (code a).length) + 1 else 0

variable {D} {code : α → List β} {accepted : Set α} {healthy : σ → Prop}

/-- What `next` does at the front of a stream of encodings. -/
theorem Decodes.next_front (law : D.Decodes code accepted healthy) {s : σ} (ok : healthy s)
    {items : List α} (all : ∀ a ∈ items, a ∈ accepted) {rest : List β}
    (stream : D.buffer s ++ rest = items.flatMap code) :
    (∃ a items' s', items = a :: items' ∧ D.next s = (.ok (some a), s') ∧ healthy s' ∧
      D.buffer s = code a ++ D.buffer s') ∨
    (∃ s', D.next s = (.ok none, s') ∧ healthy s' ∧ D.buffer s' = D.buffer s ∧
      wholeCount code items (D.buffer s).length = 0) := by
  cases items with
  | nil =>
    have empty : D.buffer s = [] := (List.append_eq_nil_iff.mp stream).1
    obtain ⟨s', next, ok', empty'⟩ := law.idle s ok empty
    exact .inr ⟨s', next, ok', empty'.trans empty.symm, rfl⟩
  | cons a items' =>
    have isAccepted : a ∈ accepted := all a (by simp)
    have whole : code a <+: D.buffer s ++ rest := by
      rw [stream]
      exact List.prefix_append _ _
    by_cases fits : (code a).length ≤ (D.buffer s).length
    · obtain ⟨tail, split⟩ := List.prefix_of_prefix_length_le whole (List.prefix_append _ rest) fits
      obtain ⟨s', next, ok', left⟩ := law.take s a tail ok isAccepted split.symm
      exact .inl ⟨a, items', s', rfl, next, ok', by rw [left, split]⟩
    · have part : D.buffer s <+: code a :=
        List.prefix_of_prefix_length_le (List.prefix_append _ rest) whole (Nat.le_of_not_le fits)
      have strict : D.buffer s ≠ code a := fun same => fits (by rw [same])
      obtain ⟨s', next, ok', left⟩ := law.wait s a ok isAccepted part strict
      exact .inr ⟨s', next, ok', left, by rw [wholeCount, if_neg fits]⟩

/-- Any calls that feed a prefix of a stream of encodings yield its first items,
and what is buffered is the rest of what was fed. -/
theorem Decodes.run_prefix (law : D.Decodes code accepted healthy) (calls : List (StreamCall β))
    {s : σ} (ok : healthy s) {items : List α} (all : ∀ a ∈ items, a ∈ accepted) {rest : List β}
    (stream : D.buffer s ++ fedBy calls ++ rest = items.flatMap code) :
    ∃ k s', D.run calls s = (.ok (items.take k), s') ∧ healthy s' ∧ k ≤ items.length ∧
      (items.take k).flatMap code ++ D.buffer s' = D.buffer s ++ fedBy calls := by
  induction calls generalizing s items with
  | nil => exact ⟨0, s, rfl, ok, Nat.zero_le _, by simp [fedBy]⟩
  | cons call more ih =>
    cases call with
    | feed chunk =>
      obtain ⟨s₁, fed, ok₁, buffer₁⟩ := law.feed s chunk ok
      obtain ⟨k, s', ran, ok', le, left⟩ := ih ok₁ all (by
        rw [buffer₁, List.append_assoc _ chunk]
        exact stream)
      refine ⟨k, s', ?_, ok', le, ?_⟩
      · rw [run, fed]
        exact ran
      · rw [left, buffer₁, List.append_assoc]
        rfl
    | next =>
      have front : D.buffer s ++ (fedBy more ++ rest) = items.flatMap code := by
        rw [← List.append_assoc]
        exact stream
      rcases law.next_front ok all front with ⟨a, items', s₁, rfl, next, ok₁, split⟩ |
        ⟨s₁, next, ok₁, same, -⟩
      · have tail : D.buffer s₁ ++ fedBy more ++ rest = items'.flatMap code := by
          rw [split, List.flatMap_cons, List.append_assoc] at front
          rw [List.append_assoc]
          exact List.append_cancel_left front
        obtain ⟨k, s', ran, ok', le, left⟩ := ih ok₁
          (fun b mem => all b (List.mem_cons_of_mem a mem)) tail
        refine ⟨k + 1, s', ?_, ok', Nat.succ_le_succ le, ?_⟩
        · rw [run, next]
          simp [ran]
        · rw [List.take_succ_cons, List.flatMap_cons, List.append_assoc, left, split,
            List.append_assoc]
          rfl
      · obtain ⟨k, s', ran, ok', le, left⟩ := ih ok₁ all (by rw [same]; exact stream)
        refine ⟨k, s', ?_, ok', le, ?_⟩
        · rw [run, next]
          simp [ran]
        · rw [left, same]
          rfl

/-- As many calls of `next` as there are items yield every item the buffer
wholly contains. -/
theorem Decodes.run_next (law : D.Decodes code accepted healthy) (n : Nat) {s : σ}
    (ok : healthy s) {items : List α} (all : ∀ a ∈ items, a ∈ accepted) {rest : List β}
    (stream : D.buffer s ++ rest = items.flatMap code) (enough : items.length ≤ n) :
    ∃ s', D.run (List.replicate n .next) s =
        (.ok (items.take (wholeCount code items (D.buffer s).length)), s') ∧ healthy s' ∧
      (items.take (wholeCount code items (D.buffer s).length)).flatMap code ++ D.buffer s' =
        D.buffer s := by
  induction n generalizing s items with
  | zero =>
    obtain rfl : items = [] := List.length_eq_zero_iff.mp (Nat.le_zero.mp enough)
    exact ⟨s, by simp [run], ok, by simp⟩
  | succ n ih =>
    rw [List.replicate_succ, run]
    rcases law.next_front ok all stream with ⟨a, items', s₁, rfl, next, ok₁, split⟩ |
      ⟨s₁, next, ok₁, same, none⟩
    · have tail : D.buffer s₁ ++ rest = items'.flatMap code := by
        rw [split, List.flatMap_cons, List.append_assoc] at stream
        exact List.append_cancel_left stream
      obtain ⟨s', ran, ok', left⟩ := ih ok₁ (fun b mem => all b (List.mem_cons_of_mem a mem)) tail
        (Nat.le_of_succ_le_succ enough)
      have count : wholeCount code (a :: items') (D.buffer s).length =
          wholeCount code items' (D.buffer s₁).length + 1 := by
        rw [split, wholeCount, List.length_append, if_pos (Nat.le_add_right _ _),
          Nat.add_sub_cancel_left]
      refine ⟨s', ?_, ok', ?_⟩
      · simp [next, ran, count]
      · rw [count, List.take_succ_cons, List.flatMap_cons, List.append_assoc, left, ← split]
    · -- nothing whole is left: the other calls find the same
      have idle : ∀ (m : Nat) (s : σ), healthy s → D.buffer s ++ rest = items.flatMap code →
          wholeCount code items (D.buffer s).length = 0 →
          ∃ s', D.run (List.replicate m .next) s = (.ok [], s') ∧ healthy s' ∧
            D.buffer s' = D.buffer s := by
        intro m
        induction m with
        | zero => exact fun s ok _ _ => ⟨s, rfl, ok, rfl⟩
        | succ m ihm =>
          intro s ok stream none
          rw [List.replicate_succ, run]
          rcases law.next_front ok all stream with ⟨a, items', s₁, rfl, -, -, split⟩ |
            ⟨s₁, next, ok₁, same, -⟩
          · rw [wholeCount, split, List.length_append, if_pos (Nat.le_add_right _ _)] at none
            cases none
          · obtain ⟨s', ran, ok', left⟩ := ihm s₁ ok₁ (by rw [same]; exact stream)
              (by rw [same]; exact none)
            exact ⟨s', by simp [next, ran], ok', left.trans same⟩
      obtain ⟨s', ran, ok', left⟩ := idle n s₁ ok₁ (by rw [same]; exact stream)
        (by rw [same]; exact none)
      exact ⟨s', by simp [next, ran, none], ok', by simp [none, left, same]⟩

/-- What two sequences of calls yield one after the other. -/
theorem run_append {calls more : List (StreamCall β)} {s s' s'' : σ} {items items' : List α}
    (ran : D.run calls s = (.ok items, s')) (ran' : D.run more s' = (.ok items', s'')) :
    D.run (calls ++ more) s = (.ok (items ++ items'), s'') := by
  induction calls generalizing s items with
  | nil =>
    obtain ⟨rfl, rfl⟩ : items = [] ∧ s = s' := by simpa [run, eq_comm] using ran
    exact ran'
  | cons call rest ih =>
    cases call with
    | feed chunk =>
      rw [run] at ran
      rw [List.cons_append, run]
      split at ran
      · cases ran
      · exact ih ran
    | next =>
      rw [run] at ran
      rw [List.cons_append, run]
      split at ran
      · cases ran
      · next item s₁ _ =>
        split at ran
        · cases ran
        · next items₁ s₂ ran₁ =>
          obtain ⟨rfl, rfl⟩ : item.toList ++ items₁ = items ∧ s₂ = s' := by simpa using ran
          simp only [ih ran₁, List.append_assoc]

theorem wholeCount_take (code : α → List β) (items : List α) {k : Nat} (le : k ≤ items.length)
    (n : Nat) : wholeCount code items (((items.take k).flatMap code).length + n) =
      k + wholeCount code (items.drop k) n := by
  induction items generalizing k with
  | nil =>
    obtain rfl : k = 0 := Nat.le_zero.mp le
    simp
  | cons a rest ih =>
    cases k with
    | zero => simp
    | succ k =>
      have fits : (code a).length ≤ (((a :: rest).take (k + 1)).flatMap code).length + n := by
        simp only [List.take_succ_cons, List.flatMap_cons, List.length_append]
        omega
      have remains : (((a :: rest).take (k + 1)).flatMap code).length + n - (code a).length =
          ((rest.take k).flatMap code).length + n := by
        simp only [List.take_succ_cons, List.flatMap_cons, List.length_append]
        omega
      rw [wholeCount, if_pos fits, remains, ih (Nat.le_of_succ_le_succ le), List.drop_succ_cons]
      omega

/-- Any calls that feed a prefix of a stream of encodings, followed by enough
calls of `next`, yield exactly the items the prefix wholly contains. -/
theorem Decodes.run_drained (law : D.Decodes code accepted healthy) (calls : List (StreamCall β))
    {s : σ} (ok : healthy s) (fresh : D.buffer s = []) {items : List α}
    (all : ∀ a ∈ items, a ∈ accepted) {rest : List β}
    (stream : fedBy calls ++ rest = items.flatMap code) {n : Nat} (enough : items.length ≤ n) :
    ∃ s', D.run (calls ++ List.replicate n .next) s =
        (.ok (items.take (wholeCount code items (fedBy calls).length)), s') ∧ healthy s' ∧
      (items.take (wholeCount code items (fedBy calls).length)).flatMap code ++ D.buffer s' =
        fedBy calls := by
  obtain ⟨k, s₁, ran, ok₁, le, left⟩ := law.run_prefix calls ok all (by rw [fresh]; exact stream)
  rw [fresh, List.nil_append] at left
  have later : D.buffer s₁ ++ rest = (items.drop k).flatMap code := by
    have whole : (items.take k).flatMap code ++ (D.buffer s₁ ++ rest) =
        (items.take k).flatMap code ++ (items.drop k).flatMap code := by
      rw [← List.append_assoc, left, stream, ← List.flatMap_append, List.take_append_drop]
    exact List.append_cancel_left whole
  obtain ⟨s', ran', ok', left'⟩ := law.run_next n ok₁
    (fun a mem => all a (List.mem_of_mem_drop mem)) later
    ((List.length_drop ▸ Nat.sub_le _ _ : (items.drop k).length ≤ items.length).trans enough)
  have count : wholeCount code items (fedBy calls).length =
      k + wholeCount code (items.drop k) (D.buffer s₁).length := by
    rw [← left, List.length_append, wholeCount_take code items le]
  have taken : items.take k ++ (items.drop k).take
      (wholeCount code (items.drop k) (D.buffer s₁).length) =
      items.take (wholeCount code items (fedBy calls).length) := by
    rw [count, List.take_add]
  refine ⟨s', ?_, ok', ?_⟩
  · rw [run_append ran ran', taken]
  · rw [← taken, List.flatMap_append, List.append_assoc, left', left]

theorem wholeCount_map (code : α → List β) (items : List α) (n : Nat) :
    wholeCount id (items.map code) n = wholeCount code items n := by
  induction items generalizing n with
  | nil => rfl
  | cons a rest ih =>
    simp only [List.map_cons, wholeCount, id_eq]
    rw [ih]

/-- Nothing is left over exactly when the symbols end where an item ends. -/
theorem wholeCount_boundary (code : α → List β) (items : List α) {fed left : List β}
    (split : (items.take (wholeCount code items fed.length)).flatMap code ++ left = fed) :
    left = [] ↔ ∃ k, fed = (items.take k).flatMap code := by
  constructor
  · rintro rfl
    rw [List.append_nil] at split
    exact ⟨_, split.symm⟩
  · rintro ⟨k, isFed⟩
    have short : items.take k = items.take (min k items.length) := List.take_eq_take_min
    rw [short] at isFed
    have count := wholeCount_take code items (Nat.min_le_right k items.length) 0
    rw [← isFed, Nat.add_zero] at count
    have sizes := congrArg List.length split
    rw [count, List.take_add, List.flatMap_append, ← isFed] at sizes
    simp only [List.length_append] at sizes
    exact List.length_eq_zero_iff.mp (by omega)

/-- All items lie in the whole stream. -/
theorem wholeCount_all (code : α → List β) (items : List α) :
    wholeCount code items (items.flatMap code).length = items.length := by
  have all := wholeCount_take code items (le_refl items.length) 0
  rw [List.take_length, List.drop_length] at all
  exact all

end StreamDecoder

end Svp.Lib
