import Mathlib

/-!
# Finite maps iterated in key order

`OrderedMap κ α` is an association list whose keys strictly increase, so a
traversal of `entries` visits the keys in order and no key twice. The lemmas
describe every operation by membership in `entries` and, for counting
arguments, by a permutation of `entries`.
-/

namespace Svp.Lib

/-- An association list with strictly increasing keys. -/
structure OrderedMap (κ : Type*) (α : Type*) [LinearOrder κ] where
  entries : List (κ × α)
  sorted : (entries.map Prod.fst).Pairwise (· < ·)

namespace OrderedMap

variable {κ α : Type*} [LinearOrder κ]

/-- The list behind `insert`: replaces the value under `k`, or adds the pair at
its place in the order. -/
def insertEntry (k : κ) (v : α) : List (κ × α) → List (κ × α)
  | [] => [(k, v)]
  | (k', v') :: rest =>
    if k < k' then (k, v) :: (k', v') :: rest
    else if k = k' then (k, v) :: rest
    else (k', v') :: insertEntry k v rest

theorem insertEntry_keys {k : κ} {v : α} {l : List (κ × α)} {x : κ}
    (hx : x ∈ (insertEntry k v l).map Prod.fst) : x = k ∨ x ∈ l.map Prod.fst := by
  induction l with
  | nil => simpa [insertEntry] using hx
  | cons p rest ih =>
    obtain ⟨k', v'⟩ := p
    simp only [insertEntry] at hx
    split at hx
    · simpa using hx
    · split at hx
      · rcases List.mem_cons.mp hx with h | h
        · exact .inl h
        · exact .inr (List.mem_cons_of_mem _ h)
      · rcases List.mem_cons.mp hx with h | h
        · exact .inr (by simp [h])
        · rcases ih h with h | h
          · exact .inl h
          · exact .inr (List.mem_cons_of_mem _ h)

theorem insertEntry_sorted (k : κ) (v : α) {l : List (κ × α)}
    (h : (l.map Prod.fst).Pairwise (· < ·)) :
    ((insertEntry k v l).map Prod.fst).Pairwise (· < ·) := by
  induction l with
  | nil => simp [insertEntry]
  | cons p rest ih =>
    obtain ⟨k', v'⟩ := p
    rw [List.map_cons, List.pairwise_cons] at h
    obtain ⟨hk', hrest⟩ := h
    simp only [insertEntry]
    split
    · next hlt =>
      refine List.pairwise_cons.mpr ⟨fun x hx => ?_, List.pairwise_cons.mpr ⟨hk', hrest⟩⟩
      rcases List.mem_cons.mp hx with rfl | hx
      · exact hlt
      · exact hlt.trans (hk' x hx)
    · next hnlt =>
      split
      · next heq =>
        subst heq
        exact List.pairwise_cons.mpr ⟨hk', hrest⟩
      · next hne =>
        refine List.pairwise_cons.mpr ⟨fun x hx => ?_, ih hrest⟩
        rcases insertEntry_keys hx with rfl | hx
        · exact lt_of_le_of_ne (not_lt.mp hnlt) (Ne.symm hne)
        · exact hk' x hx

theorem mem_insertEntry {k : κ} {v : α} {l : List (κ × α)}
    (h : (l.map Prod.fst).Pairwise (· < ·)) (p : κ × α) :
    p ∈ insertEntry k v l ↔ p = (k, v) ∨ (p.1 ≠ k ∧ p ∈ l) := by
  induction l with
  | nil => simp [insertEntry]
  | cons q rest ih =>
    obtain ⟨k', v'⟩ := q
    rw [List.map_cons, List.pairwise_cons] at h
    obtain ⟨hk', hrest⟩ := h
    have hgt : ∀ p ∈ rest, k' < p.1 := fun p hp => hk' p.1 (List.mem_map_of_mem hp)
    simp only [insertEntry]
    split
    · next hlt =>
      have hne : ∀ p ∈ (k', v') :: rest, p.1 ≠ k := by
        intro p hp
        rcases List.mem_cons.mp hp with rfl | hp
        · exact ne_of_gt hlt
        · exact ne_of_gt (hlt.trans (hgt p hp))
      rw [List.mem_cons]
      exact or_congr_right ⟨fun hp => ⟨hne p hp, hp⟩, fun hp => hp.2⟩
    · split
      · next heq =>
        subst heq
        rw [List.mem_cons, List.mem_cons]
        refine or_congr_right ⟨fun hp => ⟨ne_of_gt (hgt p hp), .inr hp⟩, ?_⟩
        rintro ⟨hne, rfl | hp⟩
        · exact absurd rfl hne
        · exact hp
      · next hne =>
        rw [List.mem_cons, List.mem_cons, ih hrest]
        constructor
        · rintro (rfl | rfl | ⟨h1, h2⟩)
          · exact .inr ⟨Ne.symm hne, .inl rfl⟩
          · exact .inl rfl
          · exact .inr ⟨h1, .inr h2⟩
        · rintro (rfl | ⟨h1, rfl | h2⟩)
          · exact .inr (.inl rfl)
          · exact .inl rfl
          · exact .inr (.inr ⟨h1, h2⟩)

/-- The map with no entry. -/
def empty : OrderedMap κ α := ⟨[], by simp⟩

/-- Insert or assign. -/
def insert (m : OrderedMap κ α) (k : κ) (v : α) : OrderedMap κ α :=
  ⟨insertEntry k v m.entries, insertEntry_sorted k v m.sorted⟩

/-- Insert unless the key is there: `std::map::emplace`. -/
def emplace (m : OrderedMap κ α) (k : κ) (v : α) : OrderedMap κ α :=
  if (m.entries.find? (fun p => decide (p.1 = k))).isSome then m else m.insert k v

/-- The map without key `k`. -/
def erase (m : OrderedMap κ α) (k : κ) : OrderedMap κ α :=
  ⟨m.entries.filter (fun p => decide (p.1 ≠ k)),
    m.sorted.sublist (List.filter_sublist.map Prod.fst)⟩

/-- The value under `k`. -/
def find? (m : OrderedMap κ α) (k : κ) : Option α :=
  (m.entries.find? (fun p => decide (p.1 = k))).map Prod.snd

/-- Whether the map has key `k`. -/
def contains (m : OrderedMap κ α) (k : κ) : Bool := (m.find? k).isSome

/-- No entry. -/
def isEmpty (m : OrderedMap κ α) : Bool := m.entries.isEmpty

/-- The values, in key order. -/
def values (m : OrderedMap κ α) : List α := m.entries.map Prod.snd

theorem keys_nodup (m : OrderedMap κ α) : (m.entries.map Prod.fst).Nodup :=
  m.sorted.imp fun h => ne_of_lt h

theorem entries_nodup (m : OrderedMap κ α) : m.entries.Nodup :=
  List.Nodup.of_map _ m.keys_nodup

theorem value_unique (m : OrderedMap κ α) {k : κ} {v w : α} (hv : (k, v) ∈ m.entries)
    (hw : (k, w) ∈ m.entries) : v = w := by
  have h := List.inj_on_of_nodup_map m.keys_nodup hv hw rfl
  exact congrArg Prod.snd h

theorem find?_eq_some {m : OrderedMap κ α} {k : κ} {v : α} :
    m.find? k = some v ↔ (k, v) ∈ m.entries := by
  constructor
  · intro h
    obtain ⟨p, hp, rfl⟩ := Option.map_eq_some_iff.mp h
    have hk : p.1 = k := by simpa using List.find?_some hp
    have hmem := List.mem_of_find?_eq_some hp
    rwa [← hk]
  · intro h
    have hsome : (m.entries.find? (fun p => decide (p.1 = k))).isSome := by
      rw [List.find?_isSome]
      exact ⟨(k, v), h, by simp⟩
    obtain ⟨p, hp⟩ := Option.isSome_iff_exists.mp hsome
    have hk : p.1 = k := by simpa using List.find?_some hp
    have hmem : (k, p.2) ∈ m.entries := by
      have := List.mem_of_find?_eq_some hp
      rwa [← hk]
    rw [find?, hp, Option.map_some, m.value_unique hmem h]

theorem find?_eq_none {m : OrderedMap κ α} {k : κ} :
    m.find? k = none ↔ ∀ v, (k, v) ∉ m.entries := by
  constructor
  · intro h v hv
    rw [find?_eq_some.mpr hv] at h
    cases h
  · intro h
    cases hf : m.find? k with
    | none => rfl
    | some v => exact absurd (find?_eq_some.mp hf) (h v)

@[simp] theorem entries_empty : (empty : OrderedMap κ α).entries = [] := rfl

@[simp] theorem find?_empty (k : κ) : (empty : OrderedMap κ α).find? k = none := rfl

theorem isEmpty_iff {m : OrderedMap κ α} : m.isEmpty = true ↔ m.entries = [] := by
  simp [isEmpty]

theorem mem_insert {m : OrderedMap κ α} {k : κ} {v : α} {p : κ × α} :
    p ∈ (m.insert k v).entries ↔ p = (k, v) ∨ (p.1 ≠ k ∧ p ∈ m.entries) :=
  mem_insertEntry m.sorted p

theorem mem_erase {m : OrderedMap κ α} {k : κ} {p : κ × α} :
    p ∈ (m.erase k).entries ↔ p.1 ≠ k ∧ p ∈ m.entries := by
  simp only [erase, List.mem_filter, decide_eq_true_eq]
  exact And.comm

theorem find?_insert (m : OrderedMap κ α) (k k' : κ) (v : α) :
    (m.insert k v).find? k' = if k' = k then some v else m.find? k' := by
  split
  · next h => exact find?_eq_some.mpr (mem_insert.mpr (.inl (by rw [h])))
  · next h =>
    cases hf : m.find? k' with
    | some w => exact find?_eq_some.mpr (mem_insert.mpr (.inr ⟨h, find?_eq_some.mp hf⟩))
    | none =>
      refine find?_eq_none.mpr fun w hw => ?_
      rcases mem_insert.mp hw with he | ⟨_, hm⟩
      · exact h (congrArg Prod.fst he)
      · exact find?_eq_none.mp hf w hm

theorem find?_erase (m : OrderedMap κ α) (k k' : κ) :
    (m.erase k).find? k' = if k' = k then none else m.find? k' := by
  split
  · next h => exact find?_eq_none.mpr fun w hw => (mem_erase.mp hw).1 h
  · next h =>
    cases hf : m.find? k' with
    | some w => exact find?_eq_some.mpr (mem_erase.mpr ⟨h, find?_eq_some.mp hf⟩)
    | none =>
      exact find?_eq_none.mpr fun w hw => find?_eq_none.mp hf w (mem_erase.mp hw).2

/-- Inserting puts the pair in front of the other keys, up to order. -/
theorem insert_perm (m : OrderedMap κ α) (k : κ) (v : α) :
    (m.insert k v).entries.Perm ((k, v) :: (m.erase k).entries) := by
  refine (List.perm_ext_iff_of_nodup (m.insert k v).entries_nodup ?_).mpr fun p => ?_
  · refine List.nodup_cons.mpr ⟨fun h => ?_, (m.erase k).entries_nodup⟩
    exact (mem_erase.mp h).1 rfl
  · rw [mem_insert, List.mem_cons, mem_erase]

/-- A stored pair and the map without its key are the whole map, up to order. -/
theorem perm_erase (m : OrderedMap κ α) {k : κ} {v : α} (h : (k, v) ∈ m.entries) :
    m.entries.Perm ((k, v) :: (m.erase k).entries) := by
  refine (List.perm_ext_iff_of_nodup m.entries_nodup ?_).mpr fun p => ?_
  · refine List.nodup_cons.mpr ⟨fun h => ?_, (m.erase k).entries_nodup⟩
    exact (mem_erase.mp h).1 rfl
  · rw [List.mem_cons, mem_erase]
    constructor
    · intro hp
      by_cases hk : p.1 = k
      · refine .inl (Prod.ext hk ?_)
        exact m.value_unique (k := k) (by rw [← hk]; exact hp) h
      · exact .inr ⟨hk, hp⟩
    · rintro (rfl | ⟨_, hp⟩)
      · exact h
      · exact hp

/-- Erasing an absent key changes nothing. -/
theorem erase_of_absent {m : OrderedMap κ α} {k : κ} (h : ∀ v, (k, v) ∉ m.entries) :
    (m.erase k).entries = m.entries := by
  refine List.filter_eq_self.mpr fun p hp => ?_
  have : p.1 ≠ k := fun hk => h p.2 (by rw [← hk]; exact hp)
  simpa using this

theorem countP_erase {m : OrderedMap κ α} {k : κ} {v : α} (h : (k, v) ∈ m.entries)
    (f : κ × α → Bool) :
    m.entries.countP f = (m.erase k).entries.countP f + (if f (k, v) then 1 else 0) := by
  rw [(m.perm_erase h).countP_eq, List.countP_cons]

theorem countP_insert_absent {m : OrderedMap κ α} {k : κ} (v : α)
    (h : ∀ w, (k, w) ∉ m.entries) (f : κ × α → Bool) :
    (m.insert k v).entries.countP f = m.entries.countP f + (if f (k, v) then 1 else 0) := by
  rw [(m.insert_perm k v).countP_eq, List.countP_cons, erase_of_absent h]

/-- Reassigning a key whose old and new values `f` treats alike keeps the count. -/
theorem countP_insert_present {m : OrderedMap κ α} {k : κ} {v w : α} (h : (k, w) ∈ m.entries)
    (f : κ × α → Bool) (hf : f (k, v) = f (k, w)) :
    (m.insert k v).entries.countP f = m.entries.countP f := by
  rw [(m.insert_perm k v).countP_eq, List.countP_cons, countP_erase h f, hf]

/-- A key that is absent is inserted. -/
theorem emplace_absent {m : OrderedMap κ α} {k : κ} (v : α) (absent : m.find? k = none) :
    m.emplace k v = m.insert k v := by
  rw [find?, Option.map_eq_none_iff] at absent
  rw [emplace, absent]
  rfl

/-- Inserting keeps every key. -/
theorem key_insert {m : OrderedMap κ α} (k : κ) (v : α) {k' : κ} {w : α}
    (mem : (k', w) ∈ m.entries) : ∃ w', (k', w') ∈ (m.insert k v).entries := by
  rcases eq_or_ne k' k with rfl | other
  · exact ⟨v, mem_insert.mpr (.inl rfl)⟩
  · exact ⟨w, mem_insert.mpr (.inr ⟨other, mem⟩)⟩

theorem insertEntry_above {k : κ} {v : α} {l : List (κ × α)} (above : ∀ p ∈ l, p.1 < k) :
    insertEntry k v l = l ++ [(k, v)] := by
  induction l with
  | nil => rfl
  | cons p rest ih =>
    have less := above p (by simp)
    rw [insertEntry, if_neg (not_lt.mpr less.le), if_neg (ne_of_gt less),
      ih fun q mem => above q (List.mem_cons_of_mem _ mem)]
    rfl

/-- A key above all others goes to the end. -/
theorem emplace_above {m : OrderedMap κ α} {k : κ} (v : α) (above : ∀ p ∈ m.entries, p.1 < k) :
    (m.emplace k v).entries = m.entries ++ [(k, v)] := by
  have absent : m.entries.find? (fun p => decide (p.1 = k)) = none :=
    List.find?_eq_none.mpr fun p mem => by simpa using ne_of_lt (above p mem)
  rw [emplace, absent]
  exact insertEntry_above above

/-- Two maps with the same entries are the same. -/
theorem ext_entries {m m' : OrderedMap κ α} (same : m.entries = m'.entries) : m = m' := by
  cases m
  cases m'
  cases same
  rfl

/-- Two maps that find the same are the same. -/
theorem ext_find? {m m' : OrderedMap κ α} (same : ∀ k, m.find? k = m'.find? k) : m = m' := by
  have perm : m.entries.Perm m'.entries :=
    (List.perm_ext_iff_of_nodup m.entries_nodup m'.entries_nodup).mpr fun p => by
      rw [← find?_eq_some, ← find?_eq_some, same]
  exact ext_entries (perm.eq_of_pairwise (fun _ _ _ _ below above => absurd below (lt_asymm above))
    (List.pairwise_map.mp m.sorted) (List.pairwise_map.mp m'.sorted))

/-- The entries that `keep` holds of. -/
def filter (m : OrderedMap κ α) (keep : κ → α → Bool) : OrderedMap κ α :=
  ⟨m.entries.filter fun p => keep p.1 p.2, m.sorted.sublist (List.filter_sublist.map Prod.fst)⟩

/-- Every value replaced, the keys kept. -/
def map {β : Type*} (m : OrderedMap κ α) (f : κ → α → β) : OrderedMap κ β :=
  ⟨m.entries.map fun p => (p.1, f p.1 p.2), by
    have keys : (m.entries.map fun p => (p.1, f p.1 p.2)).map Prod.fst = m.entries.map Prod.fst := by
      rw [List.map_map]
      rfl
    rw [keys]
    exact m.sorted⟩

theorem mem_filter {m : OrderedMap κ α} {keep : κ → α → Bool} {p : κ × α} :
    p ∈ (m.filter keep).entries ↔ p ∈ m.entries ∧ keep p.1 p.2 = true := List.mem_filter

theorem find?_filter (m : OrderedMap κ α) (keep : κ → α → Bool) (k : κ) :
    (m.filter keep).find? k = (m.find? k).filter (keep k) := by
  ext v
  rw [find?_eq_some, mem_filter, Option.filter_eq_some_iff, find?_eq_some]

theorem find?_map {β : Type*} (m : OrderedMap κ α) (f : κ → α → β) (k : κ) :
    (m.map f).find? k = (m.find? k).map (f k) := by
  ext v
  rw [find?_eq_some, Option.map_eq_some_iff]
  constructor
  · intro written
    obtain ⟨p, mem, same⟩ := List.mem_map.mp written
    obtain ⟨rfl, rfl⟩ := Prod.mk.inj same
    exact ⟨p.2, find?_eq_some.mpr mem, rfl⟩
  · rintro ⟨w, found, rfl⟩
    exact List.mem_map.mpr ⟨(k, w), find?_eq_some.mp found, rfl⟩

theorem map_insertEntry {β : Type*} (f : κ → α → β) (k : κ) (v : α) (l : List (κ × α)) :
    (insertEntry k v l).map (fun p => (p.1, f p.1 p.2)) =
      insertEntry k (f k v) (l.map fun p => (p.1, f p.1 p.2)) := by
  induction l with
  | nil => rfl
  | cons p rest ih =>
    simp only [insertEntry, List.map_cons]
    split
    · rfl
    · split
      · rfl
      · rw [List.map_cons, ih]

theorem map_insert {β : Type*} (m : OrderedMap κ α) (f : κ → α → β) (k : κ) (v : α) :
    (m.insert k v).map f = (m.map f).insert k (f k v) :=
  ext_entries (map_insertEntry f k v m.entries)

/-- Choosing entries by their keys and replacing the values commute. -/
theorem map_filter_keys {β : Type*} (m : OrderedMap κ α) (f : κ → α → β) (keep : κ → Bool) :
    (m.filter fun k _ => keep k).map f = (m.map f).filter fun k _ => keep k :=
  ext_entries (by
    show (m.entries.filter _).map _ = (m.entries.map _).filter _
    rw [List.filter_map]
    rfl)

theorem map_erase {β : Type*} (m : OrderedMap κ α) (f : κ → α → β) (k : κ) :
    (m.erase k).map f = (m.map f).erase k :=
  map_filter_keys m f fun k' => decide (k' ≠ k)

theorem contains_insert (m : OrderedMap κ α) (k k' : κ) (v : α) :
    (m.insert k v).contains k' = (decide (k' = k) || m.contains k') := by
  rw [contains, find?_insert]
  split
  · next same => simp [same]
  · next other => simp [other, contains]

theorem contains_erase (m : OrderedMap κ α) (k k' : κ) :
    (m.erase k).contains k' = (decide (k' ≠ k) && m.contains k') := by
  rw [contains, find?_erase]
  split
  · next same => simp [same]
  · next other => simp [other, contains]

theorem contains_filter_keys (m : OrderedMap κ α) (keep : κ → Bool) (k : κ) :
    (m.filter fun k _ => keep k).contains k = (keep k && m.contains k) := by
  rw [contains, find?_filter, contains]
  cases m.find? k with
  | none => simp
  | some v => cases keep k <;> simp

/-! ## Maps of lists -/

/-- `m[k].push_back(x)`. -/
def push (m : OrderedMap κ (List α)) (k : κ) (x : α) : OrderedMap κ (List α) :=
  m.insert k ((m.find? k).getD [] ++ [x])

/-- Every key holds, in order, what was pushed under it. -/
theorem find?_foldl_push (key : α → κ) (l : List α) (m : OrderedMap κ (List α)) (k : κ) :
    (l.foldl (fun m x => m.push (key x) x) m).find? k =
      if l.filter (fun x => decide (key x = k)) = [] then m.find? k
      else some ((m.find? k).getD [] ++ l.filter fun x => decide (key x = k)) := by
  induction l generalizing m with
  | nil => rfl
  | cons x l ih =>
    rw [List.foldl_cons, ih]
    by_cases here : key x = k
    · rw [List.filter_cons_of_pos (by simpa using here), if_neg (List.cons_ne_nil _ _), push,
        find?_insert, if_pos here.symm, here]
      split
      · next none => rw [none]
      · rw [Option.getD_some, List.append_assoc, List.singleton_append]
    · rw [List.filter_cons_of_neg (by simpa using here), push, find?_insert,
        if_neg (Ne.symm here)]

theorem mem_foldl_push {key : α → κ} {l : List α} {k : κ} {xs : List α} :
    (k, xs) ∈ (l.foldl (fun m x => m.push (key x) x) empty).entries ↔
      xs = l.filter (fun x => decide (key x = k)) ∧ xs ≠ [] := by
  rw [← find?_eq_some, find?_foldl_push, find?_empty]
  split
  · next none =>
    refine iff_of_false (fun impossible => by cases impossible) ?_
    rintro ⟨rfl, some⟩
    exact some none
  · next some =>
    rw [Option.getD_none, List.nil_append, Option.some_inj]
    constructor
    · rintro rfl
      exact ⟨rfl, some⟩
    · rintro ⟨rfl, -⟩
      rfl

theorem push_perm (m : OrderedMap κ (List α)) (k : κ) (x : α) :
    ((m.push k x).entries.flatMap Prod.snd).Perm (m.entries.flatMap Prod.snd ++ [x]) := by
  have inserted := (m.insert_perm k ((m.find? k).getD [] ++ [x])).flatMap_right Prod.snd
  refine inserted.trans ?_
  rw [List.flatMap_cons]
  cases found : m.find? k with
  | none =>
    rw [erase_of_absent (find?_eq_none.mp found), Option.getD_none, List.nil_append]
    exact List.perm_append_comm
  | some xs =>
    have stored := (m.perm_erase (find?_eq_some.mp found)).flatMap_right Prod.snd
    rw [Option.getD_some, List.append_assoc]
    refine (List.perm_append_comm.append_left xs).trans ?_
    rw [← List.append_assoc]
    exact stored.symm.append_right [x]

/-- A map filled from pairs with distinct keys holds the pairs. -/
theorem mem_foldl_insert (l : List (κ × α)) (m : OrderedMap κ α) (distinct : (l.map Prod.fst).Nodup)
    (p : κ × α) : p ∈ (l.foldl (fun m e => m.insert e.1 e.2) m).entries ↔
      p ∈ l ∨ (p.1 ∉ l.map Prod.fst ∧ p ∈ m.entries) := by
  induction l generalizing m with
  | nil => simp
  | cons e l ih =>
    obtain ⟨new, distinct⟩ := List.nodup_cons.mp distinct
    rw [List.foldl_cons, ih _ distinct, mem_insert, List.mem_cons, List.map_cons, List.mem_cons, not_or]
    constructor
    · rintro (later | ⟨absent, rfl | ⟨ne, mem⟩⟩)
      · exact .inl (.inr later)
      · exact .inl (.inl rfl)
      · exact .inr ⟨⟨ne, absent⟩, mem⟩
    · rintro ((rfl | later) | ⟨⟨ne, absent⟩, mem⟩)
      · exact .inr ⟨new, .inl rfl⟩
      · exact .inl later
      · exact .inr ⟨absent, .inr ⟨ne, mem⟩⟩

/-- The lists under the keys hold what was pushed, all of it and once. -/
theorem foldl_push_perm (key : α → κ) (l : List α) (m : OrderedMap κ (List α)) :
    ((l.foldl (fun m x => m.push (key x) x) m).entries.flatMap Prod.snd).Perm
      (m.entries.flatMap Prod.snd ++ l) := by
  induction l generalizing m with
  | nil => rw [List.append_nil, List.foldl_nil]
  | cons x l ih =>
    refine (ih (m.push (key x) x)).trans ?_
    rw [List.append_cons]
    exact (m.push_perm (key x) x).append_right l

end OrderedMap

end Svp.Lib
