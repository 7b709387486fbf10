import Svp.Exec.JsonFields

/-!
# What the text of a JSON value says

The serializer writes a number that is not finite as `null`. `dumped` is the value the text
says, which has the same text (`dump_dumped`). An object some of whose members are left out
is `writtenFields` of all of them, and `member` finds the ones that are there.
-/

namespace Svp.Exec

mutual
/-- The value with `null` in place of numbers that are not finite. -/
def dumped : Json → Json
  | .float bits => if isFinite bits then .float bits else .null
  | .array items => .array (dumpedItems items)
  | .object fields => .object (dumpedFields fields)
  | .null => .null
  | .bool value => .bool value
  | .integer value => .integer value
  | .string text => .string text
  | .binary bytes => .binary bytes
  | .discarded => .discarded

def dumpedItems : List Json → List Json
  | [] => []
  | item :: rest => dumped item :: dumpedItems rest

def dumpedFields : List (String × Json) → List (String × Json)
  | [] => []
  | (key, value) :: rest => (key, dumped value) :: dumpedFields rest
end

variable (lib : JsonLibrary)

mutual
theorem dump_dumped (v : Json) : dump lib (dumped v) = dump lib v := by
  cases v with
  | float bits =>
    rw [dumped]
    split
    · rfl
    · next infinite => simp only [dump, infinite, Bool.false_eq_true, if_false]
  | array items => rw [dumped, dump, dump, dump_dumpedItems items]
  | object fields => rw [dumped, dump, dump, dump_dumpedFields fields]
  | null => rw [dumped]
  | bool value => rw [dumped]
  | integer value => rw [dumped]
  | string text => rw [dumped]
  | binary bytes => rw [dumped]
  | discarded => rw [dumped]

theorem dump_dumpedItems (items : List Json) :
    dumpItems lib (dumpedItems items) = dumpItems lib items := by
  match items with
  | [] => rfl
  | [item] => exact dump_dumped item
  | item :: next :: more =>
    have head := dump_dumped item
    have tail := dump_dumpedItems (next :: more)
    simp only [dumpedItems, dumpItems] at tail ⊢
    rw [head, tail]

theorem dump_dumpedFields (fields : List (String × Json)) :
    dumpFields lib (dumpedFields fields) = dumpFields lib fields := by
  match fields with
  | [] => rfl
  | [(key, value)] =>
    have head := dump_dumped value
    simp only [dumpedFields, dumpFields]
    rw [head]
  | (key, value) :: next :: more =>
    have head := dump_dumped value
    have tail := dump_dumpedFields (next :: more)
    simp only [dumpedFields, dumpFields] at tail ⊢
    rw [head, tail]
end

theorem dumpedItems_eq_map (items : List Json) : dumpedItems items = items.map dumped := by
  induction items with
  | nil => rfl
  | cons item rest ih => rw [dumpedItems, ih, List.map_cons]

/-! ## Members -/

/-- `find` of a key; a value that is no object has none. -/
def member (value : Json) (key : String) : Option Json := value.fields.lookup key

/-- The members that are there. -/
def writtenFields (fields : List (String × Option Json)) : List (String × Json) :=
  fields.filterMap fun field => field.2.map fun value => (field.1, value)

theorem lookup_writtenFields {fields : List (String × Option Json)} (key : String)
    (distinct : (fields.map Prod.fst).Nodup) :
    (writtenFields fields).lookup key = (fields.lookup key).join := by
  induction fields with
  | nil => rfl
  | cons field rest ih =>
    obtain ⟨name, value⟩ := field
    obtain ⟨new, distinct⟩ := List.nodup_cons.mp distinct
    have rest_eq := ih distinct
    rw [List.lookup_cons]
    cases value with
    | some value =>
      rw [show writtenFields ((name, some value) :: rest) = (name, value) :: writtenFields rest
        from rfl, List.lookup_cons]
      split
      · rfl
      · exact rest_eq
    | none =>
      rw [show writtenFields ((name, none) :: rest) = writtenFields rest from rfl, rest_eq]
      split
      · next same =>
        rw [eq_of_beq same, List.lookup_eq_none_iff.mpr fun entry mem => ?_]
        · rfl
        · exact bne_iff_ne.mpr fun eq => new (eq ▸ List.mem_map.mpr ⟨entry, mem, rfl⟩)
      · rfl

theorem member_written {fields : List (String × Option Json)} (key : String)
    (distinct : (fields.map Prod.fst).Nodup) :
    member (.object (writtenFields fields)) key = (fields.lookup key).join :=
  lookup_writtenFields key distinct

theorem lookup_dumpedFields (fields : List (String × Json)) (key : String) :
    (dumpedFields fields).lookup key = (fields.lookup key).map dumped := by
  induction fields with
  | nil => rfl
  | cons field rest ih =>
    obtain ⟨name, value⟩ := field
    rw [dumpedFields, List.lookup_cons, List.lookup_cons, ih]
    split <;> rfl

theorem member_dumped (value : Json) (key : String) :
    member (dumped value) key = (member value key).map dumped := by
  cases value with
  | object fields =>
    rw [dumped]
    exact lookup_dumpedFields fields key
  | float bits =>
    rw [dumped]
    split <;> rfl
  | array items => rw [dumped]; rfl
  | null => rw [dumped]; rfl
  | bool value => rw [dumped]; rfl
  | integer value => rw [dumped]; rfl
  | string text => rw [dumped]; rfl
  | binary bytes => rw [dumped]; rfl
  | discarded => rw [dumped]; rfl

end Svp.Exec
