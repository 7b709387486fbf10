import Svp.Exec.Json

/-!
# Two counts of the nesting of a JSON value

The encoder counts the nesting over the tree (`requireEncodable`), the decoder over
the text, before it is parsed (`requireBoundedDepth`). `Json.nesting` is the depth
both mean: the encoder accepts exactly the representable values within the limit
(`requireEncodable_iff`), and the scan of a canonical text fails exactly when the
value nests deeper (`requireBoundedDepth_iff`). So a text that was written can be
read back (`canonicalJson_depth`).
-/

namespace Svp.Exec

mutual
/-- How many arrays and objects stand in one another. -/
def Json.nesting : Json → Nat
  | .array items => nestingItems items + 1
  | .object fields => nestingFields fields + 1
  | .null => 0
  | .bool _ => 0
  | .integer _ => 0
  | .float _ => 0
  | .string _ => 0
  | .binary _ => 0
  | .discarded => 0

def nestingItems : List Json → Nat
  | [] => 0
  | item :: rest => max item.nesting (nestingItems rest)

def nestingFields : List (String × Json) → Nat
  | [] => 0
  | (_, value) :: rest => max value.nesting (nestingFields rest)
end

mutual
/-- The value has a JSON text: its floats are finite, and nothing in it is binary or
discarded. -/
def Json.Representable : Json → Prop
  | .array items => RepresentableItems items
  | .object fields => RepresentableFields fields
  | .float bits => isFinite bits = true
  | .binary _ => False
  | .discarded => False
  | .null => True
  | .bool _ => True
  | .integer _ => True
  | .string _ => True

def RepresentableItems : List Json → Prop
  | [] => True
  | item :: rest => item.Representable ∧ RepresentableItems rest

def RepresentableFields : List (String × Json) → Prop
  | [] => True
  | (_, value) :: rest => value.Representable ∧ RepresentableFields rest
end

/-! ## The count over the tree -/

mutual
/-- At nesting `d` the encoder accepts what stays within the limit. -/
theorem requireEncodable_iff (v : Json) {d : Nat} (within : d ≤ kMaxCanonicalJsonDepth) :
    requireEncodable v d = .ok () ↔
      v.Representable ∧ d + v.nesting ≤ kMaxCanonicalJsonDepth := by
  cases v with
  | null => simpa [requireEncodable, Json.Representable, Json.nesting] using within
  | bool value => simpa [requireEncodable, Json.Representable, Json.nesting] using within
  | integer value => simpa [requireEncodable, Json.Representable, Json.nesting] using within
  | string text => simpa [requireEncodable, Json.Representable, Json.nesting] using within
  | float bits => simp [requireEncodable, Json.Representable, Json.nesting, within]
  | binary bytes => simp [requireEncodable, Json.Representable]
  | discarded => simp [requireEncodable, Json.Representable]
  | array items =>
    rw [requireEncodable, Json.Representable, Json.nesting]
    split
    · next full => exact iff_of_false (fun accepted => by cases accepted) (by omega)
    · next shallow =>
      rw [requireEncodableItems_iff items (Nat.lt_of_not_le shallow), Nat.succ_add, Nat.add_succ]
  | object fields =>
    rw [requireEncodable, Json.Representable, Json.nesting]
    split
    · next full => exact iff_of_false (fun accepted => by cases accepted) (by omega)
    · next shallow =>
      rw [requireEncodableFields_iff fields (Nat.lt_of_not_le shallow), Nat.succ_add, Nat.add_succ]

theorem requireEncodableItems_iff (items : List Json) {d : Nat}
    (within : d ≤ kMaxCanonicalJsonDepth) :
    requireEncodableItems items d = .ok () ↔
      RepresentableItems items ∧ d + nestingItems items ≤ kMaxCanonicalJsonDepth := by
  cases items with
  | nil => simpa [requireEncodableItems, RepresentableItems, nestingItems] using within
  | cons item rest =>
    rw [requireEncodableItems, check_bind_eq_ok, requireEncodable_iff item within,
      requireEncodableItems_iff rest within, RepresentableItems, nestingItems]
    constructor
    · rintro ⟨⟨first, shallow⟩, others, shallow'⟩
      exact ⟨⟨first, others⟩, by omega⟩
    · rintro ⟨⟨first, others⟩, shallow⟩
      exact ⟨⟨first, by omega⟩, others, by omega⟩

theorem requireEncodableFields_iff (fields : List (String × Json)) {d : Nat}
    (within : d ≤ kMaxCanonicalJsonDepth) :
    requireEncodableFields fields d = .ok () ↔
      RepresentableFields fields ∧ d + nestingFields fields ≤ kMaxCanonicalJsonDepth := by
  match fields with
  | [] => simpa [requireEncodableFields, RepresentableFields, nestingFields] using within
  | (key, value) :: rest =>
    rw [requireEncodableFields, check_bind_eq_ok, requireEncodable_iff value within,
      requireEncodableFields_iff rest within, RepresentableFields, nestingFields]
    constructor
    · rintro ⟨⟨first, shallow⟩, others, shallow'⟩
      exact ⟨⟨first, others⟩, by omega⟩
    · rintro ⟨⟨first, others⟩, shallow⟩
      exact ⟨⟨first, by omega⟩, others, by omega⟩
end

variable (lib : JsonLibrary)

/-- The encoder writes the representable values within the limit. -/
theorem encodeCanonicalJson_eq_ok {v : Json} {bytes : Bytes} :
    encodeCanonicalJson lib v = .ok bytes ↔
      (v.Representable ∧ v.nesting ≤ kMaxCanonicalJsonDepth) ∧ dump lib v = bytes := by
  have accepted := requireEncodable_iff v (Nat.zero_le kMaxCanonicalJsonDepth)
  rw [Nat.zero_add] at accepted
  rw [encodeCanonicalJson, check_bind_eq_ok, accepted]
  simp [pure, Except.pure]

/-! ## The count over the text -/

/-- A bracket opened at the limit ends the scan. -/
theorem DepthScan.run_full {c : UInt8} (opens : c = 0x7B ∨ c = 0x5B) (rest : Bytes) :
    DepthScan.run ⟨kMaxCanonicalJsonDepth, false, false⟩ (c :: rest) = .error kDepthError := by
  rcases opens with rfl | rfl <;> rfl

mutual
/-- A value nested too deeply ends the scan, wherever it stands in the text. -/
theorem DepthScan.run_deep (v : Json) {d : Nat} (representable : v.Representable)
    (within : d ≤ kMaxCanonicalJsonDepth) (deep : kMaxCanonicalJsonDepth < d + v.nesting)
    (rest : Bytes) :
    DepthScan.run ⟨d, false, false⟩ (dump lib v ++ rest) = .error kDepthError := by
  cases v with
  | null => exact absurd within (not_le.mpr deep)
  | bool value => exact absurd within (not_le.mpr deep)
  | integer value => exact absurd within (not_le.mpr deep)
  | float bits => exact absurd within (not_le.mpr deep)
  | string text => exact absurd within (not_le.mpr deep)
  | binary bytes => exact absurd representable id
  | discarded => exact absurd representable id
  | array items =>
    rw [dump, List.cons_append]
    rcases within.eq_or_lt with rfl | room
    · exact run_full (.inr rfl) _
    · rw [run_open (.inr rfl) room, List.append_assoc]
      refine run_deepItems items representable room ?_ _
      rw [Json.nesting] at deep
      omega
  | object fields =>
    rw [dump, List.cons_append]
    rcases within.eq_or_lt with rfl | room
    · exact run_full (.inl rfl) _
    · rw [run_open (.inl rfl) room, List.append_assoc]
      refine run_deepFields fields representable room ?_ _
      rw [Json.nesting] at deep
      omega

theorem DepthScan.run_deepItems (items : List Json) {d : Nat}
    (representable : RepresentableItems items) (within : d ≤ kMaxCanonicalJsonDepth)
    (deep : kMaxCanonicalJsonDepth < d + nestingItems items) (rest : Bytes) :
    DepthScan.run ⟨d, false, false⟩ (dumpItems lib items ++ rest) = .error kDepthError := by
  match items with
  | [] => exact absurd within (not_le.mpr deep)
  | [item] =>
    rw [nestingItems, nestingItems, Nat.max_zero] at deep
    exact run_deep item representable.1 within deep rest
  | item :: next :: more =>
    rw [nestingItems] at deep
    rw [dumpItems, List.append_assoc]
    · rcases le_or_gt (d + item.nesting) kMaxCanonicalJsonDepth with shallow | deepItem
      · -- the first item passes, so the nesting is in the others
        have passes := (requireEncodable_iff item within).mpr ⟨representable.1, shallow⟩
        rw [run_dump lib item d passes, List.cons_append, run_comma (.inl rfl)]
        exact run_deepItems (next :: more) representable.2 within (by omega) rest
      · exact run_deep item representable.1 within deepItem _
    · simp

theorem DepthScan.run_deepFields (fields : List (String × Json)) {d : Nat}
    (representable : RepresentableFields fields) (within : d ≤ kMaxCanonicalJsonDepth)
    (deep : kMaxCanonicalJsonDepth < d + nestingFields fields) (rest : Bytes) :
    DepthScan.run ⟨d, false, false⟩ (dumpFields lib fields ++ rest) = .error kDepthError := by
  match fields with
  | [] => exact absurd within (not_le.mpr deep)
  | [(key, value)] =>
    rw [nestingFields, nestingFields, Nat.max_zero] at deep
    rw [dumpFields, List.append_assoc, run_dumpString, List.cons_append, run_comma (.inr rfl)]
    exact run_deep value representable.1 within deep rest
  | (key, value) :: next :: more =>
    rw [nestingFields] at deep
    rw [dumpFields, List.append_assoc, run_dumpString, List.cons_append, run_comma (.inr rfl),
      List.append_assoc]
    · rcases le_or_gt (d + value.nesting) kMaxCanonicalJsonDepth with shallow | deepValue
      · have passes := (requireEncodable_iff value within).mpr ⟨representable.1, shallow⟩
        rw [run_dump lib value d passes, List.cons_append, run_comma (.inl rfl)]
        exact run_deepFields (next :: more) representable.2 within (by omega) rest
      · exact run_deep value representable.1 within deepValue _
    · simp
end

/-- The scan of the text of a representable value counts the nesting of the value. -/
theorem requireBoundedDepth_iff {v : Json} (representable : v.Representable) :
    requireBoundedDepth (dump lib v) = .ok () ↔ v.nesting ≤ kMaxCanonicalJsonDepth := by
  constructor
  · intro bounded
    by_contra tooDeep
    have deep : kMaxCanonicalJsonDepth < 0 + v.nesting := by
      rw [Nat.zero_add]
      exact not_le.mp tooDeep
    have ended := DepthScan.run_deep lib v representable (Nat.zero_le _) deep []
    rw [List.append_nil] at ended
    change DepthScan.run {} (dump lib v) = .error kDepthError at ended
    rw [requireBoundedDepth, ended] at bounded
    cases bounded
  · intro shallow
    exact requireBoundedDepth_encode lib
      ((encodeCanonicalJson_eq_ok lib).mpr ⟨⟨representable, shallow⟩, rfl⟩)

/-! ## Reading back -/

/-- What the encoder writes the decoder reads, and both limits are the same: on a text
the library parses back, the scan passes where the encoder does. -/
theorem canonicalJson_depth (v : Json)
    (inverse : v.Representable → lib.parse (dump lib v) = .ok v) :
    (∀ bytes, encodeCanonicalJson lib v = .ok bytes → decodeCanonicalJson lib bytes = .ok v) ∧
      (v.Representable → (requireBoundedDepth (dump lib v) = .ok () ↔
        v.nesting ≤ kMaxCanonicalJsonDepth)) ∧
      ((∃ bytes, encodeCanonicalJson lib v = .ok bytes) ↔
        v.Representable ∧ v.nesting ≤ kMaxCanonicalJsonDepth) := by
  refine ⟨fun bytes encoded => ?_, requireBoundedDepth_iff lib, ?_, ?_⟩
  · have representable := ((encodeCanonicalJson_eq_ok lib).mp encoded).1.1
    exact decode_encode lib (inverse representable) encoded
  · rintro ⟨bytes, encoded⟩
    exact ((encodeCanonicalJson_eq_ok lib).mp encoded).1
  · intro accepted
    exact ⟨dump lib v, (encodeCanonicalJson_eq_ok lib).mpr ⟨accepted, rfl⟩⟩

/-- A text with brackets, quotes and a backslash inside a string. -/
def bracketText : Json := .object [("a", .array [.string "]\"\\\x7b[", .null])]

/-- A library whose parser knows this one text. -/
def bracketLibrary : JsonLibrary where
  floatText _ := []
  floatText_plain := noFloatText_plain
  parse _ := .ok bracketText

theorem canonicalJson_depth_brackets :
    decodeCanonicalJson bracketLibrary (dump bracketLibrary bracketText) = .ok bracketText ∧
      requireBoundedDepth (dump bracketLibrary bracketText) = .ok () := by
  have depth := canonicalJson_depth bracketLibrary bracketText fun _ => rfl
  have representable : bracketText.Representable := ⟨⟨trivial, trivial, trivial⟩, trivial⟩
  have shallow : bracketText.nesting ≤ kMaxCanonicalJsonDepth := by decide
  have encoded := (encodeCanonicalJson_eq_ok bracketLibrary).mpr ⟨⟨representable, shallow⟩, rfl⟩
  exact ⟨depth.1 _ encoded, (depth.2.1 representable).mpr shallow⟩

end Svp.Exec
