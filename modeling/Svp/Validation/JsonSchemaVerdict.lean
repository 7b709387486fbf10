import Svp.Validation.JsonSchemaMeaning

/-!
# The verdict of the validator

Every issue of the validator leads to a place that fails one of its checks, and every such
place that it gets to has an issue. What is left is to compare its checks with the
keywords, one place at a time (`FailsCheck.breaks`, `BreaksKeyword.fails`).
-/

namespace Svp.Validation.JsonSchema

open Exec (Json member isFinite)

/-! ## One place -/

/-- A type that the validator does not know in this value: a double where it asks for an
integer, and null. -/
inductive ReadNarrowly (value schema : Json) : Prop
  | integer {bits : UInt64} {number : Int} : member schema "type" = some (.string "integer") →
      value = .float bits → doubleValue bits = number → ReadNarrowly value schema
  | null : member schema "type" = some (.string "null") → value = .null → ReadNarrowly value schema

/-- A broken keyword that only rounding hides, or a size that is written with a point. -/
inductive RoundedAway (value schema : Json) : Prop
  | enum {enumeration : List Json} : member schema "enum" = some (.array enumeration) →
      (∀ allowed ∈ enumeration, jsonEq value allowed = false) →
      (∃ allowed ∈ enumeration, libraryEq value allowed = true) → RoundedAway value schema
  | minimum {number bound : ℚ} : numberValue value = some number →
      (member schema "minimum").bind numberValue = some bound → number < bound →
      Lib.round64 bound ≤ Lib.round64 number → RoundedAway value schema
  | maximum {number bound : ℚ} : numberValue value = some number →
      (member schema "maximum").bind numberValue = some bound → bound < number →
      Lib.round64 number ≤ Lib.round64 bound → RoundedAway value schema
  | minItems {items : List Json} {bits : UInt64} : value = .array items →
      member schema "minItems" = some (.float bits) → items.length < doubleValue bits →
      RoundedAway value schema
  | maxItems {items : List Json} {bits : UInt64} : value = .array items →
      member schema "maxItems" = some (.float bits) → doubleValue bits < items.length →
      RoundedAway value schema

theorem hasType_of_matchesType {value : Json} {type : String} (matching : matchesType value type = true) :
    HasType value type := by
  unfold matchesType at matching
  split at matching
  next same => subst same; cases value <;> first | exact .object _ | cases matching
  split at matching
  next same => subst same; cases value <;> first | exact .array _ | cases matching
  split at matching
  next same => subst same; cases value <;> first | exact .string _ | cases matching
  split at matching
  next same => subst same; cases value <;> first | exact .integer rfl | cases matching
  split at matching
  next same => subst same; cases value <;> first | exact .number rfl | cases matching
  split at matching
  next same => subst same; cases value <;> first | exact .boolean _ | cases matching
  cases matching

theorem matchesType_of_hasType {value schema : Json} {type : String} (json : isJson value = true)
    (typed : member schema "type" = some (.string type)) (hasType : HasType value type) :
    matchesType value type = true ∨ ReadNarrowly value schema := by
  cases hasType with
  | null => exact .inr (.null typed rfl)
  | boolean => exact .inl rfl
  | object => exact .inl rfl
  | array => exact .inl rfl
  | string => exact .inl rfl
  | number found =>
    cases value with
    | integer => exact .inl rfl
    | float bits => exact .inl json
    | _ => cases found
  | integer found =>
    cases value with
    | integer => exact .inl rfl
    | float bits => exact .inr (.integer typed rfl (Option.some.inj found))
    | _ => cases found

theorem ReadNarrowly.fails {value schema : Json} (narrow : ReadNarrowly value schema) :
    FailsCheck value schema := by
  cases narrow with
  | integer typed double _ => exact .type typed (by rw [double]; rfl)
  | null typed null => exact .type typed (by rw [null]; rfl)

theorem RoundedAway.breaks {value schema : Json} (hidden : RoundedAway value schema) :
    BreaksKeyword value schema := by
  cases hidden with
  | enum written differs _ => exact .enum written differs
  | minimum number bound less _ => exact .minimum number bound less
  | maximum number bound less _ => exact .maximum number bound less
  | minItems array written less => exact .minItems array (by rw [written]; rfl) less
  | maxItems array written less => exact .maxItems array (by rw [written]; rfl) less

theorem bind_getDouble (found : Option Json) :
    found.bind getDouble = (found.bind numberValue).map Lib.round64 := by
  cases found with
  | none => rfl
  | some value => exact getDouble_eq value

/-- What the validator flags is broken, but for its reading of the types. -/
theorem FailsCheck.breaks {value schema : Json} (json : isJson value = true)
    (fails : FailsCheck value schema) : BreaksKeyword value schema ∨ ReadNarrowly value schema := by
  cases fails with
  | @type type typed fails =>
    by_cases hasType : HasType value type
    · rcases matchesType_of_hasType json typed hasType with matching | narrow
      · rw [fails] at matching
        cases matching
      · exact .inr narrow
    · exact .inl (.type typed hasType)
  | enum found fails =>
    refine .inl (.enum found ?_)
    intro allowed member
    rw [Bool.eq_false_iff]
    intro same
    exact List.any_eq_false.mp fails allowed member (libraryEq_of_jsonEq same)
  | minimum number bound less =>
    rw [getDouble_eq] at number
    rw [bind_getDouble] at bound
    obtain ⟨number, found, rfl⟩ := Option.map_eq_some_iff.mp number
    obtain ⟨bound, found', rfl⟩ := Option.map_eq_some_iff.mp bound
    exact .inl (.minimum found found' (lt_of_not_ge fun le => absurd less (not_lt.mpr (Lib.round64_mono le))))
  | maximum number bound less =>
    rw [getDouble_eq] at number
    rw [bind_getDouble] at bound
    obtain ⟨number, found, rfl⟩ := Option.map_eq_some_iff.mp number
    obtain ⟨bound, found', rfl⟩ := Option.map_eq_some_iff.mp bound
    exact .inl (.maximum found found' (lt_of_not_ge fun le => absurd less (not_lt.mpr (Lib.round64_mono le))))
  | minItems array found less =>
    exact .inl (.minItems array (by rw [found]; rfl) (by exact_mod_cast less))
  | maxItems array found less =>
    exact .inl (.maxItems array (by rw [found]; rfl) (by exact_mod_cast less))

/-- A size is written as a natural number or as a double. -/
theorem IsSchema.size {schema : Json} (isSchema : IsSchema schema) {keyword : String} {number : ℚ}
    (isSize : keyword ∈ ["minItems", "maxItems"])
    (found : (member schema keyword).bind numberValue = some number) :
    (∃ size : Nat, member schema keyword = some (.integer size) ∧ (size : ℚ) = number) ∨
      ∃ bits, member schema keyword = some (.float bits) ∧ doubleValue bits = number := by
  obtain ⟨bound, written, value⟩ := Option.bind_eq_some_iff.mp found
  cases isSchema with
  | mk fields _ _ _ _ _ _ sizes =>
    obtain ⟨size, isNatural⟩ := sizes keyword isSize bound written
    cases bound with
    | integer exact =>
      have natural : exact = (size : Int) := by exact_mod_cast Option.some.inj isNatural
      subst natural
      exact .inl ⟨size, written, by exact_mod_cast Option.some.inj value⟩
    | float bits => exact .inr ⟨bits, written, Option.some.inj value⟩
    | _ => cases value

/-- What is broken the validator flags, but for what its doubles hide. -/
theorem BreaksKeyword.fails {value schema : Json} (isSchema : IsSchema schema)
    (breaks : BreaksKeyword value schema) : FailsCheck value schema ∨ RoundedAway value schema := by
  cases breaks with
  | type typed hasType =>
    refine .inl (.type typed ?_)
    rw [Bool.eq_false_iff]
    exact fun matching => hasType (hasType_of_matchesType matching)
  | @enum enumeration found differs =>
    cases same : enumeration.any (libraryEq value) with
    | false => exact .inl (.enum found same)
    | true => exact .inr (.enum found differs (List.any_eq_true.mp same))
  | @minimum number bound found found' less =>
    rcases lt_or_ge (Lib.round64 number) (Lib.round64 bound) with below | le
    · exact .inl (.minimum (by rw [getDouble_eq, found]; rfl) (by rw [bind_getDouble, found']; rfl) below)
    · exact .inr (.minimum found found' less le)
  | @maximum number bound found found' less =>
    rcases lt_or_ge (Lib.round64 bound) (Lib.round64 number) with above | le
    · exact .inl (.maximum (by rw [getDouble_eq, found]; rfl) (by rw [bind_getDouble, found']; rfl) above)
    · exact .inr (.maximum found found' less le)
  | minItems array found less =>
    rcases isSchema.size (by decide) found with ⟨size, exact, rfl⟩ | ⟨bits, exact, rfl⟩
    · exact .inl (.minItems array exact (by exact_mod_cast less))
    · exact .inr (.minItems array exact less)
  | maxItems array found less =>
    rcases isSchema.size (by decide) found with ⟨size, exact, rfl⟩ | ⟨bits, exact, rfl⟩
    · exact .inl (.maxItems array exact (by exact_mod_cast less))
    · exact .inr (.maxItems array exact less)

/-! ## One node of the validator -/

theorem childPath_eq (path name : String) : childPath path name = PathStep.extend path (.key name) := by
  unfold childPath
  split
  next root =>
    subst root
    rfl
  next => rfl

theorem itemPath_eq (path : String) (position : Nat) :
    itemPath path position = PathStep.extend path (.index position) := rfl

/-- The issues below a value. -/
def nodeChildren (regexMatch : String → String → Option Bool) (value schema : Json) (path : String) :
    List JsonSchemaIssue :=
  match value with
  | .object fields =>
    validateRequired fields schema path ++ validateProperties regexMatch fields schema path
  | .array items =>
    validateArraySize items.length schema path ++
      match member schema "items" with
      | some (.object itemSchema) => validateItems regexMatch items 0 (.object itemSchema) path
      | _ => []
  | _ => []

section
variable {regexMatch : String → String → Option Bool} {value schema : Json} {path : String}

theorem validateNode_eq : validateNode regexMatch value schema path =
    checkNode regexMatch value schema path (nodeChildren regexMatch value schema path) := by
  cases value <;> rfl

/-- Behind the type come all checks; before it nothing but the type is reported. -/
theorem validateNode_cases :
    (Typed value schema ∧ validateNode regexMatch value schema path =
      validateEnum value schema path ++ validateNumberBounds value schema path ++
        validatePattern regexMatch value schema path ++ nodeChildren regexMatch value schema path) ∨
    ∃ type, member schema "type" = some (.string type) ∧ matchesType value type = false ∧
      validateNode regexMatch value schema path =
        [⟨path, "expected " ++ type ++ " but found " ++ typeName value⟩] := by
  rw [validateNode_eq]
  unfold checkNode
  dsimp only
  split
  next type typed =>
    cases matching : matchesType value type with
    | true =>
      refine .inl ⟨?_, rfl⟩
      intro other same
      rw [typed] at same
      cases same
      exact matching
    | false => exact .inr ⟨type, typed, matching, rfl⟩
  next untyped => exact .inl ⟨fun type typed => absurd typed (untyped type), rfl⟩

theorem typed_of_clean (clean : validateNode regexMatch value schema path = []) : Typed value schema := by
  rcases @validateNode_cases regexMatch value schema path with ⟨typed, -⟩ | ⟨type, -, -, issue⟩
  · exact typed
  · rw [issue] at clean
    cases clean

theorem mem_validateNode_of_child (typed : Typed value schema) {issue : JsonSchemaIssue}
    (child : issue ∈ nodeChildren regexMatch value schema path) :
    issue ∈ validateNode regexMatch value schema path := by
  rcases @validateNode_cases regexMatch value schema path with ⟨-, checks⟩ | ⟨type, found, fails, -⟩
  · rw [checks]
    exact List.mem_append_right _ child
  · rw [typed type found] at fails
    cases fails

/-- A place that fails a check has an issue, once the validator gets there. -/
theorem FailsCheck.issue (fails : FailsCheck value schema) :
    ∃ issue ∈ validateNode regexMatch value schema path, issue.path = path := by
  rcases @validateNode_cases regexMatch value schema path with ⟨typed, checks⟩ | ⟨type, -, -, single⟩
  · rw [checks]
    cases fails with
    | type found fails =>
      rw [typed _ found] at fails
      cases fails
    | enum found fails =>
      have issue : validateEnum value schema path = [⟨path, "value is not in the allowed enum"⟩] := by
        unfold validateEnum
        rw [found]
        dsimp only
        rw [fails]
        rfl
      have found : ⟨path, "value is not in the allowed enum"⟩ ∈ validateEnum value schema path := by
        rw [issue]
        exact List.mem_singleton_self _
      exact ⟨_, List.mem_append_left _ (List.mem_append_left _ (List.mem_append_left _ found)), rfl⟩
    | minimum number bound less =>
      have issue : ⟨path, "number is below minimum"⟩ ∈ validateNumberBounds value schema path := by
        unfold validateNumberBounds
        rw [number, bound]
        dsimp only
        rw [if_pos less]
        exact List.mem_append_left _ (List.mem_singleton_self _)
      exact ⟨_, List.mem_append_left _ (List.mem_append_left _ (List.mem_append_right _ issue)), rfl⟩
    | maximum number bound less =>
      have issue : ⟨path, "number is above maximum"⟩ ∈ validateNumberBounds value schema path := by
        unfold validateNumberBounds
        rw [number, bound]
        dsimp only
        rw [if_pos less]
        exact List.mem_append_right _ (List.mem_singleton_self _)
      exact ⟨_, List.mem_append_left _ (List.mem_append_left _ (List.mem_append_right _ issue)), rfl⟩
    | @minItems items bound array found less =>
      have issue : ⟨path, "array has too few items"⟩ ∈ validateArraySize items.length schema path := by
        unfold validateArraySize
        rw [found]
        exact List.mem_append_left _ (by simp [less])
      subst array
      exact ⟨_, List.mem_append_right _ (List.mem_append_left _ issue), rfl⟩
    | @maxItems items bound array found less =>
      have issue : ⟨path, "array has too many items"⟩ ∈ validateArraySize items.length schema path := by
        unfold validateArraySize
        rw [found]
        exact List.mem_append_right _ (by simp [less])
      subst array
      exact ⟨_, List.mem_append_right _ (List.mem_append_left _ issue), rfl⟩
  · rw [single]
    exact ⟨_, List.mem_singleton_self _, rfl⟩

/-- The issues of the value itself. -/
theorem failsCheck_of_enum {issue : JsonSchemaIssue} (found : issue ∈ validateEnum value schema path) :
    issue.path = path ∧ FailsCheck value schema := by
  unfold validateEnum at found
  split at found
  next enumeration written =>
    split at found
    next => cases found
    next fails =>
      rw [List.mem_singleton.mp found]
      exact ⟨rfl, .enum written (Bool.eq_false_iff.mpr fails)⟩
  next => cases found

theorem failsCheck_of_bounds {issue : JsonSchemaIssue}
    (found : issue ∈ validateNumberBounds value schema path) :
    issue.path = path ∧ FailsCheck value schema := by
  unfold validateNumberBounds at found
  split at found
  next => cases found
  next number isNumber =>
    rcases List.mem_append.mp found with found | found
    · split at found
      next bound written =>
        split at found
        next less =>
          rw [List.mem_singleton.mp found]
          exact ⟨rfl, .minimum isNumber written less⟩
        next => cases found
      next => cases found
    · split at found
      next bound written =>
        split at found
        next less =>
          rw [List.mem_singleton.mp found]
          exact ⟨rfl, .maximum isNumber written less⟩
        next => cases found
      next => cases found

theorem failsCheck_of_size {items : List Json} {issue : JsonSchemaIssue}
    (found : issue ∈ validateArraySize items.length schema path) :
    issue.path = path ∧ FailsCheck (.array items) schema := by
  rcases List.mem_append.mp found with found | found
  · split at found
    next bound written =>
      split at found
      next less =>
        rw [List.mem_singleton.mp found]
        exact ⟨rfl, .minItems rfl written less⟩
      next => cases found
    next => cases found
  · split at found
    next bound written =>
      split at found
      next less =>
        rw [List.mem_singleton.mp found]
        exact ⟨rfl, .maxItems rfl written less⟩
      next => cases found
    next => cases found

/-- The names that are required and missing. -/
theorem mem_validateRequired_iff {fields : List (String × Json)} {issue : JsonSchemaIssue} :
    issue ∈ validateRequired fields schema path ↔ ∃ required name,
      member schema "required" = some (.array required) ∧ .string name ∈ required ∧
        fields.lookup name = none ∧ issue = ⟨childPath path name, "required property is missing"⟩ := by
  unfold validateRequired
  split
  next required written =>
    rw [List.mem_filterMap]
    constructor
    · rintro ⟨entry, listed, missing⟩
      split at missing
      next name =>
        split at missing
        next => cases missing
        next absent =>
          exact ⟨required, name, written, listed, Option.not_isSome_iff_eq_none.mp absent, (Option.some.inj missing).symm⟩
      next => cases missing
    · rintro ⟨required', name, written', listed, absent, rfl⟩
      rw [written] at written'
      cases written'
      exact ⟨.string name, listed, by simp [absent]⟩
  next unwritten =>
    constructor
    · intro found
      cases found
    · rintro ⟨required, name, written, -⟩
      exact absurd written (unwritten required)

theorem mem_validateProperties_iff {fields : List (String × Json)} {issue : JsonSchemaIssue} :
    issue ∈ validateProperties regexMatch fields schema path ↔ ∃ name child, (name, child) ∈ fields ∧
      match propertyRule schema name with
      | .validate property => issue ∈ validateNode regexMatch child property (childPath path name)
      | .forbid => issue = ⟨childPath path name, "additional property is not allowed"⟩
      | .pass => False := by
  induction fields with
  | nil => simp [validateProperties]
  | cons field rest ih =>
    obtain ⟨name, child⟩ := field
    rw [validateProperties, List.mem_append, ih]
    constructor
    · rintro (first | ⟨name', child', member, later⟩)
      · refine ⟨name, child, List.mem_cons_self, ?_⟩
        cases rule : propertyRule schema name with
        | validate property =>
          rw [rule] at first
          exact first
        | forbid =>
          rw [rule] at first
          exact List.mem_singleton.mp first
        | pass =>
          rw [rule] at first
          exact absurd first List.not_mem_nil
      · exact ⟨name', child', List.mem_cons_of_mem _ member, later⟩
    · rintro ⟨name', child', member, later⟩
      rcases List.mem_cons.mp member with same | member
      · cases same
        refine .inl ?_
        cases rule : propertyRule schema name with
        | validate property =>
          rw [rule] at later
          exact later
        | forbid =>
          rw [rule] at later
          exact List.mem_singleton.mpr later
        | pass =>
          rw [rule] at later
          exact later.elim
      · exact .inr ⟨name', child', member, later⟩

theorem mem_validateItems_iff {items : List Json} {start : Nat} {issue : JsonSchemaIssue} :
    issue ∈ validateItems regexMatch items start schema path ↔ ∃ position child,
      items[position]? = some child ∧
        issue ∈ validateNode regexMatch child schema (itemPath path (start + position)) := by
  induction items generalizing start with
  | nil => simp [validateItems]
  | cons item rest ih =>
    rw [validateItems, List.mem_append, ih]
    constructor
    · rintro (first | ⟨position, child, found, later⟩)
      · exact ⟨0, item, rfl, first⟩
      · exact ⟨position + 1, child, found, by rwa [← Nat.succ_add_eq_add_succ]⟩
    · rintro ⟨position, child, found, later⟩
      cases position with
      | zero =>
        cases found
        exact .inl later
      | succ position => exact .inr ⟨position, child, found, by rwa [← Nat.succ_add_eq_add_succ] at later⟩

end

/-! ## From place to place -/

theorem propertyRule_named {schema property : Json} {name : String}
    (named : namedProperty schema name = some property) : propertyRule schema name = .validate property := by
  unfold namedProperty at named
  unfold propertyRule
  rw [named]

theorem propertyRule_unnamed {schema : Json} {name : String} (unnamed : namedProperty schema name = none) :
    propertyRule schema name =
      match member schema "additionalProperties" with
      | some (.bool false) => .forbid
      | some (.object additional) => .validate (.object additional)
      | _ => .pass := by
  unfold namedProperty at unnamed
  unfold propertyRule
  rw [unnamed]
  all_goals rfl

theorem mem_fieldsAreJson {fields : List (String × Json)} (json : fieldsAreJson fields = true)
    {entry : String × Json} (found : entry ∈ fields) : isJson entry.2 = true := by
  induction fields with
  | nil => cases found
  | cons field rest ih =>
    obtain ⟨first, others⟩ := Bool.and_eq_true_iff.mp json
    rcases List.mem_cons.mp found with rfl | found
    · exact first
    · exact ih others found

theorem mem_itemsAreJson {items : List Json} (json : itemsAreJson items = true) {value : Json}
    (found : value ∈ items) : isJson value = true := by
  induction items with
  | nil => cases found
  | cons item rest ih =>
    obtain ⟨first, others⟩ := Bool.and_eq_true_iff.mp json
    rcases List.mem_cons.mp found with rfl | found
    · exact first
    · exact ih others found

namespace IsSchema

variable {schema : Json} (isSchema : IsSchema schema)
include isSchema

theorem unhandled {keyword : String} (other : keyword ∉ handledKeywords) : member schema keyword = none := by
  cases isSchema with
  | mk fields _ keywords =>
    refine List.lookup_eq_none_iff.mpr ?_
    intro entry found
    rw [bne_iff_ne]
    rintro rfl
    exact other (keywords entry found)

theorem named {name : String} {property : Json} (found : namedProperty schema name = some property) :
    IsSchema property := by
  obtain ⟨properties, written, listed⟩ := Option.bind_eq_some_iff.mp found
  cases isSchema with
  | mk fields _ _ _ _ _ _ _ hasProperties isProperties =>
    obtain ⟨schemas, rfl⟩ := hasProperties properties written
    obtain ⟨before, after, split, -⟩ := List.lookup_eq_some_iff.mp listed
    have listed : (name, property) ∈ (Json.object schemas).fields := by
      rw [split]
      exact List.mem_append_right _ List.mem_cons_self
    exact isProperties schemas name property written listed

theorem ofAdditional {additional : List (String × Json)}
    (found : member schema "additionalProperties" = some (.object additional)) :
    IsSchema (.object additional) := by
  cases isSchema with
  | mk fields _ _ _ _ _ _ _ _ _ _ isAdditional => exact isAdditional additional found

theorem ofItems {items : List (String × Json)} (found : member schema "items" = some (.object items)) :
    IsSchema (.object items) := by
  cases isSchema with
  | mk fields _ _ _ _ _ _ _ _ _ _ _ _ isItems => exact isItems items found

end IsSchema

namespace Reaches

variable {look : Json → Json → Prop} {value schema value' schema' : Json} {steps : List PathStep}

theorem isSchema (reaches : Reaches look value schema steps value' schema') (isSchema : IsSchema schema) :
    IsSchema schema' := by
  induction reaches with
  | here => exact isSchema
  | property _ _ named _ ih => exact ih (isSchema.named named)
  | additional _ _ _ written _ ih => exact ih (isSchema.ofAdditional written)
  | item _ _ written _ ih => exact ih (isSchema.ofItems written)

theorem isJson (reaches : Reaches look value schema steps value' schema')
    (json : JsonSchema.isJson value = true) : JsonSchema.isJson value' = true := by
  induction reaches with
  | here => exact json
  | property _ found _ _ ih => exact ih (mem_fieldsAreJson json found)
  | additional _ found _ _ _ ih => exact ih (mem_fieldsAreJson json found)
  | item _ found _ _ ih => exact ih (mem_itemsAreJson json (List.mem_of_getElem? found))

theorem mono {wider : Json → Json → Prop} (reaches : Reaches look value schema steps value' schema')
    (le : ∀ value schema, look value schema → wider value schema) :
    Reaches wider value schema steps value' schema' := by
  induction reaches with
  | here => exact .here
  | property enters found named _ ih => exact .property (le _ _ enters) found named ih
  | additional enters found unnamed written _ ih => exact .additional (le _ _ enters) found unnamed written ih
  | item enters found written _ ih => exact .item (le _ _ enters) found written ih

end Reaches

section
variable {regexMatch : String → String → Option Bool}

theorem mem_validateNode_property {fields : List (String × Json)} {schema child property : Json}
    {path name : String} (typed : Typed (.object fields) schema) (found : (name, child) ∈ fields)
    (rule : propertyRule schema name = .validate property) {issue : JsonSchemaIssue}
    (below : issue ∈ validateNode regexMatch child property (PathStep.extend path (.key name))) :
    issue ∈ validateNode regexMatch (.object fields) schema path := by
  refine mem_validateNode_of_child typed (List.mem_append_right _ ?_)
  rw [mem_validateProperties_iff]
  refine ⟨name, child, found, ?_⟩
  rw [rule, childPath_eq]
  exact below

theorem mem_validateNode_item {items : List Json} {itemSchema : List (String × Json)} {schema child : Json}
    {path : String} {position : Nat} (typed : Typed (.array items) schema)
    (found : items[position]? = some child) (written : member schema "items" = some (.object itemSchema))
    {issue : JsonSchemaIssue} (below : issue ∈ validateNode regexMatch child (.object itemSchema)
      (PathStep.extend path (.index position))) :
    issue ∈ validateNode regexMatch (.array items) schema path := by
  refine mem_validateNode_of_child typed (List.mem_append_right _ ?_)
  rw [written]
  dsimp only
  rw [mem_validateItems_iff]
  refine ⟨position, child, found, ?_⟩
  rw [Nat.zero_add, itemPath_eq]
  exact below

/-- The issues of a place are issues of the whole. -/
theorem mem_validateNode_of_reaches {value schema value' schema' : Json} {steps : List PathStep}
    (reaches : Reaches Typed value schema steps value' schema') {path : String} {issue : JsonSchemaIssue}
    (found : issue ∈ validateNode regexMatch value' schema' (extendPath path steps)) :
    issue ∈ validateNode regexMatch value schema path := by
  induction reaches generalizing path with
  | here => exact found
  | property typed member named _ ih =>
    exact mem_validateNode_property typed member (propertyRule_named named) (ih found)
  | additional typed member unnamed written _ ih =>
    refine mem_validateNode_property typed member ?_ (ih found)
    rw [propertyRule_unnamed unnamed, written]
  | item typed member written _ ih => exact mem_validateNode_item typed member written (ih found)

/-- In a value without issues the validator gets everywhere, and finds none there. -/
theorem reaches_typed_of_clean {value schema value' schema' : Json} {steps : List PathStep}
    (reaches : Reaches (fun _ _ => True) value schema steps value' schema') {path : String}
    (clean : validateNode regexMatch value schema path = []) :
    Reaches Typed value schema steps value' schema' := by
  have below : ∀ {child property : Json} {path' : String},
      (∀ issue ∈ validateNode regexMatch child property path', issue ∈ ([] : List JsonSchemaIssue)) →
        validateNode regexMatch child property path' = [] :=
    fun none => List.eq_nil_iff_forall_not_mem.mpr fun issue found => List.not_mem_nil (none issue found)
  induction reaches generalizing path with
  | here => exact .here
  | @property fields schema child property _ _ name _ _ found named _ ih =>
    have typed := typed_of_clean clean
    have rule := propertyRule_named named
    refine .property typed found named (@ih (PathStep.extend path (.key name)) (below ?_))
    intro issue inside
    rw [← clean]
    exact mem_validateNode_property typed found rule inside
  | @additional fields additional schema child _ _ name _ _ found unnamed written _ ih =>
    have typed := typed_of_clean clean
    have rule : propertyRule schema name = .validate (.object additional) := by
      rw [propertyRule_unnamed unnamed, written]
    refine .additional typed found unnamed written
      (@ih (PathStep.extend path (.key name)) (below ?_))
    intro issue inside
    rw [← clean]
    exact mem_validateNode_property typed found rule inside
  | @item items itemSchema schema child _ _ position _ _ found written _ ih =>
    have typed := typed_of_clean clean
    refine .item typed found written (@ih (PathStep.extend path (.index position)) (below ?_))
    intro issue inside
    rw [← clean]
    exact mem_validateNode_item typed found written inside

theorem clean_of_reaches {value schema value' schema' : Json} {steps : List PathStep}
    (reaches : Reaches (fun _ _ => True) value schema steps value' schema') {path : String}
    (clean : validateNode regexMatch value schema path = []) :
    validateNode regexMatch value' schema' (extendPath path steps) = [] := by
  rw [List.eq_nil_iff_forall_not_mem]
  intro issue found
  have above := mem_validateNode_of_reaches (reaches_typed_of_clean reaches clean) found
  rw [clean] at above
  cases above

theorem Offends.mono {look wider broken : Json → Json → Prop} {value schema : Json} {steps : List PathStep}
    (offends : Offends look broken value schema steps)
    (le : ∀ value schema, look value schema → wider value schema) :
    Offends wider broken value schema steps := by
  cases offends with
  | keyword reaches breaks => exact .keyword (reaches.mono le) breaks
  | misplaced reaches misplaced => exact .misplaced (reaches.mono le) misplaced

/-- Below a step. -/
theorem Offends.below {look broken : Json → Json → Prop} {value schema child property : Json}
    {step : PathStep}
    (enter : ∀ {steps value' schema'}, Reaches look child property steps value' schema' →
      Reaches look value schema (step :: steps) value' schema')
    {steps : List PathStep} (offends : Offends look broken child property steps) :
    Offends look broken value schema (step :: steps) := by
  cases offends with
  | keyword reaches breaks => exact .keyword (enter reaches) breaks
  | misplaced reaches misplaced => exact .misplaced (enter reaches) misplaced

theorem sizeOf_property {fields : List (String × Json)} {name : String} {child : Json}
    (found : (name, child) ∈ fields) : sizeOf child < sizeOf (Json.object fields) := by
  have smaller := List.sizeOf_lt_of_mem found
  rw [Prod.mk.sizeOf_spec] at smaller
  rw [Json.object.sizeOf_spec]
  omega

theorem sizeOf_item {items : List Json} {child : Json} (found : child ∈ items) :
    sizeOf child < sizeOf (Json.array items) := by
  have smaller := List.sizeOf_lt_of_mem found
  rw [Json.array.sizeOf_spec]
  omega

/-- Every issue leads to a place that fails a check. -/
theorem offends_of_mem_validateNode (value : Json) {schema : Json} (isSchema : IsSchema schema) {path : String}
    {issue : JsonSchemaIssue} (found : issue ∈ validateNode regexMatch value schema path) :
    ∃ steps, issue.path = extendPath path steps ∧ Offends Typed FailsCheck value schema steps := by
  rcases @validateNode_cases regexMatch value schema path with ⟨typed, checks⟩ | ⟨type, written, fails, single⟩
  · rw [checks] at found
    have own : issue.path = path ∧ FailsCheck value schema → ∃ steps, issue.path = extendPath path steps ∧
        Offends Typed FailsCheck value schema steps :=
      fun ⟨same, fails⟩ => ⟨[], same, .keyword .here fails⟩
    rcases List.mem_append.mp found with found | found
    · rcases List.mem_append.mp found with found | found
      · rcases List.mem_append.mp found with found | found
        · exact own (failsCheck_of_enum found)
        · exact own (failsCheck_of_bounds found)
      · unfold validatePattern at found
        rw [isSchema.unhandled (by decide)] at found
        cases found
    · cases value with
      | object fields =>
        rcases List.mem_append.mp found with found | found
        · obtain ⟨required, name, written, listed, absent, rfl⟩ := mem_validateRequired_iff.mp found
          exact ⟨[.key name], childPath_eq path name, .misplaced .here (.missing written listed absent)⟩
        · obtain ⟨name, child, member, rule⟩ := mem_validateProperties_iff.mp found
          rw [childPath_eq] at rule
          cases named : namedProperty schema name with
          | some property =>
            rw [propertyRule_named named] at rule
            obtain ⟨steps, path, offends⟩ := offends_of_mem_validateNode child (isSchema.named named) rule
            exact ⟨.key name :: steps, path, offends.below (.property typed member named)⟩
          | none =>
            rw [propertyRule_unnamed named] at rule
            split at rule
            next property rule' =>
              split at rule'
              next => cases rule'
              next additional written =>
                cases rule'
                obtain ⟨steps, path, offends⟩ :=
                  offends_of_mem_validateNode child (isSchema.ofAdditional written) rule
                exact ⟨.key name :: steps, path, offends.below (.additional typed member named written)⟩
              next => cases rule'
            next rule' =>
              split at rule'
              next written =>
                rw [rule]
                exact ⟨[.key name], rfl, .misplaced .here (.forbidden member named written)⟩
              next => cases rule'
              next => cases rule'
            next => cases rule
      | array items =>
        rcases List.mem_append.mp found with found | found
        · exact own (failsCheck_of_size found)
        · split at found
          next itemSchema written =>
            obtain ⟨position, child, member, below⟩ := mem_validateItems_iff.mp found
            rw [Nat.zero_add, itemPath_eq] at below
            obtain ⟨steps, path, offends⟩ :=
              offends_of_mem_validateNode child (isSchema.ofItems written) below
            exact ⟨.index position :: steps, path, offends.below (.item typed member written)⟩
          next => cases found
      | _ => cases found
  · rw [single] at found
    rw [List.mem_singleton.mp found]
    exact ⟨[], rfl, .keyword .here (.type written fails)⟩
termination_by sizeOf value
decreasing_by
  · subst_vars
    exact sizeOf_item (List.mem_of_getElem? member)
  · subst_vars
    exact sizeOf_property member
  · subst_vars
    exact sizeOf_property member

end

/-! ## The whole document -/

section
variable (regexMatch : String → String → Option Bool) {value schema : Json}

/-- A value without issues fails no check and misplaces no member anywhere. -/
theorem not_offends_of_clean (clean : validateJsonSchemaSubset regexMatch value schema = [])
    (steps : List PathStep) : ¬Offends (fun _ _ => True) FailsCheck value schema steps := by
  intro offends
  cases offends with
  | keyword reaches fails =>
    have clean := clean_of_reaches reaches clean
    obtain ⟨issue, found, -⟩ := @FailsCheck.issue regexMatch _ _ (extendPath "$" steps) fails
    rw [clean] at found
    cases found
  | @misplaced steps fields schema' name reaches misplaced =>
    have clean := clean_of_reaches reaches clean
    obtain ⟨issue, found⟩ : ∃ issue,
        issue ∈ nodeChildren regexMatch (.object fields) schema' (extendPath "$" steps) := by
      cases misplaced with
      | missing written listed absent =>
        exact ⟨_, List.mem_append_left _ (mem_validateRequired_iff.mpr ⟨_, _, written, listed, absent, rfl⟩)⟩
      | forbidden found unnamed written =>
        refine ⟨⟨childPath (extendPath "$" steps) name, "additional property is not allowed"⟩,
          List.mem_append_right _ (mem_validateProperties_iff.mpr ⟨name, _, found, ?_⟩)⟩
        rw [propertyRule_unnamed unnamed, written]
    have found := mem_validateNode_of_child (typed_of_clean clean) found
    rw [clean] at found
    cases found

/-- The validator is right about a document unless a type is read narrowly where nothing is
broken, or rounding hides all that is broken. -/
theorem validateJsonSchemaSubset_iff (json : isJson value = true) (isSchema : IsSchema schema) :
    ((validateJsonSchemaSubset regexMatch value schema = [] ↔ Satisfies value schema) ∧
      ∀ issue ∈ validateJsonSchemaSubset regexMatch value schema, ∃ steps,
        issue.path = renderPath steps ∧
          Offends (fun _ _ => True) BreaksKeyword value schema steps) ↔
    (∀ steps value' schema', Reaches Typed value schema steps value' schema' →
      ReadNarrowly value' schema' → ∃ other, renderPath other = renderPath steps ∧
        Offends (fun _ _ => True) BreaksKeyword value schema other) ∧
    ((∃ steps value' schema', Reaches (fun _ _ => True) value schema steps value' schema' ∧
        RoundedAway value' schema') →
      ∃ steps, Offends (fun _ _ => True) FailsCheck value schema steps) := by
  -- A place the validator flags is broken, or a type is read narrowly there.
  have sound : ∀ issue ∈ validateJsonSchemaSubset regexMatch value schema, ∃ steps,
      issue.path = renderPath steps ∧
        (Offends (fun _ _ => True) BreaksKeyword value schema steps ∨
          ∃ value' schema', Reaches Typed value schema steps value' schema' ∧ ReadNarrowly value' schema') := by
    intro issue found
    obtain ⟨steps, path, offends⟩ := offends_of_mem_validateNode value isSchema found
    refine ⟨steps, path, ?_⟩
    cases offends with
    | keyword reaches fails =>
      rcases fails.breaks (reaches.isJson json) with breaks | narrow
      · exact .inl (.keyword (reaches.mono fun _ _ _ => trivial) breaks)
      · exact .inr ⟨_, _, reaches, narrow⟩
    | misplaced reaches misplaced =>
      exact .inl (.misplaced (reaches.mono fun _ _ _ => trivial) misplaced)
  constructor
  · rintro ⟨verdict, paths⟩
    refine ⟨?_, ?_⟩
    · intro steps value' schema' reaches narrow
      obtain ⟨issue, found, path⟩ := @FailsCheck.issue regexMatch _ _ (renderPath steps) narrow.fails
      obtain ⟨other, same, offends⟩ := paths issue (mem_validateNode_of_reaches reaches found)
      exact ⟨other, same.symm.trans path, offends⟩
    · rintro ⟨steps, value', schema', reaches, hidden⟩
      by_contra none
      have unsatisfied : ¬Satisfies value schema :=
        fun satisfies => satisfies steps (.keyword reaches hidden.breaks)
      rw [← verdict] at unsatisfied
      obtain ⟨issue, found⟩ := List.exists_mem_of_ne_nil _ unsatisfied
      obtain ⟨steps, -, offends⟩ := offends_of_mem_validateNode value isSchema found
      exact none ⟨steps, offends.mono fun _ _ _ => trivial⟩
  · rintro ⟨narrow, hidden⟩
    have paths : ∀ issue ∈ validateJsonSchemaSubset regexMatch value schema, ∃ steps,
        issue.path = renderPath steps ∧
          Offends (fun _ _ => True) BreaksKeyword value schema steps := by
      intro issue found
      obtain ⟨steps, path, offends | ⟨value', schema', reaches, isNarrow⟩⟩ := sound issue found
      · exact ⟨steps, path, offends⟩
      · obtain ⟨other, same, offends⟩ := narrow steps value' schema' reaches isNarrow
        exact ⟨other, path.trans same.symm, offends⟩
    refine ⟨⟨?_, ?_⟩, paths⟩
    · intro clean steps offends
      have passes := not_offends_of_clean regexMatch clean
      cases offends with
      | keyword reaches breaks =>
        rcases breaks.fails (reaches.isSchema isSchema) with fails | away
        · exact passes steps (.keyword reaches fails)
        · obtain ⟨other, fails⟩ := hidden ⟨_, _, _, reaches, away⟩
          exact passes other fails
      | misplaced reaches misplaced => exact passes _ (.misplaced reaches misplaced)
    · intro satisfies
      by_contra issues
      obtain ⟨issue, found⟩ := List.exists_mem_of_ne_nil _ issues
      obtain ⟨steps, -, offends⟩ := paths issue found
      exact satisfies steps offends

end

/-- A schema of one keyword with a plain value. -/
theorem isSchema_single {keyword : String} {setting : Json} (json : isJson setting = true)
    (typed : keyword = "type" → ∃ name ∈ typeNames, setting = .string name)
    (bounded : keyword ∈ ["minimum", "maximum"] → ∃ number, numberValue setting = some number)
    (plain : keyword ∈ ["type", "minimum", "maximum"]) : IsSchema (.object [(keyword, setting)]) := by
  have only : ∀ {other : String} {found : Json}, List.lookup other [(keyword, setting)] = some found →
      other = keyword ∧ found = setting := by
    intro other found written
    rw [List.lookup_cons] at written
    split at written
    next same => exact ⟨eq_of_beq same, (Option.some.inj written).symm⟩
    next => cases written
  have absent : ∀ {other : String} {found : Json} {P : Prop}, other ∉ ["type", "minimum", "maximum"] →
      List.lookup other [(keyword, setting)] = some found → P := by
    intro other found P different written
    obtain ⟨rfl, -⟩ := only written
    exact absurd plain different
  refine .mk _ ?_ ?_ ?_ ?_ ?_ ?_ ?_ ?_ ?_ ?_ ?_ ?_ ?_
  · exact Bool.and_eq_true_iff.mpr ⟨json, rfl⟩
  · intro entry listed
    rw [List.mem_singleton.mp listed]
    show keyword ∈ handledKeywords
    simp only [List.mem_cons, List.not_mem_nil, or_false] at plain
    rcases plain with rfl | rfl | rfl <;> decide
  · intro type written
    obtain ⟨rfl, rfl⟩ := only written
    exact typed rfl
  · exact fun _ => absent (by decide)
  · exact fun _ => absent (by decide)
  · intro other isBound bound written
    obtain ⟨rfl, rfl⟩ := only written
    exact bounded isBound
  · intro other isSize bound written
    refine absent ?_ written
    simp only [List.mem_cons, List.not_mem_nil, or_false] at isSize
    rcases isSize with rfl | rfl <;> decide
  · exact fun _ => absent (by decide)
  · exact fun _ _ _ => absent (by decide)
  · exact fun _ => absent (by decide)
  · exact fun _ => absent (by decide)
  · exact fun _ => absent (by decide)
  · exact fun _ => absent (by decide)

theorem validateJsonSchemaSubset_five :
    validateJsonSchemaSubset (fun _ _ => none) (.integer 5) (.object [("type", .string "integer")]) = [] ↔
      Satisfies (.integer 5) (.object [("type", .string "integer")]) := by
  refine ((validateJsonSchemaSubset_iff (fun _ _ => none) (by decide)
    (isSchema_single rfl (fun _ => ⟨"integer", by decide, rfl⟩)
      (fun bound => absurd bound (by decide)) (by decide))).mpr ⟨?_, ?_⟩).1
  · intro steps value' schema' reaches narrow
    cases reaches
    cases narrow with
    | integer _ double _ => cases double
    | null _ null => cases null
  · rintro ⟨steps, value', schema', reaches, hidden⟩
    cases reaches
    cases hidden with
    | enum written => cases written
    | minimum _ bound => cases bound
    | maximum _ bound => cases bound
    | minItems array => cases array
    | maxItems array => cases array

/-- The integer behind 2^53 is taken for 2^53, and 3.0 for no integer. -/
theorem validateJsonSchemaSubset_wrong :
    (IsSchema (.object [("maximum", .integer 9007199254740992)]) ∧
      validateJsonSchemaSubset (fun _ _ => none) (.integer 9007199254740993)
        (.object [("maximum", .integer 9007199254740992)]) = [] ∧
      ¬Satisfies (.integer 9007199254740993) (.object [("maximum", .integer 9007199254740992)])) ∧
    IsSchema (.object [("type", .string "integer")]) ∧
      validateJsonSchemaSubset (fun _ _ => none) (.float 0x4008000000000000)
        (.object [("type", .string "integer")]) = [⟨"$", "expected integer but found number"⟩] ∧
      Satisfies (.float 0x4008000000000000) (.object [("type", .string "integer")]) := by
  refine ⟨⟨?_, by decide +kernel, ?_⟩, ?_, by decide +kernel, ?_⟩
  · exact isSchema_single (by decide) (fun type => absurd type (by decide)) (fun _ => ⟨_, rfl⟩) (by decide)
  · intro satisfies
    refine satisfies [] (.keyword .here (@BreaksKeyword.maximum (.integer 9007199254740993) _ _ _ rfl rfl ?_))
    norm_num
  · exact isSchema_single rfl (fun _ => ⟨"integer", by decide, rfl⟩)
      (fun bound => absurd bound (by decide)) (by decide)
  · rintro steps offends
    cases offends with
    | keyword reaches breaks =>
      cases reaches
      cases breaks with
      | type written hasType =>
        cases written
        exact hasType (@HasType.integer _ 3 (by decide +kernel))
      | enum written => cases written
      | minimum _ bound => cases bound
      | maximum _ bound => cases bound
      | minItems array => cases array
      | maxItems array => cases array
    | misplaced reaches => cases reaches

end Svp.Validation.JsonSchema
