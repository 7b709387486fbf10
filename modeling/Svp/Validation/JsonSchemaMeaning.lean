import Svp.Validation.JsonSchemaSubset

/-!
# What a JSON schema means

A value satisfies a schema when no place in it breaks a keyword of the schema for that
place (`Satisfies`). The validator reads two things in its own way: an integer is a number
written without a point, and numbers are compared as doubles.

It finds no issue exactly for the values that satisfy the schema, and its paths lead to
broken places, unless one of the two shows (`validateJsonSchemaSubset_iff`).
-/

namespace Svp.Validation.JsonSchema

open Exec (Json member isFinite)

/-! ## Places -/

inductive PathStep
  | key (name : String)
  | index (position : Nat)

def PathStep.extend (path : String) : PathStep → String
  | .key name => path ++ "." ++ name
  | .index position => path ++ "[" ++ toString position ++ "]"

def extendPath (path : String) (steps : List PathStep) : String := steps.foldl PathStep.extend path

/-- From the root. -/
def renderPath (steps : List PathStep) : String := extendPath "$" steps

/-- The schema of a property that `properties` names. -/
def namedProperty (schema : Json) (name : String) : Option Json :=
  (member schema "properties").bind fun properties => member properties name

/-- A place below a value, with the schema for it. Only values that `look` allows are
entered. -/
inductive Reaches (look : Json → Json → Prop) : Json → Json → List PathStep → Json → Json → Prop
  | here {value schema : Json} : Reaches look value schema [] value schema
  | property {fields : List (String × Json)} {schema child property value' schema' : Json} {name : String}
      {steps : List PathStep} : look (.object fields) schema → (name, child) ∈ fields →
      namedProperty schema name = some property → Reaches look child property steps value' schema' →
      Reaches look (.object fields) schema (.key name :: steps) value' schema'
  | additional {fields additional : List (String × Json)} {schema child value' schema' : Json} {name : String}
      {steps : List PathStep} : look (.object fields) schema → (name, child) ∈ fields →
      namedProperty schema name = none →
      member schema "additionalProperties" = some (.object additional) →
      Reaches look child (.object additional) steps value' schema' →
      Reaches look (.object fields) schema (.key name :: steps) value' schema'
  | item {items : List Json} {itemSchema : List (String × Json)} {schema child value' schema' : Json}
      {position : Nat} {steps : List PathStep} : look (.array items) schema →
      items[position]? = some child → member schema "items" = some (.object itemSchema) →
      Reaches look child (.object itemSchema) steps value' schema' →
      Reaches look (.array items) schema (.index position :: steps) value' schema'

/-- A member of an object that is missing or not allowed. -/
inductive Misplaced (schema : Json) (fields : List (String × Json)) (name : String) : Prop
  | missing {required : List Json} : member schema "required" = some (.array required) →
      .string name ∈ required → fields.lookup name = none → Misplaced schema fields name
  | forbidden {value : Json} : (name, value) ∈ fields → namedProperty schema name = none →
      member schema "additionalProperties" = some (.bool false) → Misplaced schema fields name

/-- A place that is broken: in itself, or as a member of an object. -/
inductive Offends (look broken : Json → Json → Prop) (value schema : Json) : List PathStep → Prop
  | keyword {steps : List PathStep} {value' schema' : Json} :
      Reaches look value schema steps value' schema' → broken value' schema' →
      Offends look broken value schema steps
  | misplaced {steps : List PathStep} {fields : List (String × Json)} {schema' : Json} {name : String} :
      Reaches look value schema steps (.object fields) schema' → Misplaced schema' fields name →
      Offends look broken value schema (steps ++ [.key name])

/-! ## The keywords of one place -/

inductive HasType : Json → String → Prop
  | null : HasType .null "null"
  | boolean (value : Bool) : HasType (.bool value) "boolean"
  | object (fields : List (String × Json)) : HasType (.object fields) "object"
  | array (items : List Json) : HasType (.array items) "array"
  | string (text : String) : HasType (.string text) "string"
  | number {value : Json} {number : ℚ} : numberValue value = some number → HasType value "number"
  | integer {value : Json} {number : Int} : numberValue value = some number → HasType value "integer"

/-- A keyword of the schema that the value breaks. -/
inductive BreaksKeyword (value schema : Json) : Prop
  | type {type : String} : member schema "type" = some (.string type) → ¬HasType value type →
      BreaksKeyword value schema
  | enum {enumeration : List Json} : member schema "enum" = some (.array enumeration) →
      (∀ allowed ∈ enumeration, jsonEq value allowed = false) → BreaksKeyword value schema
  | minimum {number bound : ℚ} : numberValue value = some number →
      (member schema "minimum").bind numberValue = some bound → number < bound → BreaksKeyword value schema
  | maximum {number bound : ℚ} : numberValue value = some number →
      (member schema "maximum").bind numberValue = some bound → bound < number → BreaksKeyword value schema
  | minItems {items : List Json} {bound : ℚ} : value = .array items →
      (member schema "minItems").bind numberValue = some bound → items.length < bound →
      BreaksKeyword value schema
  | maxItems {items : List Json} {bound : ℚ} : value = .array items →
      (member schema "maxItems").bind numberValue = some bound → bound < items.length →
      BreaksKeyword value schema

/-- No place in the value breaks the schema. -/
def Satisfies (value schema : Json) : Prop :=
  ∀ steps, ¬Offends (fun _ _ => True) BreaksKeyword value schema steps

/-! ## The same for the validator -/

/-- The validator goes on behind the type. -/
def Typed (value schema : Json) : Prop :=
  ∀ type, member schema "type" = some (.string type) → matchesType value type = true

inductive FailsCheck (value schema : Json) : Prop
  | type {type : String} : member schema "type" = some (.string type) → matchesType value type = false →
      FailsCheck value schema
  | enum {enumeration : List Json} : member schema "enum" = some (.array enumeration) →
      enumeration.any (libraryEq value) = false → FailsCheck value schema
  | minimum {number bound : ℚ} : getDouble value = some number →
      (member schema "minimum").bind getDouble = some bound → number < bound → FailsCheck value schema
  | maximum {number bound : ℚ} : getDouble value = some number →
      (member schema "maximum").bind getDouble = some bound → bound < number → FailsCheck value schema
  | minItems {items : List Json} {bound : Nat} : value = .array items →
      member schema "minItems" = some (.integer bound) → items.length < bound → FailsCheck value schema
  | maxItems {items : List Json} {bound : Nat} : value = .array items →
      member schema "maxItems" = some (.integer bound) → bound < items.length → FailsCheck value schema

/-! ## JSON values and schemas of the handled keywords -/

mutual
/-- Numbers are finite, integers have 64 bits. -/
def isJson : Json → Bool
  | .null => true
  | .bool _ => true
  | .integer value => decide (-2 ^ 63 ≤ value) && decide (value < 2 ^ 64)
  | .float bits => isFinite bits
  | .string _ => true
  | .array items => itemsAreJson items
  | .object fields => fieldsAreJson fields
  | .binary _ => false
  | .discarded => false

def itemsAreJson : List Json → Bool
  | [] => true
  | value :: rest => isJson value && itemsAreJson rest

def fieldsAreJson : List (String × Json) → Bool
  | [] => true
  | (_, value) :: rest => isJson value && fieldsAreJson rest
end

def handledKeywords : List String :=
  ["type", "required", "properties", "additionalProperties", "items", "minItems", "maxItems", "enum",
    "minimum", "maximum"]

def typeNames : List String := ["null", "boolean", "object", "array", "number", "string", "integer"]

/-- A schema object of the handled keywords, at every level. -/
inductive IsSchema : Json → Prop
  | mk (fields : List (String × Json))
      (json : isJson (.object fields) = true)
      (keywords : ∀ entry ∈ fields, entry.1 ∈ handledKeywords)
      (type : ∀ type, fields.lookup "type" = some type → ∃ name ∈ typeNames, type = .string name)
      (required : ∀ required, fields.lookup "required" = some required →
        ∃ names : List String, required = .array (names.map .string))
      (enum : ∀ enum, fields.lookup "enum" = some enum → ∃ values, enum = .array values)
      (bounds : ∀ keyword ∈ ["minimum", "maximum"], ∀ bound, fields.lookup keyword = some bound →
        ∃ number, numberValue bound = some number)
      (sizes : ∀ keyword ∈ ["minItems", "maxItems"], ∀ bound, fields.lookup keyword = some bound →
        ∃ size : Nat, numberValue bound = some (size : ℚ))
      (hasProperties : ∀ properties, fields.lookup "properties" = some properties →
        ∃ schemas, properties = .object schemas)
      (properties : ∀ schemas name property, fields.lookup "properties" = some (.object schemas) →
        (name, property) ∈ schemas → IsSchema property)
      (hasAdditional : ∀ additional, fields.lookup "additionalProperties" = some additional →
        (∃ allowed, additional = .bool allowed) ∨ ∃ schema, additional = .object schema)
      (additional : ∀ schema, fields.lookup "additionalProperties" = some (.object schema) →
        IsSchema (.object schema))
      (hasItems : ∀ items, fields.lookup "items" = some items → ∃ schema, items = .object schema)
      (items : ∀ schema, fields.lookup "items" = some (.object schema) → IsSchema (.object schema)) :
      IsSchema (.object fields)

end Svp.Validation.JsonSchema
