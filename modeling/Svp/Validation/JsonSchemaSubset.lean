import Svp.Validation.JsonNumbers

/-!
# The validator of JSON schemas

`validateJsonSchemaSubset` checks a value against a schema and lists what it finds, each
issue with the path of the place. A value of the wrong type is one issue, and nothing
below it is looked at.
-/

namespace Svp.Validation

open Exec (Json member isFinite)

structure JsonSchemaIssue where
  path : String
  message : String
deriving DecidableEq

namespace JsonSchema

def childPath (parent child : String) : String :=
  if parent = "$" then "$." ++ child else parent ++ "." ++ child

def itemPath (parent : String) (index : Nat) : String := parent ++ "[" ++ toString index ++ "]"

def matchesType (value : Json) (type : String) : Bool :=
  if type = "object" then value matches .object _
  else if type = "array" then value matches .array _
  else if type = "string" then value matches .string _
  else if type = "integer" then value matches .integer _
  else if type = "number" then
    match value with
    | .integer _ => true
    | .float bits => isFinite bits
    | _ => false
  else if type = "boolean" then value matches .bool _
  else false

/-- The library's names of the types. -/
def typeName : Json → String
  | .null => "null"
  | .object _ => "object"
  | .array _ => "array"
  | .string _ => "string"
  | .bool _ => "boolean"
  | .binary _ => "binary"
  | .discarded => "discarded"
  | .integer _ => "number"
  | .float _ => "number"

def validateEnum (value schema : Json) (path : String) : List JsonSchemaIssue :=
  match member schema "enum" with
  | some (.array enumeration) =>
    if enumeration.any (libraryEq value) then [] else [⟨path, "value is not in the allowed enum"⟩]
  | _ => []

def validateNumberBounds (value schema : Json) (path : String) : List JsonSchemaIssue :=
  match getDouble value with
  | none => []
  | some numericValue =>
    (match (member schema "minimum").bind getDouble with
    | some minimum => if numericValue < minimum then [⟨path, "number is below minimum"⟩] else []
    | none => []) ++
    (match (member schema "maximum").bind getDouble with
    | some maximum => if maximum < numericValue then [⟨path, "number is above maximum"⟩] else []
    | none => [])

/-- `std::regex_match`, or nothing where the library rejects the expression. -/
def validatePattern (regexMatch : String → String → Option Bool) (value schema : Json) (path : String) :
    List JsonSchemaIssue :=
  match member schema "pattern", value with
  | some (.string pattern), .string text =>
    match regexMatch text pattern with
    | some true => []
    | some false => [⟨path, "string does not match required pattern"⟩]
    | none => [⟨path, "schema pattern is not supported by this validator"⟩]
  | _, _ => []

/-- The required names that `fields` lack. -/
def validateRequired (fields : List (String × Json)) (schema : Json) (path : String) :
    List JsonSchemaIssue :=
  match member schema "required" with
  | some (.array required) =>
    required.filterMap fun
      | .string name =>
        if (fields.lookup name).isSome then none
        else some ⟨childPath path name, "required property is missing"⟩
      | _ => none
  | _ => []

/-- What holds for one property. -/
inductive PropertyRule
  | validate (schema : Json)
  | forbid
  | pass

def propertyRule (schema : Json) (name : String) : PropertyRule :=
  match (member schema "properties").bind fun properties => member properties name with
  | some property => .validate property
  | none =>
    match member schema "additionalProperties" with
    | some (.bool false) => .forbid
    | some (.object additional) => .validate (.object additional)
    | _ => .pass

def validateArraySize (size : Nat) (schema : Json) (path : String) : List JsonSchemaIssue :=
  (match member schema "minItems" with
  | some (.integer (.ofNat minItems)) => if size < minItems then [⟨path, "array has too few items"⟩] else []
  | _ => []) ++
  (match member schema "maxItems" with
  | some (.integer (.ofNat maxItems)) => if maxItems < size then [⟨path, "array has too many items"⟩] else []
  | _ => [])

section
variable (regexMatch : String → String → Option Bool)

/-- The type first; `children` are the issues of an object or an array. -/
def checkNode (value schema : Json) (path : String) (children : List JsonSchemaIssue) :
    List JsonSchemaIssue :=
  let checks := validateEnum value schema path ++ validateNumberBounds value schema path ++
    validatePattern regexMatch value schema path ++ children
  match member schema "type" with
  | some (.string type) =>
    if matchesType value type then checks
    else [⟨path, "expected " ++ type ++ " but found " ++ typeName value⟩]
  | _ => checks

mutual
def validateNode : Json → Json → String → List JsonSchemaIssue
  | .object fields, schema, path =>
    checkNode regexMatch (.object fields) schema path
      (validateRequired fields schema path ++ validateProperties fields schema path)
  | .array items, schema, path =>
    checkNode regexMatch (.array items) schema path
      (validateArraySize items.length schema path ++
      match member schema "items" with
      | some (.object itemSchema) => validateItems items 0 (.object itemSchema) path
      | _ => [])
  | value, schema, path => checkNode regexMatch value schema path []

def validateProperties : List (String × Json) → Json → String → List JsonSchemaIssue
  | [], _, _ => []
  | (name, value) :: rest, schema, path =>
    (match propertyRule schema name with
    | .validate property => validateNode value property (childPath path name)
    | .forbid => [⟨childPath path name, "additional property is not allowed"⟩]
    | .pass => []) ++ validateProperties rest schema path

def validateItems : List Json → Nat → Json → String → List JsonSchemaIssue
  | [], _, _, _ => []
  | value :: rest, index, itemSchema, path =>
    validateNode value itemSchema (itemPath path index) ++ validateItems rest (index + 1) itemSchema path
end

def validateJsonSchemaSubset (value schema : Json) : List JsonSchemaIssue :=
  validateNode regexMatch value schema "$"

end

end JsonSchema

end Svp.Validation
