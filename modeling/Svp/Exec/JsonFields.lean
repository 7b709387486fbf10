import Svp.Exec.Json

/-!
# Strict field access for record decoding

Every accessor reports the violated rule with a code and the dotted path of the
field. The `required…_of` lemmas are the inverse direction the record codecs
need: on an object that holds the field with a value of the right type, the
accessor returns it.
-/

namespace Svp.Exec

/-- The members of an object; other values have none. -/
def Json.fields : Json → List (String × Json)
  | .object fields => fields
  | _ => []

def childPath (path name : String) : String := path ++ "." ++ name

def requireObject : Json → String → Except ExecError Unit
  | .object _, _ => .ok ()
  | _, path => .error ⟨.wrongType, path ++ " must be a JSON object"⟩

/-- Rejects any member of `object` not listed in `allowed`. -/
def rejectUnknownFields (object : Json) (allowed : List String) (path : String) :
    Except ExecError Unit :=
  match object.fields.find? (fun field => !allowed.contains field.1) with
  | some field => .error ⟨.unknownField, childPath path field.1 ++ " is not a known field"⟩
  | none => .ok ()

def requiredField (object : Json) (name path : String) : Except ExecError Json :=
  match object.fields.lookup name with
  | some value => .ok value
  | none => .error ⟨.missingField, childPath path name ++ " is required"⟩

def requiredString (object : Json) (name path : String) : Except ExecError String := do
  match ← requiredField object name path with
  | .string text => .ok text
  | _ => .error ⟨.wrongType, childPath path name ++ " must be a string"⟩

def requiredUnsigned (object : Json) (name path : String) : Except ExecError Nat := do
  match ← requiredField object name path with
  | .integer (.ofNat value) => .ok value
  | _ => .error ⟨.wrongType, childPath path name ++ " must be a non-negative integer"⟩

def requiredBool (object : Json) (name path : String) : Except ExecError Bool := do
  match ← requiredField object name path with
  | .bool value => .ok value
  | _ => .error ⟨.wrongType, childPath path name ++ " must be a boolean"⟩

def requiredObject (object : Json) (name path : String) : Except ExecError Json := do
  let value ← requiredField object name path
  requireObject value (childPath path name)
  return value

def requiredArray (object : Json) (name path : String) : Except ExecError (List Json) := do
  match ← requiredField object name path with
  | .array items => .ok items
  | _ => .error ⟨.wrongType, childPath path name ++ " must be a JSON array"⟩

/-- Bare 64-character lowercase hex. -/
def requiredBlake3Hex (object : Json) (name path : String) : Except ExecError Blake3Digest := do
  match parseBlake3Hex (← requiredString object name path) with
  | some digest => .ok digest
  | none =>
    .error ⟨.invalidDigest, childPath path name ++ " must be 64 lowercase hexadecimal characters"⟩

/-- `b3:` and 64 lowercase hex characters. -/
def requiredBlake3Prefixed (object : Json) (name path : String) :
    Except ExecError Blake3Digest := do
  match parseBlake3Prefixed (← requiredString object name path) with
  | some digest => .ok digest
  | none =>
    .error ⟨.invalidDigest,
      childPath path name ++ " must be \"b3:\" followed by 64 lowercase hexadecimal characters"⟩

section Inverse

variable {object : Json} {name : String} (path : String)

theorem rejectUnknownFields_of {allowed : List String}
    (known : ∀ field ∈ object.fields, allowed.contains field.1) :
    rejectUnknownFields object allowed path = .ok () := by
  have none : object.fields.find? (fun field => !allowed.contains field.1) = none :=
    List.find?_eq_none.mpr fun field mem => by rw [known field mem]; decide
  rw [rejectUnknownFields, none]

theorem requiredField_of {value : Json} (holds : object.fields.lookup name = some value) :
    requiredField object name path = .ok value := by
  rw [requiredField, holds]

theorem requiredString_of {text : String} (holds : object.fields.lookup name = some (.string text)) :
    requiredString object name path = .ok text := by
  rw [requiredString, requiredField_of path holds]; rfl

theorem requiredUnsigned_of {value : Nat}
    (holds : object.fields.lookup name = some (.integer value)) :
    requiredUnsigned object name path = .ok value := by
  rw [requiredUnsigned, requiredField_of path holds]; rfl

theorem requiredBool_of {value : Bool} (holds : object.fields.lookup name = some (.bool value)) :
    requiredBool object name path = .ok value := by
  rw [requiredBool, requiredField_of path holds]; rfl

theorem requiredObject_of {fields : List (String × Json)}
    (holds : object.fields.lookup name = some (.object fields)) :
    requiredObject object name path = .ok (.object fields) := by
  rw [requiredObject, requiredField_of path holds]; rfl

theorem requiredArray_of {items : List Json}
    (holds : object.fields.lookup name = some (.array items)) :
    requiredArray object name path = .ok items := by
  rw [requiredArray, requiredField_of path holds]; rfl

theorem requiredBlake3Hex_of {digest : Blake3Digest}
    (holds : object.fields.lookup name = some (.string (blake3Hex digest))) :
    requiredBlake3Hex object name path = .ok digest := by
  rw [requiredBlake3Hex, requiredString_of path holds]
  simp [bind, Except.bind]

theorem requiredBlake3Prefixed_of {digest : Blake3Digest}
    (holds : object.fields.lookup name = some (.string (blake3Prefixed digest))) :
    requiredBlake3Prefixed object name path = .ok digest := by
  rw [requiredBlake3Prefixed, requiredString_of path holds]
  simp [bind, Except.bind]

end Inverse

end Svp.Exec
