import MessageTemplate.Json.Number

/-! # JSON values

A JSON value keeps what its text says: numbers keep their notation, objects keep the order and the
repetition of their fields, and a string that names half of a surrogate pair is kept as having no
characters. Such a string, and a number beyond the range of a double, is grammatical but flawed: it
can be skipped, not read.
-/

namespace MessageTemplate

/-- The characters of a JSON string; none when it names half of a surrogate pair. -/
abbrev Json.Text := Option String

/-- A JSON value. Objects keep their fields in the order in which they were written, and more than
one of the same name if they were written. -/
inductive Json where
  | null
  | bool (value : Bool)
  | number (value : Json.Number)
  | string (value : Json.Text)
  | array (items : List Json)
  | object (fields : List (Json.Text × Json))

namespace Json

mutual

/-- How deep arrays and objects are nested. -/
def depth : Json → Nat
  | .null | .bool _ | .number _ | .string _ => 0
  | .array items => depthItems items + 1
  | .object fields => depthFields fields + 1

/-- The depth of the deepest item. -/
def depthItems : List Json → Nat
  | [] => 0
  | item :: items => max item.depth (depthItems items)

/-- The depth of the deepest value of a field. -/
def depthFields : List (Text × Json) → Nat
  | [] => 0
  | (_, value) :: fields => max value.depth (depthFields fields)

end

mutual

/-- Whether no string and no number within the value is flawed. A flawed part does no harm where a
reader passes over it, but a union is read as a whole first and refuses it. -/
def isFlawless : Json → Bool
  | .null | .bool _ => true
  | .number value => value.isFinite
  | .string value => value.isSome
  | .array items => areFlawlessItems items
  | .object fields => areFlawlessFields fields

/-- Whether every item is flawless. -/
def areFlawlessItems : List Json → Bool
  | [] => true
  | item :: items => item.isFlawless && areFlawlessItems items

/-- Whether every field is flawless, its name included. -/
def areFlawlessFields : List (Text × Json) → Bool
  | [] => true
  | (name, value) :: fields => name.isSome && value.isFlawless && areFlawlessFields fields

end

/-- The greatest nesting of arrays and objects that a JSON text may have. A message that is nested
deeper can be written, but not read back. -/
def maxDepth : Nat := 127

/-- A JSON string that has characters. -/
def text (value : String) : Json := .string (some value)

/-- A JSON number without point and exponent. -/
def int (value : Int) : Json := .number (.ofInt value)

/-- An object with the given fields. -/
def record (fields : List (String × Json)) : Json :=
  .object (fields.map fun (name, value) => (some name, value))

end Json

end MessageTemplate
