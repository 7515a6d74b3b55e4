import MessageTemplate.Json.Basic

/-! # Compact JSON text

A JSON value is written without blanks. Strings escape the quote, the backslash and the control
characters below the space; every other character stands for itself.
-/

namespace MessageTemplate

namespace Json

/-- One character inside a JSON string. -/
def writeChar (c : Char) : List Char :=
  if c = '"' then ['\\', '"']
  else if c = '\\' then ['\\', '\\']
  else if c = '\x08' then ['\\', 'b']
  else if c = '\x0c' then ['\\', 'f']
  else if c = '\n' then ['\\', 'n']
  else if c = '\r' then ['\\', 'r']
  else if c = '\t' then ['\\', 't']
  else if c.toNat < 0x20 then
    ['\\', 'u', '0', '0', Nat.digitChar (c.toNat / 16), Nat.digitChar (c.toNat % 16)]
  else [c]

/-- A JSON string. One without characters is written as the first half of a surrogate pair. -/
def writeText : Text → List Char
  | some value => '"' :: value.toList.flatMap writeChar ++ ['"']
  | none => "\"\\ud800\"".toList

/-- A JSON number. One that is not integral is written with an exponent, however it was read. -/
def Number.write (number : Number) : List Char :=
  (if number.negative then ['-'] else []) ++ Nat.toDigits 10 number.digits ++
    (if number.integral then [] else 'e' :: (toString number.exponent).toList)

mutual

/-- The characters of a JSON value, without blanks. -/
def write : Json → List Char
  | .null => "null".toList
  | .bool value => (if value then "true" else "false").toList
  | .number value => value.write
  | .string value => writeText value
  | .array [] => ['[', ']']
  | .array (item :: items) => '[' :: item.write ++ writeItems items
  | .object [] => ['{', '}']
  | .object ((name, value) :: fields) =>
    '{' :: writeText name ++ ':' :: value.write ++ writeFields fields

/-- The items of an array behind its first, and its end. -/
def writeItems : List Json → List Char
  | [] => [']']
  | item :: items => ',' :: item.write ++ writeItems items

/-- The fields of an object behind its first, and its end. -/
def writeFields : List (Text × Json) → List Char
  | [] => ['}']
  | (name, value) :: fields => ',' :: writeText name ++ ':' :: value.write ++ writeFields fields

end

/-- The compact text of a JSON value. -/
def compact (value : Json) : String := String.ofList value.write

end Json

end MessageTemplate
