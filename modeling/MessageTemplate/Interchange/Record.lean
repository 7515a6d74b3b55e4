import MessageTemplate.Json.Basic

/-! # Records, words and unions as JSON

The interchange form keeps records as objects, enumerations as words, and unions as records with a
tag. Reading is generous about the shape of a record and strict about its content: fields come in
any order, unknown fields are skipped, and the list of the values in declared order stands for the
record, but a known field must not come twice.

A union is read as a whole before its tag is known. All of it must be flawless and within the depth
limit, and once inside a union a tag may be given by its position. Outside unions, what a record
does not ask for is skipped unread.
-/

namespace MessageTemplate

namespace Interchange

/-- Where a value is read: outside all unions, with the number of arrays and objects that may still
be nested, or inside a union, where the limits have been checked. The two accept slightly different
texts, since a union is first read as a whole and its parts from the result. -/
inductive Layer where
  | outer (room : Nat)
  | inner
  deriving DecidableEq, Repr

namespace Layer

/-- The layer of a whole text. -/
def top : Layer := .outer Json.maxDepth

/-- The layer of the values in an array or object. -/
def within : Layer → Layer
  | .outer room => .outer (room - 1)
  | .inner => .inner

/-- Whether a union may be read here. It is the one place where flaws and depth are looked at. -/
def admits (layer : Layer) (json : Json) : Bool :=
  match layer with
  | .outer room => json.isFlawless && json.depth ≤ room
  | .inner => true

end Layer

/-- The fields of an object with the given name. -/
def fieldsNamed (name : String) (fields : List (Json.Text × Json)) : List Json :=
  (fields.filter (·.1 = some name)).map (·.2)

/-- The value of a field that comes at most once; none within when it does not come. -/
def field? (fields : List (Json.Text × Json)) (name : String) : Option (Option Json) :=
  match fieldsNamed name fields with
  | [] => some none
  | [value] => some (some value)
  | _ => none

/-- The values of the named fields of a record, in the given order. The list form may leave out
values at its end, and none may be left over. -/
def readRecord (names : List String) : Json → Option (List (Option Json))
  | .array items =>
    if items.length ≤ names.length then
      some (items.map some ++ List.replicate (names.length - items.length) none)
    else none
  | .object fields => do
    guard (fields.all (·.1.isSome))
    names.mapM (field? fields)
  | _ => none

/-- A field that must be there. A missing field fails, whatever the reader of its value accepts. -/
def required {α : Type} (read : Json → Option α) : Option Json → Option α
  | some json => read json
  | none => none

/-- A field that has a default. -/
def defaulted {α : Type} (default : α) (read : Json → Option α) : Option Json → Option α
  | some json => read json
  | none => some default

/-- A value that may be null. -/
def nullable {α : Type} (read : Json → Option α) : Json → Option (Option α)
  | .null => some none
  | json => (read json).map some

/-- A string with characters. -/
def readText : Json → Option String
  | .string text => text
  | _ => none

/-- A list, every item of which the reader accepts. -/
def readList {α : Type} (read : Json → Option α) : Json → Option (List α)
  | .array items => items.mapM read
  | _ => none

/-- The position of a word of an enumeration. A word is a string, or an object whose only field
has that name and holds null; inside a union it may also hold an empty object. -/
def readWord (words : List String) (layer : Layer) : Json → Option Nat
  | .string (some word) => words.idxOf? word
  | .object [(some word, .null)] => words.idxOf? word
  | .object [(some word, .object [])] => if layer = .inner then words.idxOf? word else none
  | _ => none

/-- The member of an enumeration that a word stands for. -/
def readMember {α : Type} (members : List α) (word : α → String) (layer : Layer) (json : Json) :
    Option α := do
  members[← readWord (members.map word) layer json]?

/-- The field that holds the tag of a union. It is written before all others. -/
def tagName : String := "type"

/-- The tag of a union, and the record without it. -/
def untag : Json → Option (Json × Json)
  | .array (tag :: items) => some (tag, .array items)
  | .object fields =>
    match fieldsNamed tagName fields with
    | [tag] => some (tag, .object (fields.filter (·.1 ≠ some tagName)))
    | _ => none
  | _ => none

/-- The position of a tag. Inside a union a tag may be its position. -/
def readTag (tags : List String) (layer : Layer) : Json → Option Nat
  | .string (some tag) => tags.idxOf? tag
  | .number number =>
    match layer, number.int? with
    | .inner, some (.ofNat position) => if position < tags.length then some position else none
    | _, _ => none
  | _ => none

/-- The position of the tag of a union and the record behind it, once the whole is admitted. -/
def readUnion (tags : List String) (layer : Layer) (json : Json) : Option (Nat × Json) := do
  guard (layer.admits json)
  let (tag, content) ← untag json
  return (← readTag tags layer tag, content)

/-- A record with a tag before its fields. -/
def tagged (tag : String) (fields : List (String × Json)) : Json :=
  Json.record ((tagName, Json.text tag) :: fields)

/-- A field that is left out when there is no value. -/
def optionalField {α : Type} (name : String) (write : α → Json) : Option α → List (String × Json)
  | some value => [(name, write value)]
  | none => []

/-- A list-valued field that is left out when the list is empty. -/
def nonemptyField {α : Type} (name : String) (write : α → Json) (values : List α) :
    List (String × Json) :=
  if values.isEmpty then [] else [(name, .array (values.map write))]

end Interchange

end MessageTemplate
