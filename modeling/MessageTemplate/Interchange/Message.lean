import MessageTemplate.Error
import MessageTemplate.Interchange.Record
import MessageTemplate.Json.Reader
import MessageTemplate.Json.Writer

/-! # Messages as JSON

Every part of a message tree has a JSON form, written with its fields in a fixed order and without
the fields that are empty. `Message.toJson` and `Message.ofJson` exchange whole messages as text.
-/

namespace MessageTemplate

open Interchange

/-! ## Options and functions -/

namespace OptionValue

/-- An option value is a number or a string, without a tag that tells which. -/
def encode : OptionValue → Json
  | .int value => Json.int value.toInt
  | .text value => Json.text value

/-- An option value is a string or a signed 64-bit integer, read as a whole like a union. -/
def decode (layer : Layer) (json : Json) : Option OptionValue := do
  guard (layer.admits json)
  match json with
  | .string (some value) => some (.text value)
  | .number number =>
    let value ← number.int?
    if Int64.minValue.toInt ≤ value ∧ value ≤ Int64.maxValue.toInt then
      some (.int (Int64.ofInt value))
    else none
  | _ => none

end OptionValue

namespace NamedOption

/-- An option with its name and its value. -/
def encode (option : NamedOption) : Json :=
  Json.record [("name", Json.text option.name), ("value", option.value.encode)]

/-- An option needs both fields. -/
def decode (layer : Layer) (json : Json) : Option NamedOption := do
  match ← readRecord ["name", "value"] json with
  | [name, value] =>
    return ⟨← required readText name, ← required (OptionValue.decode layer.within) value⟩
  | _ => none

end NamedOption

/-- The options field of functions and markup. It is left out when there are none, so none is its
default. -/
def decodeOptions (layer : Layer) : Option Json → Option (List NamedOption) :=
  defaulted [] (readList (NamedOption.decode layer.within))

namespace Function

/-- A function with its name, and with its options when it has any. -/
def encode (function : Function) : Json :=
  Json.record
    (("name", Json.text function.name) ::
      nonemptyField "options" NamedOption.encode function.options)

/-- A function needs a name; its options may be missing. -/
def decode (layer : Layer) (json : Json) : Option Function := do
  match ← readRecord ["name", "options"] json with
  | [name, options] =>
    return ⟨← required readText name, ← decodeOptions layer.within options⟩
  | _ => none

end Function

/-! ## Expressions and markup -/

namespace Operand

/-- An operand is a union of a variable and a literal. -/
def encode : Operand → Json
  | .variable name => tagged "variable" [("name", Json.text name)]
  | .literal value => tagged "literal" [("value", Json.text value)]

/-- An operand is told by its tag, and each kind has one field. -/
def decode (layer : Layer) (json : Json) : Option Operand := do
  match ← readUnion ["variable", "literal"] layer json with
  | (0, content) =>
    match ← readRecord ["name"] content with
    | [name] => return .variable (← required readText name)
    | _ => none
  | (_, content) =>
    match ← readRecord ["value"] content with
    | [value] => return .literal (← required readText value)
    | _ => none

end Operand

namespace Expression

/-- The fields of an expression that are there. -/
def encodeFields (expression : Expression) : List (String × Json) :=
  optionalField "value" Operand.encode expression.operand ++
    optionalField "function" Function.encode expression.function

/-- An expression is a record that leaves out what is absent. -/
def encode (expression : Expression) : Json := Json.record expression.encodeFields

/-- An expression. Both fields may be missing or null, so an empty object is an expression without
operand and function. -/
def decode (layer : Layer) (json : Json) : Option Expression := do
  match ← readRecord ["value", "function"] json with
  | [operand, function] =>
    return ⟨← defaulted none (nullable (Operand.decode layer.within)) operand,
      ← defaulted none (nullable (Function.decode layer.within)) function⟩
  | _ => none

end Expression

namespace Markup

/-- The word for each end of a marked span. -/
def Kind.word : Kind → String
  | .opening => "open"
  | .closing => "close"

/-- The fields of markup, which stand beside a tag where the markup is a node. -/
def encodeFields (markup : Markup) : List (String × Json) :=
  ("kind", Json.text markup.kind.word) :: ("name", Json.text markup.name) ::
    nonemptyField "options" NamedOption.encode markup.options

/-- Markup with its kind, its name and, when there are any, its options. -/
def encode (markup : Markup) : Json := Json.record markup.encodeFields

/-- Markup needs a kind and a name. Closing markup may have options here, although no template gives
it any. -/
def decode (layer : Layer) (json : Json) : Option Markup := do
  match ← readRecord ["kind", "name", "options"] json with
  | [kind, name, options] =>
    return ⟨← required (readMember [.opening, .closing] Kind.word layer.within) kind,
      ← required readText name, ← decodeOptions layer.within options⟩
  | _ => none

end Markup

/-! ## Nodes, matchers and variants -/

mutual

/-- A node is a union of its four kinds. The fields of an expression, of markup and of a matcher
stand beside the tag. -/
def Node.encode : Node → Json
  | .text value => tagged "text" [("value", Json.text value)]
  | .expression content => tagged "expression" content.encodeFields
  | .markup mark => tagged "markup" mark.encodeFields
  | .matcher choice => tagged "matcher" choice.encodeFields

/-- The fields of a matcher, which stand beside a tag where the matcher is a node. -/
def Matcher.encodeFields : Matcher → List (String × Json)
  | ⟨selectors, variants⟩ =>
    [("selectors", .array (selectors.map Expression.encode)),
      ("variants", .array (encodeVariants variants))]

/-- A variant with its keys and its body. -/
def Variant.encode : Variant → Json
  | ⟨keys, body⟩ =>
    Json.record [("keys", .array (keys.map Json.text)), ("message", .array (encodeNodes body))]

/-- The variants in order. -/
def encodeVariants : List Variant → List Json
  | [] => []
  | variant :: variants => variant.encode :: encodeVariants variants

/-- The nodes in order. -/
def encodeNodes : List Node → List Json
  | [] => []
  | node :: nodes => node.encode :: encodeNodes nodes

end

/-- A matcher that stands by itself. -/
def Matcher.encode (matcher : Matcher) : Json := Json.record matcher.encodeFields

/-- Read a variant by reading the nodes of its body with the given function. -/
def Variant.decodeWith (node : Layer → Json → Option Node) (layer : Layer) (json : Json) :
    Option Variant := do
  match ← readRecord ["keys", "message"] json with
  | [keys, body] =>
    return ⟨← required (readList readText) keys,
      ← required (readList (node layer.within.within)) body⟩
  | _ => none

/-- Read a matcher by reading the nodes of its variants with the given function. -/
def Matcher.decodeWith (node : Layer → Json → Option Node) (layer : Layer) (json : Json) :
    Option Matcher := do
  match ← readRecord ["selectors", "variants"] json with
  | [selectors, variants] =>
    return ⟨← required (readList (Expression.decode layer.within.within)) selectors,
      ← required (readList (Variant.decodeWith node layer.within.within)) variants⟩
  | _ => none

/-- Read a node in which matchers are nested less deep than the given bound. A matcher is read after
its union was admitted, so what is inside it is read in the inner layer. -/
def Node.decodeWithin : Nat → Layer → Json → Option Node
  | 0, _, _ => none
  | bound + 1, layer, json => do
    match ← readUnion ["text", "expression", "markup", "matcher"] layer json with
    | (0, content) =>
      match ← readRecord ["value"] content with
      | [value] => return .text (← required readText value)
      | _ => none
    | (1, content) => return .expression (← Expression.decode .inner content)
    | (2, content) => return .markup (← Markup.decode .inner content)
    | (_, content) =>
      return .matcher (← Matcher.decodeWith (decodeWithin bound) .inner content)

/-- Read a node. Its nesting is bounded by the depth of its JSON form. -/
def Node.decode (layer : Layer) (json : Json) : Option Node :=
  Node.decodeWithin (json.depth + 1) layer json

/-- Read a variant that stands by itself. -/
def Variant.decode : Layer → Json → Option Variant := Variant.decodeWith Node.decode

/-- Read a matcher that stands by itself. -/
def Matcher.decode : Layer → Json → Option Matcher := Matcher.decodeWith Node.decode

namespace Message

/-- A message is the list of its nodes. -/
def encode (message : Message) : Json := .array (encodeNodes message)

/-- Read a message, every node of it within the list. -/
def decode (layer : Layer) : Json → Option Message := readList (Node.decode layer.within)

/-- The JSON text of a message. It has no blanks between its tokens. -/
def toJson (message : Message) : String := message.encode.compact

/-- The message that a JSON text stands for. -/
def ofJson (text : String) : Except Error Message :=
  match (Json.read text).bind (decode .top) with
  | some message => .ok message
  | none => .error .json

end Message

end MessageTemplate
