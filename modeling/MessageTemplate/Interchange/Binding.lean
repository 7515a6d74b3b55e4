import MessageTemplate.Interchange.Message
import MessageTemplate.Placeholder.Binding

/-! # Bindings and words as JSON

The JSON forms of what stands beside a message: bindings, placeholder formats and plural
categories.
-/

namespace MessageTemplate

open Interchange

namespace Placeholder

namespace Binding

/-- A binding with its name and its function. -/
def encode (binding : Binding) : Json :=
  Json.record [("name", Json.text binding.name), ("function", binding.function.encode)]

/-- A binding needs both fields. -/
def decode (layer : Layer) (json : Json) : Option Binding := do
  match ← readRecord ["name", "function"] json with
  | [name, function] =>
    return ⟨← required readText name, ← required (Function.decode layer.within) function⟩
  | _ => none

end Binding

namespace Format

/-- A format is written by its name. -/
def encode (format : Format) : Json := Json.text format.name

/-- A format is read in the letter case in which it is written. -/
def decode : Layer → Json → Option Format := readMember all name

end Format

end Placeholder

namespace Plural.Category

/-- A category is written by its word in lower case. -/
def encode (category : Category) : Json := Json.text category.word

/-- A category is read in the letter case in which it is written. -/
def decode : Layer → Json → Option Category := readMember all word

end Plural.Category

end MessageTemplate
