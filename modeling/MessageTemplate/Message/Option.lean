import MessageTemplate.Name

/-! # Options

Functions and opening markup carry options: a name and a value. In template text a value is a name
or a run of digits; a run of digits that fits a signed 64-bit integer is read as that integer.
-/

namespace MessageTemplate

/-- The value of an option. An integer keeps its value alone, so that leading zeros of its spelling
are lost. -/
inductive OptionValue where
  | int (value : Int64)
  | text (value : String)
  deriving DecidableEq, Repr

namespace OptionValue

/-- Read the text of an option value: digits that fit an integer are one, all else is text. -/
def ofText (text : String) : OptionValue :=
  let value := decimalValue text.toList
  if isDigits text.toList ∧ value ≤ Int64.maxValue.toInt then .int (Int64.ofNat value)
  else .text text

/-- The text of an option value. It is what rendering writes behind the equals sign. -/
def display : OptionValue → String
  | .int value => toString value.toInt
  | .text value => value

/-- The text of a textual value. -/
def text? : OptionValue → Option String
  | .int _ => none
  | .text value => some value

end OptionValue

/-- A named option. -/
structure NamedOption where
  name : String
  value : OptionValue
  deriving DecidableEq, Repr

namespace NamedOption

/-- The option with the given name and the value that a text stands for. -/
def ofTexts (name value : String) : NamedOption := ⟨name, .ofText value⟩

/-- Split the source of an option at its first equals sign; without one the value is empty. A lexer
always writes an equals sign, so the second case concerns tokens made by hand. -/
def ofSource (source : String) : NamedOption :=
  let (name, rest) := source.toList.span (· != '=')
  ofTexts (String.ofList name) (String.ofList rest.tail)

end NamedOption

end MessageTemplate
