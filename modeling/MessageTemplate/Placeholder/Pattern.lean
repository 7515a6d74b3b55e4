import MessageTemplate.Message.Basic
import MessageTemplate.Placeholder.Format

/-! # Placeholder patterns

Each format has a pattern: the characters that spell one placeholder. A pattern either matches at
the front of a text, taking as much as it can, or does not match there. A match tells the format,
the argument that the placeholder names and the type of value that it asks for.
-/

namespace MessageTemplate

/-- The type of value that a conversion asks for. -/
inductive Placeholder.ValueType where
  | string
  | int
  | float
  deriving DecidableEq, Repr

/-- The name of a type in the option of a placeholder's function. -/
def Placeholder.ValueType.name : ValueType → String
  | .string => "string"
  | .int => "int"
  | .float => "float"

/-- A placeholder: its format, the name or position of its argument, and the type of its value.
Flags, width, precision and length of a conversion are not part of it. -/
structure Placeholder where
  format : Placeholder.Format
  argument : Option String := none
  valueType : Option Placeholder.ValueType := none
  deriving DecidableEq, Repr

namespace Placeholder

/-- The name of the function that marks a placeholder in a message. -/
def functionName : String := "Placeholder"

/-- The function that stands for a placeholder in a message. Placeholders with equal functions
cannot be told apart there. -/
def function (placeholder : Placeholder) : Function where
  name := functionName
  options :=
    ⟨"format", .text placeholder.format.name⟩ ::
      (placeholder.argument.map fun argument => .ofTexts "name" argument).toList ++
      (placeholder.valueType.map fun type => ⟨"type", .text type.name⟩).toList

/-- What a pattern finds at the front of a text: a value, and the characters that it takes. -/
abbrev Pattern (α : Type) := List Char → Option (α × List Char)

/-- The characters that can start an identifier in a placeholder, which are fewer than those of a
name. -/
def isIdentifierStart (c : Char) : Bool := c.isAlpha || c = '_'

/-- The characters that can go on with such an identifier. -/
def isIdentifierChar (c : Char) : Bool := c.isAlphanum || c = '_'

/-- The identifier at the front and what follows it; empty when there is none. -/
def spanIdentifier : List Char → List Char × List Char
  | [] => ([], [])
  | c :: cs =>
    if isIdentifierStart c then (c :: cs.takeWhile isIdentifierChar, cs.dropWhile isIdentifierChar)
    else ([], c :: cs)

/-- The type of value that the letter of a named conversion asks for. -/
def namedConversion? (c : Char) : Option ValueType :=
  if c = 's' then some .string
  else if c = 'd' ∨ c = 'i' then some .int
  else if c = 'f' then some .float
  else none

/-- The type of value that the letter of a conversion asks for. -/
def conversion? (c : Char) : Option ValueType :=
  if c = '@' then some .string
  else if c = 'u' then some .int
  else namedConversion? c

/-- A percent sign, an identifier in parentheses, and the letter of a conversion. -/
def pythonVar : Pattern Placeholder
  | '%' :: '(' :: cs =>
    let (name, afterName) := spanIdentifier cs
    match afterName with
    | ')' :: letter :: _ => do
      guard (!name.isEmpty)
      let type ← namedConversion? letter
      return (⟨.pythonVar, String.ofList name, type⟩, '%' :: '(' :: name ++ [')', letter])
    | _ => none
  | _ => none

/-- The digits of a position, which starts with another digit than zero and ends with a dollar
sign, and what follows the sign. -/
def spanPosition (cs : List Char) : Option (List Char × List Char) :=
  match spanDigits cs with
  | (first :: digits, '$' :: rest) =>
    if first = '0' then none else some (first :: digits, rest)
  | _ => none

/-- The flags of a conversion. A space is not one of them. -/
def isFlag (c : Char) : Bool := c = '-' || c = '+' || c = '#' || c = '0'

/-- The length modifier of a conversion and what follows it. -/
def spanLength : List Char → List Char × List Char
  | 'l' :: 'l' :: cs => (['l', 'l'], cs)
  | 'l' :: cs => (['l'], cs)
  | 'h' :: cs => (['h'], cs)
  | cs => ([], cs)

/-- Flags, width, precision, length and letter of a conversion: the type of its value, and the
characters that it takes. -/
def conversion : Pattern ValueType := fun cs =>
  let flags := cs.takeWhile isFlag
  let (width, afterWidth) := spanDigits (cs.dropWhile isFlag)
  let (precision, afterPrecision) := spanFraction afterWidth
  let (length, afterLength) := spanLength afterPrecision
  match afterLength with
  | letter :: _ =>
    (conversion? letter).map fun type =>
      (type, flags ++ width ++ precision ++ length ++ [letter])
  | [] => none

/-- A percent sign, an optional position, and a conversion. Digits without a dollar sign behind them
are no position but the width. -/
def printf : Pattern Placeholder
  | '%' :: cs =>
    match spanPosition cs with
    | some (position, rest) =>
      (conversion rest).map fun (type, source) =>
        (⟨.printf, String.ofList position, type⟩, '%' :: position ++ '$' :: source)
    | none =>
      (conversion cs).map fun (type, source) => (⟨.printf, none, type⟩, '%' :: source)
  | _ => none

/-- An identifier or a run of digits between braces. -/
def bracketVar : Pattern Placeholder
  | '{' :: cs =>
    let (identifier, afterIdentifier) := spanIdentifier cs
    let (name, afterName) :=
      if identifier.isEmpty then spanDigits cs else (identifier, afterIdentifier)
    match afterName with
    | '}' :: _ =>
      if name.isEmpty then none
      else some (⟨.bracketVar, String.ofList name, none⟩, '{' :: name ++ ['}'])
    | _ => none
  | _ => none

/-- An opening brace and a closing brace. -/
def emptyBracket : Pattern Placeholder
  | '{' :: '}' :: _ => some (⟨.emptyBracket, none, none⟩, ['{', '}'])
  | _ => none

/-- The pattern of a format. -/
def Format.pattern : Format → Pattern Placeholder
  | .pythonVar => Placeholder.pythonVar
  | .printf => Placeholder.printf
  | .bracketVar => Placeholder.bracketVar
  | .emptyBracket => Placeholder.emptyBracket

end Placeholder

end MessageTemplate
