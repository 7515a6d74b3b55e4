/-! # Placeholder formats

The interpolation formats that plain strings use for their placeholders.
-/

namespace MessageTemplate

namespace Placeholder

/-- A family of placeholder spellings. -/
inductive Format where
  /-- A named conversion, as in `%(name)s`. -/
  | pythonVar
  /-- A conversion with optional position, flags, width and precision, as in `%1$.2f`. -/
  | printf
  /-- A name or a number between braces. -/
  | bracketVar
  /-- An empty pair of braces. -/
  | emptyBracket
  deriving DecidableEq, Repr

namespace Format

/-- Every format, in the order in which a text is searched by default. -/
def all : List Format := [.pythonVar, .printf, .bracketVar, .emptyBracket]

/-- The name of a format in settings and in the option of a placeholder's function. -/
def name : Format → String
  | .pythonVar => "pythonVar"
  | .printf => "printf"
  | .bracketVar => "bracketVar"
  | .emptyBracket => "emptyBracket"

/-- A name that no placeholder format has. -/
structure Unknown where
  name : String
  deriving DecidableEq, Repr

/-- The text of the error of an unknown name. -/
def Unknown.message (unknown : Unknown) : String :=
  "Unknown placeholder format: " ++ unknown.name

/-- The format with the given name, in either letter case. -/
def ofName (text : String) : Except Unknown Format :=
  match all.find? fun format =>
    format.name.toList.map Char.toLower = text.toList.map Char.toLower with
  | some format => .ok format
  | none => .error ⟨text⟩

end Format

end Placeholder

end MessageTemplate
