import MessageTemplate.Message.Basic

/-! # Plural categories

The six plural categories, in their usual order, and the keys that stand for them in a matcher.
-/

namespace MessageTemplate

namespace Plural

/-- The plural categories of cardinal numbers. -/
inductive Category where
  | zero
  | one
  | two
  | few
  | many
  | other
  deriving DecidableEq, Repr

namespace Category

/-- Every category, in order. -/
def all : List Category := [.zero, .one, .two, .few, .many, .other]

/-- No category is missing from the list of all. -/
theorem mem_all (category : Category) : category ∈ all := by
  cases category <;> decide

/-- The word for a category. -/
def word : Category → String
  | .zero => "zero"
  | .one => "one"
  | .two => "two"
  | .few => "few"
  | .many => "many"
  | .other => "other"

/-- The capitalised word for a category. -/
def title : Category → String
  | .zero => "Zero"
  | .one => "One"
  | .two => "Two"
  | .few => "Few"
  | .many => "Many"
  | .other => "Other"

/-- The key of the variant for a category; the last category is the catch-all, so that a message
with all required forms has a variant for every number. -/
def key : Category → String
  | .other => catchAllKey
  | category => category.word

/-- A word that names no plural category. -/
structure Unknown where
  word : String
  deriving DecidableEq, Repr

/-- The text of the error of an unknown word. -/
def Unknown.message (unknown : Unknown) : String :=
  "Unknown plural category: " ++ unknown.word

/-- The category that a word names, in either letter case. -/
def ofWord (text : String) : Except Unknown Category :=
  match all.find? fun category =>
    category.word.toList = text.toList.map Char.toLower with
  | some category => .ok category
  | none => .error ⟨text⟩

/-- The category that a variant key stands for. -/
def ofKey? (key : String) : Option Category :=
  if key = catchAllKey then some .other else (ofWord key).toOption

end Category

end Plural

end MessageTemplate
