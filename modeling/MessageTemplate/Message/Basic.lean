import MessageTemplate.Message.Option

/-! # Message trees

A message is a list of nodes: texts, expressions and markup. A message that chooses between
variants is a single matcher node, whose variants hold messages of their own. The tree also admits
lists that no template spells, such as a matcher beside a text or a selector without content.
-/

namespace MessageTemplate

/-- What an expression formats: a variable or a literal. The value of a literal is the text that its
bars enclose, with no backslashes left. -/
inductive Operand where
  | variable (name : String)
  | literal (value : String)
  deriving DecidableEq, Repr

/-- A formatting function with its options, in the order in which they were written. -/
structure Function where
  name : String
  options : List NamedOption := []
  deriving DecidableEq, Repr

/-- The value of the first option with the given name. A later option of the same name is written
and read back, but never looked at. -/
def Function.option? (function : Function) (name : String) : Option OptionValue :=
  (function.options.find? (·.name = name)).map (·.value)

/-- An operand and a function, of which a template spells at least one. -/
structure Expression where
  operand : Option Operand := none
  function : Option Function := none
  deriving DecidableEq, Repr

/-- An expression without operand and function. The type allows it, since a message can be built by
hand; no template spells it. -/
def Expression.isEmpty (expression : Expression) : Bool :=
  expression.operand.isNone && expression.function.isNone

/-- Which end of a marked span the markup is. -/
inductive Markup.Kind where
  | opening
  | closing
  deriving DecidableEq, Repr

/-- One end of a marked span. Only opening markup spells its options. -/
structure Markup where
  kind : Markup.Kind
  name : String
  options : List NamedOption := []
  deriving DecidableEq, Repr

mutual

/-- One node of a message. The value of a text is stored escaped. -/
inductive Node where
  | text (value : String)
  | expression (expression : Expression)
  | markup (markup : Markup)
  | matcher (matcher : Matcher)

/-- A choice between variants by the values of the selectors. -/
structure Matcher where
  selectors : List Expression
  variants : List Variant

/-- One variant of a matcher: a key for each selector, and a message. That the keys are as many as
the selectors is checked on rendering, not by the type. -/
structure Variant where
  keys : List String
  body : List Node

end

/-- A message is a list of nodes. -/
abbrev Message := List Node

/-- The key that matches any selector value. -/
def catchAllKey : String := "*"

/-- A variant whose keys are all the catch-all key. -/
def Variant.isCatchAll (variant : Variant) : Bool := variant.keys.all (· = catchAllKey)

/-- The matcher of a message that consists of a single matcher, the only place where a matcher may
stand in what is rendered. -/
def Message.matcher? : Message → Option Matcher
  | [.matcher matcher] => some matcher
  | _ => none

end MessageTemplate
