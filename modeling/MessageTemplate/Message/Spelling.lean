import MessageTemplate.Message.Basic
import MessageTemplate.Text.Escape
import MessageTemplate.Token.Basic

/-! # The spelling of a message

The canonical template text of a message tree. A single expression is spelled between its own
braces; any other flat message is one pattern, in which every expression and every markup has its
own braces. A matcher is spelled with one space between its parts.

Spelling asks nothing of the tree. Which trees the spelling stands for is a matter of
`MessageTemplate.Message.check`.
-/

namespace MessageTemplate

/-- An option behind a space: its name, an equals sign and its value, without blanks around the
sign. -/
def NamedOption.spell (option : NamedOption) : List Char :=
  ' ' :: option.name.toList ++ '=' :: option.value.display.toList

/-- Options one after the other, each with the space before it. -/
def spellOptions (options : List NamedOption) : List Char := options.flatMap NamedOption.spell

/-- A variable behind its sign, or a literal between bars. -/
def Operand.spell : Operand → List Char
  | .variable name => '$' :: name.toList
  | .literal value => quoteLiteral value

/-- A function behind its sign, followed by its options. -/
def Function.spell (function : Function) : List Char :=
  ':' :: function.name.toList ++ spellOptions function.options

/-- An expression without its braces: operand, function, and a space between the two. -/
def Expression.spell (expression : Expression) : List Char :=
  match expression.operand, expression.function with
  | some operand, some function => operand.spell ++ ' ' :: function.spell
  | some operand, none => operand.spell
  | none, some function => function.spell
  | none, none => []

/-- Markup without its braces. Options are spelled for opening markup only, so those of closing
markup are lost. -/
def Markup.spell (markup : Markup) : List Char :=
  match markup.kind with
  | .opening => '+' :: markup.name.toList ++ spellOptions markup.options
  | .closing => '-' :: markup.name.toList

/-- Put braces around a spelling. -/
def braced (inside : List Char) : List Char := '{' :: inside ++ ['}']

/-- A node of a pattern. A matcher has no spelling inside a pattern. -/
def Node.spell : Node → List Char
  | .text value => value.toList
  | .expression content => braced content.spell
  | .markup mark => braced mark.spell
  | .matcher _ => []

/-- A pattern with its braces. -/
def spellPattern (nodes : List Node) : List Char := braced (nodes.flatMap Node.spell)

/-- The keys that need no bars: the catch-all, numbers, and names other than the keywords. -/
def isBareKey (key : String) : Bool :=
  key = catchAllKey || isNumber key.toList || (isName key && key ≠ matchWord && key ≠ whenWord)

/-- A key as it stands in a variant. Bars are put around it unless it can be read without them, and
for the words that would be read as keywords. -/
def spellKey (key : String) : List Char :=
  if isBareKey key then key.toList else quoteLiteral key

/-- A variant with its keyword, its keys and its body, set apart by single spaces. -/
def Variant.spell (variant : Variant) : List Char :=
  ' ' :: whenWord.toList ++ variant.keys.flatMap (fun key => ' ' :: spellKey key) ++
    ' ' :: spellPattern variant.body

/-- A matcher with its keyword, its selectors and its variants on one line. -/
def Matcher.spell (matcher : Matcher) : List Char :=
  matchWord.toList ++ matcher.selectors.flatMap (fun selector => ' ' :: braced selector.spell) ++
    matcher.variants.flatMap Variant.spell

/-- The spelling of a message. A matcher and an expression that stand alone are written without the
braces of a pattern. -/
def Message.spell : Message → List Char
  | [.matcher matcher] => matcher.spell
  | [.expression expression] => braced expression.spell
  | nodes => spellPattern nodes

end MessageTemplate
