import MessageTemplate.Error
import MessageTemplate.Message.Spelling

/-! # Rendering messages

A message is rendered by spelling it, after a check that its spelling stands for it. The check goes
through the tree in document order and stops at the first defect. The content of texts is not
checked: whoever builds a text escapes it.
-/

namespace MessageTemplate

/-- The verdict of a check: nothing, or the first defect. The order of the checks is therefore part
of their meaning. -/
abbrev Verdict := Except Defect Unit

/-- A name must be one that the reader takes as a whole. -/
def checkName (location : Location) (name : String) : Verdict :=
  if isName name then .ok () else .error (.invalidName name location)

namespace OptionValue

/-- The values that template text can carry: integers without sign, names and runs of digits. -/
def isSpellable : OptionValue → Bool
  | .int value => 0 ≤ value
  | .text value => isName value || isDigits value.toList

end OptionValue

/-- An option needs a spellable value and a name. -/
def NamedOption.check (option : NamedOption) : Verdict :=
  if option.value.isSpellable && isName option.name then .ok ()
  else .error (.unsupportedOption option)

/-- Check the elements of a list from first to last. -/
def checkAll {α : Type} (check : Nat → α → Verdict) : Nat → List α → Verdict
  | _, [] => .ok ()
  | index, item :: items => do
    check index item
    checkAll check (index + 1) items

/-- Options are checked from first to last. A defect of an option names the option and not its
place. -/
def checkOptions (options : List NamedOption) : Verdict :=
  checkAll (fun _ => NamedOption.check) 0 options

/-- A variable needs a name. A literal is written between bars, where any text can stand. -/
def Operand.check (location : Location) : Operand → Verdict
  | .variable name => checkName location name
  | .literal _ => .ok ()

/-- A function needs a name, which is looked at before its options. -/
def Function.check (location : Location) (function : Function) : Verdict := do
  checkName location function.name
  checkOptions function.options

/-- An expression needs an operand or a function, and names that are names. -/
def Expression.check (location : Location) (expression : Expression) : Verdict := do
  if expression.isEmpty then throw (.emptyExpression location)
  if let some operand := expression.operand then operand.check location
  if let some function := expression.function then function.check location

/-- Markup needs a name. The options of closing markup are not spelled, hence not checked. -/
def Markup.check (location : Location) (markup : Markup) : Verdict := do
  checkName location markup.name
  if markup.kind = .opening then checkOptions markup.options

/-- A node of a pattern, in which a matcher has no place. Texts are written as they are stored and
not checked. -/
def Node.check (location : Location) : Node → Verdict
  | .text _ => .ok ()
  | .expression content => content.check location
  | .markup mark => mark.check location
  | .matcher _ => .error (.misplacedMatcher location)

/-- A variant needs one key for each selector. -/
def Variant.check (arity index : Nat) (variant : Variant) : Verdict := do
  if variant.keys.length ≠ arity then
    throw (.variantArity index arity variant.keys.length)
  checkAll (fun node => Node.check (.variantNode index node)) 0 variant.body

/-- A matcher needs selectors. Its variants may be missing altogether, although no template can be
read that lacks them. -/
def Matcher.check (matcher : Matcher) : Verdict := do
  if matcher.selectors.isEmpty then throw .noSelectors
  checkAll (fun index => Expression.check (.selector index)) 0 matcher.selectors
  checkAll (Variant.check matcher.selectors.length) 0 matcher.variants

/-- The first character that a pattern shows, with the index of its node, when that node is a
text. Empty texts show nothing and are passed over. -/
def leadingChar? : Nat → List Node → Option (Nat × Char)
  | index, .text value :: nodes =>
    match value.toList with
    | [] => leadingChar? (index + 1) nodes
    | c :: _ => some (index, c)
  | _, _ => none

/-- A pattern that stands alone must not start like an expression. -/
def checkLeading (nodes : List Node) : Verdict :=
  match leadingChar? 0 nodes with
  | some (index, c) =>
    if isExpressionSign c then .error (.ambiguousText c (.node index)) else .ok ()
  | none => .ok ()

namespace Message

/-- The first defect of a message, in document order. A message that is a single matcher or a single
expression is written without a pattern around it, and has no leading text to check. -/
def check : Message → Verdict
  | [.matcher matcher] => matcher.check
  | [.expression expression] => expression.check (.node 0)
  | nodes => do
    checkLeading nodes
    checkAll (fun index => Node.check (.node index)) 0 nodes

/-- The template text of a message, or its first defect. -/
def render (message : Message) : Except Error String :=
  match message.check with
  | .ok () => .ok (String.ofList message.spell)
  | .error defect => .error (.render defect)

end Message

end MessageTemplate
