import MessageTemplate.Error
import MessageTemplate.Message.Equality
import MessageTemplate.Placeholder.Binding
import MessageTemplate.Placeholder.Occurrence
import MessageTemplate.Text.Escape

/-! # Extracting placeholders

An extractor turns plain strings into messages: every placeholder becomes an expression on a
variable, every other character becomes escaped text. The strings that go through one extractor
share its bindings.
-/

namespace MessageTemplate

namespace Placeholder

/-- The formats to recognise, and the format that the strings are said to use, if any. -/
structure Settings where
  hint : Option Format := none
  formats : List Format := Format.all
  deriving DecidableEq, Repr

/-- A message made from a string, and whether the string had a placeholder. -/
structure Extraction where
  message : Message
  used : Bool
  deriving DecidableEq

/-- The text node for a plain piece. At the very start of a message a sign that would open an
expression is escaped. -/
def textNode (leading : Bool) (chars : List Char) : Node :=
  let escaped := escapeWhere isReserved chars
  .text (String.ofList
    (if leading && escaped.head?.any isExpressionSign then '\\' :: escaped else escaped))

/-- The nodes for the pieces of a string, with the bindings they need. The functions met so far in
the string tell how often a placeholder occurred before. -/
def bindPieces (bindings : Bindings) (met : List Function) (leading : Bool) :
    List Piece → List Node × Bindings
  | [] => ([], bindings)
  | .text chars :: pieces =>
    let (nodes, bindings) := bindPieces bindings met false pieces
    (textNode leading chars :: nodes, bindings)
  | .placeholder placeholder :: pieces =>
    let function := placeholder.function
    let (binding, bindings) := bindings.bind placeholder (met.count function)
    let (nodes, bindings) := bindPieces bindings (function :: met) false pieces
    (.expression binding.expression :: nodes, bindings)

/-- A binding context: the settings and the bindings that every further string shares. -/
structure Extractor where
  settings : Settings := {}
  bindings : Bindings := []
  deriving DecidableEq, Repr

namespace Extractor

/-- Extract the placeholders of a string. When the settings say which format the strings use, a
string without any placeholder is an error. -/
def extract (extractor : Extractor) (text : String) : Except Error Extraction × Extractor :=
  let pieces := pieces extractor.settings.formats text.toList
  let used := pieces.any Piece.isPlaceholder
  let (nodes, bindings) := bindPieces extractor.bindings [] true pieces
  let result := match used, extractor.settings.hint with
    | false, some hint => .error (.placeholderNotFound hint)
    | _, _ => .ok ⟨nodes, used⟩
  (result, { extractor with bindings })

end Extractor

/-- The line of an expression in a signature: format and type of its placeholder. -/
def signatureLine? (expression : Expression) : Option String := do
  let function ← expression.function
  guard (function.name = functionName)
  let format := ((function.option? "format").map OptionValue.display).getD ""
  let type := ((function.option? "type").map OptionValue.display).getD "any"
  return format ++ ":" ++ type

mutual

/-- The placeholders of a node in order, those of every variant included. -/
def signatureOfNode : Node → List String
  | .expression content => (signatureLine? content).toList
  | .matcher choice => signatureOfMatcher choice
  | .text _ | .markup _ => []

/-- The placeholders of a matcher are those of its variants; a selector has none. -/
def signatureOfMatcher : Matcher → List String
  | ⟨_, variants⟩ => signatureOfVariants variants

/-- The placeholders of the variants, one variant after the other. -/
def signatureOfVariants : List Variant → List String
  | [] => []
  | ⟨_, body⟩ :: variants => signatureOfNodes body ++ signatureOfVariants variants

/-- The placeholders of the nodes, one node after the other. -/
def signatureOfNodes : List Node → List String
  | [] => []
  | node :: nodes => signatureOfNode node ++ signatureOfNodes nodes

end

end Placeholder

/-- The placeholders of a message in order: what messages with the same placeholders agree on,
whatever their texts. -/
def Message.signature (message : Message) : List String := Placeholder.signatureOfNodes message

end MessageTemplate
