import MessageTemplate.Language
import MessageTemplate.Placeholder.Format
import MessageTemplate.Plural.Category
import MessageTemplate.Text.Quoted
import MessageTemplate.Token.Basic

/-! # Errors

Every failure of the library is a value that says what went wrong and where. The wording of a
failure is computed from that value.
-/

namespace MessageTemplate

/-- A place in a message tree. Nodes are counted from zero, in the message or in the body of the
variant that they belong to. -/
inductive Location where
  | node (index : Nat)
  | selector (index : Nat)
  | variantNode (variant index : Nat)
  deriving DecidableEq, Repr

/-- How the text of a defect names a place. -/
def Location.display : Location → String
  | .node index => "node " ++ toString index
  | .selector index => "selector " ++ toString index
  | .variantNode variant index => "variant " ++ toString variant ++ " node " ++ toString index

/-- What the grammar of tokens allows at a place. The reader has one expectation at each place where
it can stop. -/
inductive Expectation where
  | messageStart
  | messageEnd
  | patternElement
  | markupEnd
  | closingMarkupEnd
  | functionBeforeOption
  | expressionContent
  | expressionEnd
  | selector
  | variantKey
  | variantStart
  | variant
  deriving DecidableEq, Repr

/-- The words for an expectation, as the text of an error shows them. -/
def Expectation.display : Expectation → String
  | .messageStart => "'\x7b' or 'match'"
  | .messageEnd => "end of input after message"
  | .patternElement => "text, '\x7b' or '\x7d' in pattern"
  | .markupEnd => "'\x7d' after markup"
  | .closingMarkupEnd => "'\x7d' after closing markup"
  | .functionBeforeOption => "function before option"
  | .expressionContent => "variable, literal or function in expression"
  | .expressionEnd => "'\x7d' to close expression"
  | .selector => "selector expression after 'match'"
  | .variantKey => "variant key after 'when'"
  | .variantStart => "'\x7b' to start variant"
  | .variant => "'when' after selectors"

/-- Why a sequence of tokens is not a message. The offending token is kept, so that the text of the
error can be made from the fault. -/
inductive GrammarFault where
  | noTokens
  | unknown (found : Token)
  | emptyExpression
  | unexpected (expected : Expectation) (found : Token)
  deriving DecidableEq, Repr

/-- The text of a fault behind its offset. -/
def GrammarFault.display : GrammarFault → String
  | .noTokens => "empty token stream"
  | .unknown found => "unknown token " ++ found.describe
  | .emptyExpression => "empty expression"
  | .unexpected expected found => "expected " ++ expected.display ++ ", found " ++ found.describe

/-- Why a message has no template. Each defect names the part of the message that has it. -/
inductive Defect where
  | emptyExpression (location : Location)
  | noSelectors
  | variantArity (variant expected actual : Nat)
  | unsupportedOption (option : NamedOption)
  | misplacedMatcher (location : Location)
  | invalidName (name : String) (location : Location)
  | ambiguousText (first : Char) (location : Location)
  deriving DecidableEq, Repr

/-- The text of a defect. -/
def Defect.display : Defect → String
  | .emptyExpression location =>
    "expression at " ++ location.display ++ " has neither a value nor a function"
  | .noSelectors => "matcher has no selectors"
  | .variantArity variant expected actual =>
    "variant " ++ toString variant ++ " has " ++ toString actual ++ " keys, expected " ++
      toString expected ++ " (one per selector)"
  | .unsupportedOption option =>
    "unsupported value `" ++ option.value.display ++ "` for option `" ++ option.name ++ "`"
  | .misplacedMatcher location =>
    "matcher must be the only node of a message, found at " ++ location.display
  | .invalidName name location => "invalid name `" ++ name ++ "` at " ++ location.display
  | .ambiguousText first location =>
    "text at " ++ location.display ++ " starts with " ++ quoteChar first ++
      ", which opens an expression; escape it"

/-- Why a plural message cannot be built or is not complete. -/
inductive PluralFault where
  | noForms (selector : String)
  | notMatcher
  | missing (language : Language) (categories : List Plural.Category)
  deriving DecidableEq, Repr

/-- The text of a plural fault. A language is named before the list of the categories that are
missing for it. -/
def PluralFault.display : PluralFault → String
  | .noForms selector => "no plural forms for selector '" ++ selector ++ "'"
  | .notMatcher => "message is not a matcher"
  | .missing language categories =>
    "lang='" ++ language.display ++ "': missing plural categories: [" ++
      String.intercalate ", " (categories.map Plural.Category.title) ++ "]"

/-- Everything that can go wrong, with what its text needs. An error of JSON keeps nothing: its
wording beyond the fixed part is that of the library that reads the JSON. -/
inductive Error where
  | lex (offset : Nat) (text : String)
  | inputTooLong (length limit : Nat)
  | parse (offset : Nat) (fault : GrammarFault)
  | render (defect : Defect)
  | placeholderNotFound (hint : Placeholder.Format)
  | json
  | validation (fault : PluralFault)
  deriving DecidableEq, Repr

/-- The activity that an error belongs to. -/
inductive Error.Category where
  | lex
  | parse
  | render
  | extraction
  | validation
  deriving DecidableEq, Repr

namespace Error

/-- The activity of an error. Errors of JSON and of plural forms both come from checking what was
given from outside. -/
def category : Error → Category
  | .lex .. | .inputTooLong .. => .lex
  | .parse .. => .parse
  | .render .. => .render
  | .placeholderNotFound .. => .extraction
  | .json | .validation .. => .validation

/-- The wording of an error. -/
def message : Error → String
  | .lex offset text => "lex error at offset " ++ toString offset ++ ": " ++ text
  | .inputTooLong length limit =>
    "input is " ++ toString length ++ " bytes, limit is " ++ toString limit
  | .parse offset fault => "parse error at offset " ++ toString offset ++ ": " ++ fault.display
  | .render defect => defect.display
  | .placeholderNotFound hint =>
    hint.name ++ " format flag present, but no placeholders found"
  | .json => "JSON error"
  | .validation fault => "validation error: " ++ fault.display

end Error

end MessageTemplate
