/-! # Tokens

A template is read as a sequence of tokens. A token keeps its text without the sign that marks its
kind, the byte offset at which it was found, and the number of braces around it.

Offsets are words of 64 bits. The place behind a token of a template is one too, since no memory
holds a longer template. Tokens that are put together by hand can end behind the last word, and what
becomes of such a sum is a choice of the arithmetic (`MessageTemplate.Overflow`).
-/

namespace MessageTemplate

/-- What a token is. An error is a token too, so that one stream carries all that was read and the
place where the reading stopped. -/
inductive Token.Kind where
  /-- The end of the input. -/
  | eof
  /-- A place where no token can be read; the text says why. -/
  | error
  | text
  | variable
  | function
  | literal
  | keyword
  /-- An option, its text being the name, an equals sign and the value. -/
  | option
  | openBrace
  | closeBrace
  | markupOpen
  | markupClose
  deriving DecidableEq, Repr

/-- A token of a template: its kind, its text without the signs that mark the kind, the offset in
bytes at which its spelling starts, and the number of braces around it. -/
structure Token where
  kind : Token.Kind
  text : String
  offset : Nat
  level : Nat
  deriving DecidableEq, Repr

/-- What becomes of a sum of offsets that no word of 64 bits holds. Either choice is made once, for
all sums. -/
inductive Overflow where
  /-- The sum wraps around. -/
  | wraps
  /-- The reading stops at the sum, with neither a message nor an error. -/
  | stops
  deriving DecidableEq, Repr

namespace Token

/-- The place behind a token, as a sum of words: where no word holds the sum, it wraps around. -/
def finish (token : Token) : Nat := (token.offset + token.text.utf8ByteSize) % UInt64.size

/-- A word holds the place behind the token, so that the sum neither wraps around nor stops. The
tokens of a template always fit, since their places lie within its bytes; a token put together by
hand need not. -/
def Fits (token : Token) : Prop := token.offset + token.text.utf8ByteSize < UInt64.size

instance (token : Token) : Decidable token.Fits := inferInstanceAs (Decidable (_ < _))

/-- Where the sum fits, the place behind a token is the plain sum. Results about the tokens of a
template use this one fact and never the remainder. -/
theorem finish_of_fits {token : Token} (fits : token.Fits) :
    token.finish = token.offset + token.text.utf8ByteSize :=
  Nat.mod_eq_of_lt fits

/-- How messages name a token: by its kind in words, and by its text where the kind says too
little. -/
def describe (token : Token) : String :=
  match token.kind with
  | .eof => "end of input"
  | .error => "error '" ++ token.text ++ "'"
  | .text => "text '" ++ token.text ++ "'"
  | .variable => "variable '$" ++ token.text ++ "'"
  | .function => "function ':" ++ token.text ++ "'"
  | .literal => "literal '" ++ token.text ++ "'"
  | .keyword => "keyword '" ++ token.text ++ "'"
  | .option => "option '" ++ token.text ++ "'"
  | .openBrace => "'\x7b'"
  | .closeBrace => "'\x7d'"
  | .markupOpen => "markup '+" ++ token.text ++ "'"
  | .markupClose => "markup '-" ++ token.text ++ "'"

/-- A token with the place where it was found. -/
def display (token : Token) : String := token.describe ++ " at " ++ toString token.offset

end Token

/-- The signs that open an expression when they follow the first brace of a template. -/
def isExpressionSign (c : Char) : Bool := c = '$' || c = ':' || c = '|'

/-- The word that opens a matcher. -/
def matchWord : String := "match"

/-- The word that opens a variant. -/
def whenWord : String := "when"

end MessageTemplate
