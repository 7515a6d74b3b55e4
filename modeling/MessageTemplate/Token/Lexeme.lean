import MessageTemplate.Name
import MessageTemplate.Text.Escape
import MessageTemplate.Text.Quoted
import MessageTemplate.Token.Basic

/-! # Lexemes

A lexeme is one token together with the characters that spell it and the characters that follow.
Each kind of lexeme has a scanner of its own here; a scanner that finds none says how far it came
and why it stopped.
-/

namespace MessageTemplate

namespace Token

/-- Why no token can be read. A fault keeps the characters that its message quotes, so that the
message is a function of the fault alone. -/
inductive Fault where
  | unmatchedBrace
  | unexpectedWord (word : String)
  | unexpectedChar (found : Char)
  | unexpectedInExpression (found : Char)
  | braceInExpression
  | unclosedPattern
  | unclosedText
  | unclosedEscape
  | unclosedExpression
  | unclosedLiteral
  | badNameStart (found : Char)
  | missingName
  | missingEquals (option : String)
  | missingOptionValue (found : Option Char) (option : String)
  | badOptionValue (value option : String)
  deriving DecidableEq, Repr

/-- The text of a fault, which becomes the text of the error token. -/
def Fault.message : Fault → String
  | .unmatchedBrace => "unmatched '\x7d'"
  | .unexpectedWord word => "unexpected identifier '" ++ word ++ "'"
  | .unexpectedChar found => "unexpected character " ++ quoteChar found
  | .unexpectedInExpression found =>
    "unexpected character " ++ quoteChar found ++ " in expression"
  | .braceInExpression => "unexpected '\x7b' inside expression"
  | .unclosedPattern => "unexpected end of input, expected '\x7d'"
  | .unclosedText => "unexpected end of input in text, expected '\x7b' or '\x7d'"
  | .unclosedEscape => "unexpected end of input after '\\'"
  | .unclosedExpression => "unterminated expression, expected '\x7d'"
  | .unclosedLiteral => "unterminated literal, expected '|'"
  | .badNameStart found => "invalid first character " ++ quoteChar found ++ " in name"
  | .missingName => "expected name, found end of input"
  | .missingEquals option => "expected '=' after option name '" ++ option ++ "'"
  | .missingOptionValue none option =>
    "invalid value end of input for option '" ++ option ++ "'"
  | .missingOptionValue (some found) option =>
    "invalid value " ++ quoteChar found ++ " for option '" ++ option ++ "'"
  | .badOptionValue value option =>
    "invalid value '" ++ value ++ "' for option '" ++ option ++ "'"

/-- The characters read where a fault is met: a word or a value that cannot stand there. Every other
fault is met at a character that is left unread. -/
def Fault.taken : Fault → List Char
  | .unexpectedWord word => word.toList
  | .badOptionValue value _ => value.toList
  | _ => []

end Token

/-- A token's kind and text, the characters that spell it, and those that follow. -/
structure Lexeme where
  kind : Token.Kind
  text : String
  spelling : List Char
  rest : List Char
  deriving DecidableEq, Repr

/-- A scanner that stopped: the characters it had passed, and the fault it met there. The error
token stands behind the passed characters. -/
structure Lexeme.Failure where
  passed : List Char
  fault : Token.Fault
  deriving DecidableEq, Repr

/-- All the characters that a scanner had read when it stopped. -/
def Lexeme.Failure.consumed (failure : Lexeme.Failure) : List Char :=
  failure.passed ++ failure.fault.taken

namespace Lexeme

/-- The result of a scanner: the lexeme it found or where and why it stopped. -/
abbrev Scan := Except Failure Lexeme

/-- A lexeme whose text is its spelling, given as the split of the input at its end. -/
def verbatim (kind : Token.Kind) (split : List Char × List Char) : Lexeme :=
  ⟨kind, String.ofList split.1, split.1, split.2⟩

/-- A lexeme spelled by one character. -/
def single (kind : Token.Kind) (c : Char) (rest : List Char) : Lexeme :=
  verbatim kind ([c], rest)

/-- Why escaped characters have no end: the input ends between two of them, or in an escape. -/
inductive Unclosed where
  | between
  | inEscape
  deriving DecidableEq, Repr

/-- The characters up to the first of the given kind that is not behind a backslash, and the
characters from there on. -/
def spanEscaped (stop : Char → Bool) : List Char → Except Unclosed (List Char × List Char)
  | [] => .error .between
  | ['\\'] => .error .inEscape
  | '\\' :: c :: cs => (spanEscaped stop cs).map fun (front, back) => ('\\' :: c :: front, back)
  | c :: cs =>
    if stop c then .ok ([], c :: cs)
    else (spanEscaped stop cs).map fun (front, back) => (c :: front, back)

/-- A text runs to the next brace and keeps its backslashes. -/
def scanText (cs : List Char) : Scan :=
  match spanEscaped (fun c => c = '{' || c = '}') cs with
  | .ok split => .ok (verbatim .text split)
  | .error .between => .error ⟨cs, .unclosedText⟩
  | .error .inEscape => .error ⟨cs, .unclosedEscape⟩

/-- A quoted literal, whose opening bar is the first of the characters. It runs to the next bar
and drops its backslashes. -/
def scanQuoted (bar : Char) (cs : List Char) : Scan :=
  match spanEscaped (· = '|') cs with
  | .ok (inside, close :: rest) =>
    .ok ⟨.literal, String.ofList (unescapeChars inside), bar :: inside ++ [close], rest⟩
  | _ => .error ⟨bar :: cs, .unclosedLiteral⟩

/-- An unquoted number. It cannot fail, since it is only called where a number starts. -/
def scanNumber (cs : List Char) : Lexeme := verbatim .literal (spanNumber cs)

/-- A name behind the sign that marks its kind. The sign belongs to the spelling but not to the
text. -/
def scanName (kind : Token.Kind) (sign : Char) (cs : List Char) : Scan :=
  match cs with
  | [] => .error ⟨[sign], .missingName⟩
  | c :: _ =>
    if isNameStart c then
      .ok ⟨kind, String.ofList (spanName cs).1, sign :: (spanName cs).1, (spanName cs).2⟩
    else .error ⟨[sign], .badNameStart c⟩

/-- The value of an option is a name or a run of digits. -/
def isOptionValue (cs : List Char) : Bool := isNameChars cs || isDigits cs

/-- An option: a name, an equals sign and a value, with blanks allowed around the sign. The blanks
belong to the spelling and are dropped from the text, so that spellings that differ in blanks alone
give one token. -/
def scanOption (cs : List Char) : Scan :=
  let (name, afterName) := spanName cs
  let gap := afterName.takeWhile isBlank
  match afterName.dropWhile isBlank with
  | '=' :: afterEquals =>
    let gap' := afterEquals.takeWhile isBlank
    let source := afterEquals.dropWhile isBlank
    let (value, rest) := spanName source
    let front := name ++ gap ++ '=' :: gap'
    if isOptionValue value then
      .ok ⟨.option, String.ofList (name ++ '=' :: value), front ++ value, rest⟩
    else if value.isEmpty then
      .error ⟨front, .missingOptionValue source.head? (String.ofList name)⟩
    else .error ⟨front, .badOptionValue (String.ofList value) (String.ofList name)⟩
  | _ => .error ⟨name ++ gap, .missingEquals (String.ofList name)⟩

/-- Where an unescaped stopping character exists, the characters split there and none is lost. -/
theorem spanEscaped_eq_ok {stop : Char → Bool} {cs front back : List Char}
    (found : spanEscaped stop cs = .ok (front, back)) :
    front ++ back = cs ∧ ∃ c rest, back = c :: rest ∧ stop c = true := by
  fun_induction spanEscaped stop cs generalizing front with
  | case1 => simp at found
  | case2 => simp at found
  | case3 c cs ih =>
    cases tail : spanEscaped stop cs with
    | error => simp [tail, Except.map] at found
    | ok split =>
      simp only [tail, Except.map, Except.ok.injEq, Prod.mk.injEq] at found
      obtain ⟨rfl, rfl⟩ := found
      obtain ⟨joined, stopped⟩ := ih tail
      exact ⟨by simp [joined], stopped⟩
  | case4 c cs _ _ stopped =>
    simp only [Except.ok.injEq, Prod.mk.injEq] at found
    obtain ⟨rfl, rfl⟩ := found
    exact ⟨rfl, c, cs, rfl, stopped⟩
  | case5 c cs _ _ _ ih =>
    cases tail : spanEscaped stop cs with
    | error => simp [tail, Except.map] at found
    | ok split =>
      simp only [tail, Except.map, Except.ok.injEq, Prod.mk.injEq] at found
      obtain ⟨rfl, rfl⟩ := found
      obtain ⟨joined, stopped⟩ := ih tail
      exact ⟨by simp [joined], stopped⟩

/-- A lexeme splits the characters it was scanned from, and takes at least one of them. The first
part keeps the stream of tokens a tiling of the input, the second makes it finite. -/
structure Splits (lexeme : Lexeme) (cs : List Char) : Prop where
  joined : lexeme.spelling ++ lexeme.rest = cs
  nonempty : lexeme.spelling ≠ []

/-- What follows a lexeme is shorter than what it was scanned from, the measure by which reading
ends. -/
theorem Splits.rest_length_lt {lexeme : Lexeme} {cs : List Char} (splits : lexeme.Splits cs) :
    lexeme.rest.length < cs.length := by
  have positive := List.length_pos_iff.mpr splits.nonempty
  rw [← splits.joined, List.length_append]
  omega

/-- One character is always a lexeme of its own. -/
theorem splits_single (kind : Token.Kind) (c : Char) (cs : List Char) :
    (single kind c cs).Splits (c :: cs) := ⟨rfl, by simp [single, verbatim]⟩

/-- A text takes at least one character when it does not start at a brace. In a pattern the braces
are read before a text is tried, which gives the condition. -/
theorem splits_scanText {c : Char} {cs : List Char} {lexeme : Lexeme}
    (found : scanText (c :: cs) = .ok lexeme) (inside : c ≠ '{' ∧ c ≠ '}') :
    lexeme.Splits (c :: cs) := by
  unfold scanText at found
  split at found
  case h_1 split spanned =>
    obtain ⟨front, back⟩ := split
    obtain ⟨joined, d, rest, rfl, stopped⟩ := spanEscaped_eq_ok spanned
    simp only [Except.ok.injEq] at found
    subst found
    refine ⟨joined, ?_⟩
    rintro rfl
    simp only [List.nil_append, List.cons.injEq] at joined
    simp [joined.1, inside] at stopped
  all_goals simp at found

/-- A quoted literal takes its bars and everything between them, the backslashes included, although
its text lacks them. -/
theorem splits_scanQuoted {bar : Char} {cs : List Char} {lexeme : Lexeme}
    (found : scanQuoted bar cs = .ok lexeme) : lexeme.Splits (bar :: cs) := by
  unfold scanQuoted at found
  split at found
  · rename_i inside close rest spanned
    simp only [Except.ok.injEq] at found
    subst found
    exact ⟨by simpa using (spanEscaped_eq_ok spanned).1, by simp⟩
  · simp at found

/-- A number takes characters as soon as one starts there. -/
theorem splits_scanNumber {cs : List Char} (start : startsNumber cs = true) :
    (scanNumber cs).Splits cs :=
  ⟨spanNumber_append cs, spanNumber_ne_nil start⟩

/-- A name takes at least its sign. -/
theorem splits_scanName {kind : Token.Kind} {sign : Char} {cs : List Char} {lexeme : Lexeme}
    (found : scanName kind sign cs = .ok lexeme) : lexeme.Splits (sign :: cs) := by
  unfold scanName at found
  split at found
  · simp at found
  · split at found
    · simp only [Except.ok.injEq] at found
      subst found
      exact ⟨by simp, by simp⟩
    · simp at found

/-- An option takes its name, the blanks around the equals sign and the value. The name start before
it is what makes the lexeme nonempty. -/
theorem splits_scanOption {c : Char} {cs : List Char} {lexeme : Lexeme}
    (found : scanOption (c :: cs) = .ok lexeme) (start : isNameStart c = true) :
    lexeme.Splits (c :: cs) := by
  simp only [scanOption] at found
  split at found
  · rename_i afterEquals dropped
    split at found
    · simp only [Except.ok.injEq] at found
      subst found
      constructor
      · simp only [List.append_assoc, List.cons_append, spanName_append,
          List.takeWhile_append_dropWhile]
        rw [← dropped, List.takeWhile_append_dropWhile, spanName_append]
      · simp [spanName_ne_nil start]
    · split at found <;> simp at found
  · simp at found

end Lexeme

end MessageTemplate
