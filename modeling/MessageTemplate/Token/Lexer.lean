import MessageTemplate.Error
import MessageTemplate.Token.Lexeme

/-! # The token stream of a template

A lexer holds the characters still to be read and its context: where it stands with respect to the
braces, and what a brace or a bare word means outside them. Blanks are skipped everywhere but in a
pattern, where they belong to the text.

Every token but the last takes characters from the input (`Lexer.budget_nextToken_lt`), so the
stream of tokens is finite. It ends with the first end-of-input or error token; from then on the
lexer only repeats the end of input.
-/

namespace MessageTemplate

/-- What the words outside the braces have announced: a whole message, the selectors of a
matcher, or the keys of a variant. -/
inductive Mode where
  | message
  | selectors
  | keys
  deriving DecidableEq, Repr

/-- Where the next character stands: outside all braces, in a pattern, in an expression that
stands outside a pattern, or in one inside a pattern. -/
inductive Region where
  | outside
  | pattern
  | loneExpression
  | innerExpression
  deriving DecidableEq, Repr

/-- The number of braces around a region. -/
def Region.level : Region → Nat
  | .outside => 0
  | .pattern => 1
  | .loneExpression => 1
  | .innerExpression => 2

/-- What decides how the next characters are read. The region says which characters are text, the
mode what the last brace or keyword announced. -/
structure Context where
  region : Region := .outside
  mode : Mode := .message
  deriving DecidableEq, Repr

namespace Context

/-- The context behind a brace that opens outside all others, by what follows it. After keys the
brace opens a pattern and the variant is complete. -/
def opened (mode : Mode) (following : List Char) : Context :=
  match mode with
  | .message =>
    if following.head?.any isExpressionSign then ⟨.loneExpression, .message⟩
    else ⟨.pattern, .message⟩
  | .selectors => ⟨.loneExpression, .selectors⟩
  | .keys => ⟨.pattern, .message⟩

/-- A lexeme and the context behind it, or where and why the scanner stopped. -/
abbrev Scan := Except Lexeme.Failure (Lexeme × Context)

/-- Go on in the same context. Only braces and keywords change it, so every other lexeme is scanned
without regard to where it stands. -/
def stay (context : Context) (scan : Lexeme.Scan) : Scan :=
  scan.map fun lexeme => (lexeme, context)

/-- A bare word: a keyword changes the mode, any other word is a key. -/
def scanWord (mode : Mode) (cs : List Char) : Scan :=
  let word := String.ofList (spanName cs).1
  if word = matchWord then
    .ok (.verbatim .keyword (spanName cs), ⟨.outside, .selectors⟩)
  else if word = whenWord then
    .ok (.verbatim .keyword (spanName cs), ⟨.outside, .keys⟩)
  else if mode = .keys then
    .ok (.verbatim .literal (spanName cs), ⟨.outside, .keys⟩)
  else .error ⟨[], .unexpectedWord word⟩

/-- Outside all braces: keywords, and behind a keyword the keys of a variant. Nothing but a brace, a
keyword or a key can stand here. -/
def scanOutside (mode : Mode) : List Char → Scan
  | [] => .ok (.verbatim .eof ([], []), ⟨.outside, mode⟩)
  | '{' :: cs => .ok (.single .openBrace '{' cs, opened mode cs)
  | '}' :: _ => .error ⟨[], .unmatchedBrace⟩
  | c :: cs =>
    if mode = .keys ∧ c = '*' then stay ⟨.outside, mode⟩ (.ok (.single .literal '*' cs))
    else if mode = .keys ∧ c = '|' then stay ⟨.outside, mode⟩ (Lexeme.scanQuoted c cs)
    else if mode = .keys ∧ startsNumber (c :: cs) then
      stay ⟨.outside, mode⟩ (.ok (Lexeme.scanNumber (c :: cs)))
    else if isNameStart c then scanWord mode (c :: cs)
    else .error ⟨[], .unexpectedChar c⟩

/-- Inside a pattern, outside its expressions. Everything that is not a brace is text, blanks
included. -/
def scanPattern (mode : Mode) : List Char → Scan
  | [] => .error ⟨[], .unclosedPattern⟩
  | '{' :: cs => .ok (.single .openBrace '{' cs, ⟨.innerExpression, mode⟩)
  | '}' :: cs => .ok (.single .closeBrace '}' cs, ⟨.outside, mode⟩)
  | c :: cs => stay ⟨.pattern, mode⟩ (Lexeme.scanText (c :: cs))

/-- Inside an expression; the closing brace leads to the given context. The first character decides
the kind of lexeme, with a hyphen being a sign before a digit and a mark of closing markup before a
name. -/
def scanExpression (context outer : Context) : List Char → Scan
  | [] => .error ⟨[], .unclosedExpression⟩
  | '}' :: cs => .ok (.single .closeBrace '}' cs, outer)
  | '{' :: _ => .error ⟨[], .braceInExpression⟩
  | '$' :: cs => stay context (Lexeme.scanName .variable '$' cs)
  | ':' :: cs => stay context (Lexeme.scanName .function ':' cs)
  | '+' :: cs => stay context (Lexeme.scanName .markupOpen '+' cs)
  | '|' :: cs => stay context (Lexeme.scanQuoted '|' cs)
  | c :: cs =>
    if startsNumber (c :: cs) then stay context (.ok (Lexeme.scanNumber (c :: cs)))
    else if c = '-' then stay context (Lexeme.scanName .markupClose '-' cs)
    else if isNameStart c then stay context (Lexeme.scanOption (c :: cs))
    else .error ⟨[], .unexpectedInExpression c⟩

/-- Read the next lexeme, blanks before it being skipped already. -/
def scan (context : Context) (cs : List Char) : Scan :=
  match context.region with
  | .outside => scanOutside context.mode cs
  | .pattern => scanPattern context.mode cs
  | .loneExpression => scanExpression context ⟨.outside, context.mode⟩ cs
  | .innerExpression => scanExpression context ⟨.pattern, context.mode⟩ cs

/-- The blanks that the context skips, and what follows them. Only a pattern keeps its blanks. -/
def skipBlanks (context : Context) (cs : List Char) : List Char × List Char :=
  if context.region = .pattern then ([], cs) else (cs.takeWhile isBlank, cs.dropWhile isBlank)

/-- The skipped blanks are in front of what is scanned, and nothing else lies between. -/
@[simp] theorem skipBlanks_append (context : Context) (cs : List Char) :
    (context.skipBlanks cs).1 ++ (context.skipBlanks cs).2 = cs := by
  unfold skipBlanks
  split <;> simp

/-- A lexeme scanned within a context is the lexeme of the scanner it was handed to. -/
theorem stay_eq_ok {context next : Context} {scan : Lexeme.Scan} {lexeme : Lexeme}
    (found : stay context scan = .ok (lexeme, next)) : scan = .ok lexeme ∧ next = context := by
  cases scan with
  | error => simp [stay, Except.map] at found
  | ok other =>
    simp only [stay, Except.map, Except.ok.injEq, Prod.mk.injEq] at found
    simp [found.1, found.2]

/-- A lexeme other than the end of the input takes at least one character. Each scanner has its own
lemma of this form; here they meet, one for each region. -/
theorem splits_scan {context next : Context} {cs : List Char} {lexeme : Lexeme}
    (found : context.scan cs = .ok (lexeme, next)) :
    lexeme.kind = .eof ∧ cs = [] ∨ lexeme.Splits cs := by
  have word {c : Char} {cs : List Char} (start : isNameStart c = true)
      (kind : Token.Kind) : (Lexeme.verbatim kind (spanName (c :: cs))).Splits (c :: cs) :=
    ⟨spanName_append _, spanName_ne_nil start cs⟩
  have expression {outer : Context}
      (found : scanExpression context outer cs = .ok (lexeme, next)) : lexeme.Splits cs := by
    unfold scanExpression at found
    split at found
    case h_8 c cs _ _ _ _ _ _ =>
      split at found
      · rename_i start
        obtain ⟨same, _⟩ := stay_eq_ok found
        cases same
        exact Lexeme.splits_scanNumber start
      · split at found
        · rename_i hyphen
          exact hyphen ▸ Lexeme.splits_scanName (stay_eq_ok found).1
        · split at found
          · rename_i start
            exact Lexeme.splits_scanOption (stay_eq_ok found).1 start
          · simp at found
    case h_2 => cases found; exact Lexeme.splits_single ..
    case h_4 => exact Lexeme.splits_scanName (stay_eq_ok found).1
    case h_5 => exact Lexeme.splits_scanName (stay_eq_ok found).1
    case h_6 => exact Lexeme.splits_scanName (stay_eq_ok found).1
    case h_7 => exact Lexeme.splits_scanQuoted (stay_eq_ok found).1
    all_goals simp at found
  unfold scan at found
  split at found
  · unfold scanOutside at found
    split at found
    · cases found
      exact .inl ⟨rfl, rfl⟩
    · cases found
      exact .inr (Lexeme.splits_single ..)
    · simp at found
    · right
      split at found
      · rename_i star
        obtain ⟨same, _⟩ := stay_eq_ok found
        cases same
        exact star.2 ▸ Lexeme.splits_single ..
      · split at found
        · exact Lexeme.splits_scanQuoted (stay_eq_ok found).1
        · split at found
          · rename_i start
            obtain ⟨same, _⟩ := stay_eq_ok found
            cases same
            exact Lexeme.splits_scanNumber start.2
          · split at found
            · rename_i start
              simp only [scanWord] at found
              split at found
              · cases found; exact word start _
              · split at found
                · cases found; exact word start _
                · split at found
                  · cases found; exact word start _
                  · simp at found
            · simp at found
  · right
    unfold scanPattern at found
    split at found
    · simp at found
    · cases found; exact Lexeme.splits_single ..
    · cases found; exact Lexeme.splits_single ..
    · rename_i c cs notOpen notClose
      exact Lexeme.splits_scanText (stay_eq_ok found).1
        ⟨by simpa using notOpen, by simpa using notClose⟩
  · exact .inr (expression found)
  · exact .inr (expression found)

end Context

/-- The state of reading a template: the characters not read yet, the number of bytes before them,
the context, and whether the last token of the stream has been given. -/
structure Lexer where
  rest : List Char
  offset : Nat := 0
  context : Context := {}
  finished : Bool := false
  deriving DecidableEq, Repr

namespace Lexer

/-- A lexer at the start of a template. -/
def ofString (template : String) : Lexer := { rest := template.toList }

/-- The length of the whole input in bytes. It stays the same throughout the reading. -/
def size (lexer : Lexer) : Nat := lexer.offset + byteLength lexer.rest

/-- The next token. After the last token of the stream every token is the end of the input. A
token's level is that of the outer side of the brace where it is a brace, and that of the region it
stands in otherwise. -/
def nextToken (lexer : Lexer) : Token × Lexer :=
  if lexer.finished then (⟨.eof, "", lexer.size, 0⟩, lexer)
  else
    let (gap, source) := lexer.context.skipBlanks lexer.rest
    let start := lexer.offset + byteLength gap
    match lexer.context.scan source with
    | .error failure =>
      (⟨.error, failure.fault.message, start + byteLength failure.passed,
        lexer.context.region.level⟩,
        { rest := source.drop failure.consumed.length
          offset := start + byteLength failure.consumed
          context := lexer.context
          finished := true })
    | .ok (lexeme, next) =>
      (⟨lexeme.kind, lexeme.text, start, min lexer.context.region.level next.region.level⟩,
        { rest := lexeme.rest
          offset := start + byteLength lexeme.spelling
          context := next
          finished := lexeme.kind = .eof })

/-- The next token of the stream, as long as it has not ended. -/
def next (lexer : Lexer) : Option Token × Lexer :=
  if lexer.finished then (none, lexer) else (some lexer.nextToken.1, lexer.nextToken.2)

/-- A bound on the number of tokens that the stream still has, by which reading it to the end is
seen to end. -/
def budget (lexer : Lexer) : Nat := if lexer.finished then 0 else lexer.rest.length + 1

/-- Every token takes characters or is the last one, so the bound falls with each. -/
theorem budget_nextToken_lt {lexer : Lexer} (unfinished : lexer.finished = false) :
    lexer.nextToken.2.budget < lexer.budget := by
  have split := congrArg List.length (lexer.context.skipBlanks_append lexer.rest)
  simp only [List.length_append] at split
  simp only [nextToken, unfinished, Bool.false_eq_true, ↓reduceIte]
  split
  · simp [budget, unfinished]
  · rename_i lexeme next found
    rcases Context.splits_scan found with ⟨final, _⟩ | splits
    · simp [budget, unfinished, final]
    · have shorter := splits.rest_length_lt
      simp only [budget, unfinished, Bool.false_eq_true, ↓reduceIte]
      split <;> omega

/-- The tokens that the stream still has, and the lexer at its end. The lexer is kept because it can
still be asked for tokens. -/
def drain (lexer : Lexer) : List Token × Lexer :=
  if _ : lexer.finished = false then
    let (tokens, last) := lexer.nextToken.2.drain
    (lexer.nextToken.1 :: tokens, last)
  else ([], lexer)
termination_by lexer.budget
decreasing_by exact budget_nextToken_lt (by assumption)

/-- The tokens that the stream still has, up to the first end of input or error. -/
def tokens (lexer : Lexer) : List Token := lexer.drain.1

end Lexer

namespace Token

/-- The error that the first error token of a sequence stands for. A sequence made by hand may have
an error token anywhere, so the whole of it is searched. -/
def firstError? (tokens : List Token) : Option Error :=
  (tokens.find? (·.kind = .error)).map fun token => .lex token.offset token.text

/-- The tokens of a template, the end of the input included. One error token makes the whole
template fail. -/
def tokenize (template : String) : Except Error (List Token) :=
  let tokens := (Lexer.ofString template).tokens
  match firstError? tokens with
  | some error => .error error
  | none => .ok tokens

end Token

end MessageTemplate
