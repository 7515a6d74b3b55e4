import MessageTemplate.Token.Lexer

/-! # Reading messages

A message is read from its tokens by descent through the grammar: a message is a lone expression,
a pattern or a matcher; a pattern holds texts, expressions and markup. Each reader gives the tree
it read and the tokens that follow, or the error at the first token that cannot be continued.

Where the tokens run out, the readers see an end-of-input token, which is never consumed.
-/

namespace MessageTemplate

namespace Reading

/-- The token that a reader sees next; behind the last one stands the given end of input. -/
def peek (stop : Token) (tokens : List Token) : Token := tokens.headD stop

/-- The error of finding the next token where something else is expected. It carries the offset of
that token, which behind the last one is the place behind it. -/
def unexpected (stop : Token) (expected : Expectation) (tokens : List Token) : Error :=
  .parse (peek stop tokens).offset (.unexpected expected (peek stop tokens))

/-- Consume a token of the given kind. -/
def expect (stop : Token) (kind : Token.Kind) (expected : Expectation) :
    List Token → Except Error (List Token)
  | [] => .error (unexpected stop expected [])
  | token :: rest =>
    if token.kind = kind then .ok rest else .error (unexpected stop expected (token :: rest))

/-- The options at the front. There may be none, so this cannot fail. -/
def readOptions (tokens : List Token) : List NamedOption × List Token :=
  ((tokens.takeWhile (·.kind = .option)).map fun token => .ofSource token.text,
    tokens.dropWhile (·.kind = .option))

/-- The operand at the front, if there is one. -/
def readOperand : List Token → Option Operand × List Token
  | [] => (none, [])
  | token :: rest =>
    match token.kind with
    | .variable => (some (.variable token.text), rest)
    | .literal => (some (.literal token.text), rest)
    | _ => (none, token :: rest)

/-- The function with its options at the front, if there is one. -/
def readFunction : List Token → Option Function × List Token
  | [] => (none, [])
  | token :: rest =>
    if token.kind = .function then
      let (options, rest) := readOptions rest
      (some ⟨token.text, options⟩, rest)
    else (none, token :: rest)

/-- An expression behind its opening brace, through its closing brace. Which error an unfinished
expression has depends on what was read before: an option needs a function before it, and a brace
that closes at once makes an empty expression. -/
def readExpression (stop : Token) (tokens : List Token) : Except Error (Expression × List Token) :=
  let (operand, afterOperand) := readOperand tokens
  let (function, afterFunction) := readFunction afterOperand
  if function.isNone ∧ (peek stop afterFunction).kind = .option then
    .error (unexpected stop .functionBeforeOption afterFunction)
  else if operand.isNone ∧ function.isNone then
    if (peek stop afterFunction).kind = .closeBrace then
      .error (.parse (peek stop tokens).offset .emptyExpression)
    else .error (unexpected stop .expressionContent afterFunction)
  else do
    let rest ← expect stop .closeBrace .expressionEnd afterFunction
    return (⟨operand, function⟩, rest)

/-- An expression or markup behind its opening brace, through its closing brace. Closing markup has
no options, so an option there is met where the brace is expected. -/
def readElement (stop : Token) (tokens : List Token) : Except Error (Node × List Token) :=
  match tokens with
  | [] => do
    let (expression, rest) ← readExpression stop tokens
    return (.expression expression, rest)
  | token :: inner =>
    match token.kind with
    | .markupOpen => do
      let (options, afterOptions) := readOptions inner
      let rest ← expect stop .closeBrace .markupEnd afterOptions
      return (.markup ⟨.opening, token.text, options⟩, rest)
    | .markupClose => do
      let rest ← expect stop .closeBrace .closingMarkupEnd inner
      return (.markup ⟨.closing, token.text, []⟩, rest)
    | _ => do
      let (expression, rest) ← readExpression stop tokens
      return (.expression expression, rest)

/-- A computation in two steps succeeds if both steps do. -/
theorem bind_eq_ok {ε α β : Type} {first : Except ε α} {next : α → Except ε β} {result : β} :
    first >>= next = .ok result ↔ ∃ value, first = .ok value ∧ next value = .ok result := by
  cases first <;> simp [bind, Except.bind]

/-- An error is never a result. The reader raises errors by `throw`, which hides the constructor. -/
theorem throw_ne_ok {ε α : Type} {error : ε} {result : α} :
    (throw error : Except ε α) ≠ .ok result := by
  simp [throw, throwThe, MonadExceptOf.throw]

/-- An expected token is consumed. -/
theorem expect_length {stop : Token} {kind : Token.Kind} {expected : Expectation}
    {tokens rest : List Token} (read : expect stop kind expected tokens = .ok rest) :
    rest.length < tokens.length := by
  unfold expect at read
  split at read
  · simp at read
  · split at read
    · simp_all
    · simp at read

/-- Reading options leaves no more tokens than there were. -/
theorem readOptions_length (tokens : List Token) :
    (readOptions tokens).2.length ≤ tokens.length :=
  (List.dropWhile_sublist _).length_le

/-- Reading an operand leaves no more tokens than there were. -/
theorem readOperand_length (tokens : List Token) :
    (readOperand tokens).2.length ≤ tokens.length := by
  unfold readOperand
  split
  · simp
  · split <;> simp

/-- Reading a function with its options leaves no more tokens than there were. -/
theorem readFunction_length (tokens : List Token) :
    (readFunction tokens).2.length ≤ tokens.length := by
  unfold readFunction
  split
  · simp
  · split
    · have := readOptions_length ‹_›
      simp only [List.length_cons]
      omega
    · simp

/-- An expression consumes at least its closing brace, by which reading selectors is seen to end. -/
theorem readExpression_length {stop : Token} {tokens rest : List Token} {expression : Expression}
    (read : readExpression stop tokens = .ok (expression, rest)) :
    rest.length < tokens.length := by
  have operand := readOperand_length tokens
  have function := readFunction_length (readOperand tokens).2
  simp only [readExpression] at read
  split at read
  · simp at read
  · split at read
    · split at read <;> simp at read
    · obtain ⟨after, closed, made⟩ := bind_eq_ok.1 read
      cases made
      have := expect_length closed
      omega

/-- An element consumes at least its closing brace, by which reading a pattern is seen to end. -/
theorem readElement_length {stop : Token} {tokens rest : List Token} {node : Node}
    (read : readElement stop tokens = .ok (node, rest)) : rest.length < tokens.length := by
  unfold readElement at read
  split at read
  · obtain ⟨result, inner, made⟩ := bind_eq_ok.1 read
    cases made
    exact readExpression_length inner
  · rename_i token tokens
    split at read
    · obtain ⟨after, closed, made⟩ := bind_eq_ok.1 read
      cases made
      have := expect_length closed
      have options := readOptions_length tokens
      simp only [readOptions] at options
      simp only [List.length_cons]
      omega
    · obtain ⟨after, closed, made⟩ := bind_eq_ok.1 read
      cases made
      have := expect_length closed
      simp only [List.length_cons]
      omega
    · obtain ⟨result, inner, made⟩ := bind_eq_ok.1 read
      cases made
      exact readExpression_length inner

/-- A pattern behind its opening brace, through its closing brace. -/
def readPattern (stop : Token) : List Token → Except Error (List Node × List Token)
  | [] => .error (unexpected stop .patternElement [])
  | token :: rest =>
    match token.kind with
    | .text => do
      let (nodes, last) ← readPattern stop rest
      return (.text token.text :: nodes, last)
    | .openBrace =>
      match element : readElement stop rest with
      | .error error => .error error
      | .ok (node, after) => do
        have := readElement_length element
        let (nodes, last) ← readPattern stop after
        return (node :: nodes, last)
    | .closeBrace => .ok ([], rest)
    | _ => .error (unexpected stop .patternElement (token :: rest))
termination_by tokens => tokens.length

/-- A pattern consumes at least its closing brace. -/
theorem readPattern_length {stop : Token} {tokens rest : List Token} {nodes : List Node}
    (read : readPattern stop tokens = .ok (nodes, rest)) : rest.length < tokens.length := by
  fun_induction readPattern stop tokens generalizing nodes with
  | case1 => simp at read
  | case2 token tokens kind ih =>
    obtain ⟨result, inner, made⟩ := bind_eq_ok.1 read
    cases made
    have := ih inner
    simp only [List.length_cons]
    omega
  | case3 => simp at read
  | case4 token tokens kind node after element shorter ih =>
    obtain ⟨result, inner, made⟩ := bind_eq_ok.1 read
    cases made
    have := ih inner
    simp only [List.length_cons]
    omega
  | case5 token tokens kind =>
    simp only [Except.ok.injEq, Prod.mk.injEq] at read
    simp [read.2]
  | case6 => simp at read

/-- The selectors of a matcher: expressions as long as braces open. The reader of the matcher sees
to it that there is one. -/
def readSelectors (stop : Token) : List Token → Except Error (List Expression × List Token)
  | [] => .ok ([], [])
  | token :: rest =>
    if token.kind = .openBrace then
      match expression : readExpression stop rest with
      | .error error => .error error
      | .ok (selector, after) => do
        have := readExpression_length expression
        let (selectors, last) ← readSelectors stop after
        return (selector :: selectors, last)
    else .ok ([], token :: rest)
termination_by tokens => tokens.length

/-- A variant behind its keyword: keys and a pattern. Whether the keys are as many as the selectors
is not asked here, so a template may have too few or too many. -/
def readVariant (stop : Token) (tokens : List Token) : Except Error (Variant × List Token) :=
  let keys := tokens.takeWhile (·.kind = .literal)
  let afterKeys := tokens.dropWhile (·.kind = .literal)
  if keys.isEmpty then .error (unexpected stop .variantKey afterKeys)
  else do
    let body ← expect stop .openBrace .variantStart afterKeys
    let (nodes, rest) ← readPattern stop body
    return (⟨keys.map (·.text), nodes⟩, rest)

/-- A variant consumes tokens, by which reading variants is seen to end. -/
theorem readVariant_length {stop : Token} {tokens rest : List Token} {variant : Variant}
    (read : readVariant stop tokens = .ok (variant, rest)) : rest.length < tokens.length := by
  have keys : (tokens.dropWhile (·.kind = .literal)).length ≤ tokens.length :=
    (List.dropWhile_sublist _).length_le
  simp only [readVariant] at read
  split at read
  · simp at read
  · obtain ⟨body, opened, read⟩ := bind_eq_ok.1 read
    obtain ⟨result, inner, made⟩ := bind_eq_ok.1 read
    cases made
    have := expect_length opened
    have := readPattern_length inner
    omega

/-- The variants of a matcher, each behind its keyword. The first token that is not that keyword
ends the matcher. -/
def readVariants (stop : Token) : List Token → Except Error (List Variant × List Token)
  | [] => .ok ([], [])
  | token :: rest =>
    if token.kind = .keyword ∧ token.text = whenWord then
      match first : readVariant stop rest with
      | .error error => .error error
      | .ok (variant, after) => do
        have := readVariant_length first
        let (variants, last) ← readVariants stop after
        return (variant :: variants, last)
    else .ok ([], token :: rest)
termination_by tokens => tokens.length

/-- A matcher behind its keyword, with one selector and one variant at least. -/
def readMatcher (stop : Token) (tokens : List Token) : Except Error (Matcher × List Token) := do
  let (selectors, afterSelectors) ← readSelectors stop tokens
  if selectors.isEmpty then throw (unexpected stop .selector afterSelectors)
  let (variants, rest) ← readVariants stop afterSelectors
  if variants.isEmpty then throw (unexpected stop .variant rest)
  return (⟨selectors, variants⟩, rest)

/-- The tokens that an expression outside a pattern starts with. -/
def startsExpression (kind : Token.Kind) : Bool :=
  kind = .variable || kind = .function || kind = .literal

/-- A message, without a look at what follows it. The token behind the first brace tells an
expression that stands alone from a pattern. -/
def readMessage (stop : Token) : List Token → Except Error (Message × List Token)
  | [] => .error (unexpected stop .messageStart [])
  | token :: rest =>
    match token.kind with
    | .openBrace =>
      if startsExpression (peek stop rest).kind then do
        let (expression, last) ← readExpression stop rest
        return ([.expression expression], last)
      else readPattern stop rest
    | .keyword =>
      if token.text = matchWord then do
        let (matcher, last) ← readMatcher stop rest
        return ([.matcher matcher], last)
      else .error (.parse token.offset (.unknown token))
    | .eof => .error (unexpected stop .messageStart (token :: rest))
    | _ => .error (.parse token.offset (.unknown token))

/-- The end of input behind a sequence of tokens, at the end of the last one. -/
def stopAfter (last : Token) : Token := ⟨.eof, "", last.finish, 0⟩

end Reading

namespace Message

open Reading

/-- The message that a sequence of tokens spells, through its first end-of-input token. The place
behind the last token, which an error can name, wraps around where it is no word. -/
def ofTokens (tokens : List Token) : Except Error Message :=
  match tokens.getLast? with
  | none => .error (.parse 0 .noTokens)
  | some last =>
    match Token.firstError? tokens with
    | some error => .error error
    | none => do
      let (message, rest) ← readMessage (stopAfter last) tokens
      if (peek (stopAfter last) rest).kind = .eof then return message
      else throw (unexpected (stopAfter last) .messageEnd rest)

/-- The answer of reading a sequence of tokens, whatever becomes of a sum that is no word. The sum
is made before the first token is read, but behind the search for an error among the tokens; where
it stops the reading, there is no answer. -/
def ofTokensWith (overflow : Overflow) (tokens : List Token) : Option (Except Error Message) :=
  if overflow = .stops ∧ Token.firstError? tokens = none ∧ ¬∀ last ∈ tokens.getLast?, last.Fits
  then none
  else some (ofTokens tokens)

/-- The message that a template spells. A template longer than the limit, in bytes, is refused. -/
def parse (template : String) (limit : Option Nat := none) : Except Error Message := do
  if let some limit := limit then
    if limit < template.utf8ByteSize then
      throw (.inputTooLong template.utf8ByteSize limit)
  ofTokens (← Token.tokenize template)

end Message

end MessageTemplate
