import MessageTemplate.Proofs.Text.Escaped
import MessageTemplate.Proofs.Token.Munch
import MessageTemplate.Token.Lexer

/-! # The spellings of terminals

What the grammar sees of a token is a terminal: its kind and text, without its place. This file
states which characters spell which terminal in which context, as a relation that names every
way there is (`MessageTemplate.Context.Spells`). The lexer reads exactly these
(`MessageTemplate.Context.spells_of_scan`, `MessageTemplate.Context.scan_of_spells`), so that facts
about the tokens of a template are proved by cases on the ways to spell one.
-/

namespace MessageTemplate

/-- A token without its place. Braces and the end of the input have no text of their own. The
grammar of messages looks at terminals only, apart from the offsets in its errors. -/
inductive Terminal where
  | eof
  | error (text : String)
  | text (value : String)
  | variable (name : String)
  | function (name : String)
  | literal (value : String)
  | keyword (word : String)
  | option (source : String)
  | openBrace
  | closeBrace
  | markupOpen (name : String)
  | markupClose (name : String)
  deriving DecidableEq, Repr

/-- The terminal of a kind with a text. For a kind without a text of its own the text is ignored. -/
def Terminal.ofKind (kind : Token.Kind) (text : String) : Terminal :=
  match kind with
  | .eof => .eof
  | .error => .error text
  | .text => .text text
  | .variable => .variable text
  | .function => .function text
  | .literal => .literal text
  | .keyword => .keyword text
  | .option => .option text
  | .openBrace => .openBrace
  | .closeBrace => .closeBrace
  | .markupOpen => .markupOpen text
  | .markupClose => .markupClose text

/-- The terminals that end a stream of tokens. -/
def Terminal.isLast : Terminal → Bool
  | .eof | .error _ => true
  | _ => false

/-- What the grammar sees of a token. -/
def Token.terminal (token : Token) : Terminal := .ofKind token.kind token.text

/-- What the grammar sees of a lexeme. -/
def Lexeme.terminal (lexeme : Lexeme) : Terminal := .ofKind lexeme.kind lexeme.text

/-- The terminal that a sign in front of a name makes of it. -/
def signTerminal? : Char → Option (String → Terminal)
  | '$' => some .variable
  | ':' => some .function
  | '+' => some .markupOpen
  | '-' => some .markupClose
  | _ => none

namespace Context

/-- Whether the context stands inside an expression, wherever the expression stands. -/
def isExpression (context : Context) : Bool :=
  context.region = .loneExpression || context.region = .innerExpression

/-- Numbers and quoted literals are read among the keys of a variant and inside expressions. Both
places spell them alike. -/
def readsLiterals (context : Context) : Bool :=
  context = ⟨.outside, .keys⟩ || context.isExpression

/-- The context behind the brace that closes an expression. The mode is kept: a selector is followed
by further selectors or variants. -/
def closed (context : Context) : Context :=
  ⟨if context.region = .loneExpression then .outside else .pattern, context.mode⟩

/-- In a context, characters in front of a rest spell a terminal and lead to a next context. There
is one constructor for each way to spell a terminal, and each names what has to follow for the
spelling to end where it does. -/
inductive Spells : Context → (spelling rest : List Char) → Terminal → Context → Prop
  | openOutside {mode : Mode} {rest : List Char} :
      Spells ⟨.outside, mode⟩ ['{'] rest .openBrace (opened mode rest)
  | openInside {mode : Mode} {rest : List Char} :
      Spells ⟨.pattern, mode⟩ ['{'] rest .openBrace ⟨.innerExpression, mode⟩
  | closePattern {mode : Mode} {rest : List Char} :
      Spells ⟨.pattern, mode⟩ ['}'] rest .closeBrace ⟨.outside, mode⟩
  | closeExpression {context : Context} {rest : List Char} (inside : context.isExpression = true) :
      Spells context ['}'] rest .closeBrace context.closed
  | text {mode : Mode} {value rest : List Char} {brace : Char} (nonempty : value ≠ [])
      (hidden : hides isBrace value = true) (stopped : isBrace brace = true) :
      Spells ⟨.pattern, mode⟩ value (brace :: rest) (.text (String.ofList value)) ⟨.pattern, mode⟩
  | matchWord {mode : Mode} {rest : List Char} (ends : EndsRun isNameChar rest) :
      Spells ⟨.outside, mode⟩ matchWord.toList rest (.keyword matchWord) ⟨.outside, .selectors⟩
  | whenWord {mode : Mode} {rest : List Char} (ends : EndsRun isNameChar rest) :
      Spells ⟨.outside, mode⟩ whenWord.toList rest (.keyword whenWord) ⟨.outside, .keys⟩
  | catchAll {rest : List Char} :
      Spells ⟨.outside, .keys⟩ ['*'] rest (.literal (String.ofList ['*'])) ⟨.outside, .keys⟩
  | bareKey {name rest : List Char} (shape : isNameChars name = true)
      (ends : EndsRun isNameChar rest) (notMatch : String.ofList name ≠ MessageTemplate.matchWord)
      (notWhen : String.ofList name ≠ MessageTemplate.whenWord) :
      Spells ⟨.outside, .keys⟩ name rest (.literal (String.ofList name)) ⟨.outside, .keys⟩
  | number {context : Context} {number rest : List Char} (literals : context.readsLiterals = true)
      (start : startsNumber (number ++ rest) = true)
      (taken : spanNumber (number ++ rest) = (number, rest)) :
      Spells context number rest (.literal (String.ofList number)) context
  | quoted {context : Context} {inside rest : List Char} (literals : context.readsLiterals = true)
      (hidden : hides (· = '|') inside = true) :
      Spells context ('|' :: inside ++ ['|']) rest
        (.literal (String.ofList (unescapeChars inside))) context
  | signed {context : Context} {sign : Char} {make : String → Terminal} {name rest : List Char}
      (inside : context.isExpression = true) (signs : signTerminal? sign = some make)
      (shape : isNameChars name = true) (ends : EndsRun isNameChar rest) :
      Spells context (sign :: name) rest (make (String.ofList name)) context
  | option {context : Context} {name gap gap' value rest : List Char}
      (inside : context.isExpression = true) (shape : isNameChars name = true)
      (nameEnds : EndsRun isNameChar (gap ++ ['='])) (blank : ∀ c ∈ gap, isBlank c = true)
      (blank' : ∀ c ∈ gap', isBlank c = true) (gapEnds : EndsRun isBlank value)
      (valueShape : Lexeme.isOptionValue value = true) (ends : EndsRun isNameChar rest) :
      Spells context (name ++ gap ++ '=' :: gap' ++ value) rest
        (.option (String.ofList (name ++ '=' :: value))) context

/-! ### What is spelled is read -/

/-- Both kinds of expression are scanned alike and differ only in what closing them leads to. -/
theorem isExpression_cases {context : Context} (inside : context.isExpression = true) :
    context.scan = scanExpression context context.closed ∧ context.region ≠ .pattern := by
  obtain ⟨region, mode⟩ := context
  cases region <;> simp [isExpression] at inside
  · exact ⟨rfl, by simp⟩
  · exact ⟨rfl, by simp⟩

/-- Outside all braces, the choice that is left when no brace comes next. -/
theorem scanOutside_cons_of_ne {c : Char} (notOpen : c ≠ '{') (notClose : c ≠ '}') (mode : Mode)
    (cs : List Char) :
    scanOutside mode (c :: cs) =
      if mode = .keys ∧ c = '*' then
        stay ⟨.outside, mode⟩ (.ok (Lexeme.single .literal '*' cs))
      else if mode = .keys ∧ c = '|' then stay ⟨.outside, mode⟩ (Lexeme.scanQuoted c cs)
      else if mode = .keys ∧ startsNumber (c :: cs) then
        stay ⟨.outside, mode⟩ (.ok (Lexeme.scanNumber (c :: cs)))
      else if isNameStart c then scanWord mode (c :: cs)
      else .error ⟨[], .unexpectedChar c⟩ := by
  rw [scanOutside]
  · exact fun same => notOpen same
  · exact fun same => notClose same

/-- In an expression, the choice that is left when no sign and no brace comes next. -/
theorem scanExpression_cons_of_ne {c : Char}
    (other : ∀ d ∈ ['}', '{', '$', ':', '+', '|'], c ≠ d) (context outer : Context)
    (cs : List Char) :
    scanExpression context outer (c :: cs) =
      if startsNumber (c :: cs) then stay context (.ok (Lexeme.scanNumber (c :: cs)))
      else if c = '-' then stay context (Lexeme.scanName .markupClose '-' cs)
      else if isNameStart c then stay context (Lexeme.scanOption (c :: cs))
      else .error ⟨[], .unexpectedInExpression c⟩ := by
  simp only [List.forall_mem_cons, List.not_mem_nil, false_implies, implies_true, and_true] at other
  obtain ⟨close, «open», dollar, colon, plus, bar⟩ := other
  rw [scanExpression] <;> assumption

theorem scanQuoted_append {inside rest : List Char} (hidden : hides (· = '|') inside = true) :
    Lexeme.scanQuoted '|' (inside ++ '|' :: rest) =
      .ok ⟨.literal, String.ofList (unescapeChars inside), '|' :: inside ++ ['|'], rest⟩ := by
  rw [Lexeme.scanQuoted, Lexeme.spanEscaped_append hidden (by decide) (by decide)]

/-- A name behind its sign is taken whole when what follows ends it. -/
theorem scanName_append {kind : Token.Kind} {sign : Char} {name rest : List Char}
    (shape : isNameChars name = true) (ends : EndsRun isNameChar rest) :
    Lexeme.scanName kind sign (name ++ rest) =
      .ok ⟨kind, String.ofList name, sign :: name, rest⟩ := by
  obtain ⟨c, cs, rfl, start⟩ := exists_cons_of_isNameChars shape
  rw [List.cons_append, Lexeme.scanName, if_pos start, ← List.cons_append,
    spanName_append_of_endsRun (all_isNameChar_of_isNameChars shape) ends]

/-- A text is taken whole when it hides its braces and a brace follows. -/
theorem scanText_append {value rest : List Char} {brace : Char}
    (hidden : hides isBrace value = true) (stopped : isBrace brace = true) :
    Lexeme.scanText (value ++ brace :: rest) =
      .ok (.verbatim .text (value, brace :: rest)) := by
  have plain : brace ≠ '\\' := ne_of_kind stopped (by decide)
  have spanned : Lexeme.spanEscaped (fun c => c = '{' || c = '}') (value ++ brace :: rest) =
      .ok (value, brace :: rest) := Lexeme.spanEscaped_append hidden plain stopped
  rw [Lexeme.scanText, spanned]

/-- Outside all braces a name is a keyword, a key or an error, depending on the word and the
mode. -/
theorem scanOutside_name {name rest : List Char} (mode : Mode) (shape : isNameChars name = true)
    (ends : EndsRun isNameChar rest) :
    scanOutside mode (name ++ rest) =
      if String.ofList name = matchWord then
        .ok (.verbatim .keyword (name, rest), ⟨.outside, .selectors⟩)
      else if String.ofList name = whenWord then
        .ok (.verbatim .keyword (name, rest), ⟨.outside, .keys⟩)
      else if mode = .keys then
        .ok (.verbatim .literal (name, rest), ⟨.outside, .keys⟩)
      else .error ⟨[], .unexpectedWord (String.ofList name)⟩ := by
  obtain ⟨c, cs, rfl, start⟩ := exists_cons_of_isNameChars shape
  have star : c ≠ '*' := ne_of_kind start (by decide)
  have bar : c ≠ '|' := ne_of_kind start (by decide)
  rw [List.cons_append, scanOutside_cons_of_ne (ne_of_kind start (by decide))
    (ne_of_kind start (by decide)), if_neg (fun both => star both.2),
    if_neg (fun both => bar both.2), startsNumber_eq_false_of_isNameStart start,
    if_neg (by simp), if_pos start, ← List.cons_append, scanWord,
    spanName_append_of_endsRun (all_isNameChar_of_isNameChars shape) ends]

/-- An option is taken whole, with the blanks around its equals sign. The name must end where they
start, the ogham space mark being a blank that would go on with it. -/
theorem scanOption_append {name gap gap' value rest : List Char} (shape : isNameChars name = true)
    (nameEnds : EndsRun isNameChar (gap ++ ['='])) (blank : ∀ c ∈ gap, isBlank c = true)
    (blank' : ∀ c ∈ gap', isBlank c = true) (gapEnds : EndsRun isBlank value)
    (valueShape : Lexeme.isOptionValue value = true) (ends : EndsRun isNameChar rest) :
    Lexeme.scanOption (name ++ gap ++ '=' :: gap' ++ value ++ rest) =
      .ok ⟨.option, String.ofList (name ++ '=' :: value), name ++ gap ++ '=' :: gap' ++ value,
        rest⟩ := by
  have nonempty : value ≠ [] := by
    rintro rfl
    simp [Lexeme.isOptionValue, isNameChars, isDigits] at valueShape
  have valueChars : ∀ c ∈ value, isNameChar c = true := by
    rw [Lexeme.isOptionValue, Bool.or_eq_true] at valueShape
    rcases valueShape with name | digits
    · exact all_isNameChar_of_isNameChars name
    · exact fun c member => isNameChar_of_isDigit (all_isDigit_of_isDigits digits c member)
  have nameTaken : spanName (name ++ (gap ++ '=' :: (gap' ++ (value ++ rest)))) =
      (name, gap ++ '=' :: (gap' ++ (value ++ rest))) := by
    apply spanName_append_of_endsRun (all_isNameChar_of_isNameChars shape)
    rw [List.append_cons]
    exact (endsRun_append (by simp)).mpr nameEnds
  have equals := endsRun_equals (gap' ++ (value ++ rest))
  have valueStarts : EndsRun isBlank (value ++ rest) := (endsRun_append nonempty).mpr gapEnds
  have valueTaken := spanName_append_of_endsRun valueChars ends
  simp only [List.append_assoc, List.cons_append, Lexeme.scanOption, nameTaken,
    takeWhile_append_of_endsRun blank equals, dropWhile_append_of_endsRun blank equals,
    takeWhile_append_of_endsRun blank' valueStarts, dropWhile_append_of_endsRun blank' valueStarts,
    valueTaken, if_pos valueShape]

/-- In a pattern a nonempty run up to a brace is read as a text. -/
theorem scan_text {mode : Mode} {value rest : List Char} {brace : Char} (nonempty : value ≠ [])
    (hidden : hides isBrace value = true) (stopped : isBrace brace = true) :
    scan ⟨.pattern, mode⟩ (value ++ brace :: rest) =
      .ok (.verbatim .text (value, brace :: rest), ⟨.pattern, mode⟩) := by
  obtain ⟨c, cs, rfl⟩ := List.exists_cons_of_ne_nil nonempty
  have inside : isBrace c = false := by
    rcases head_of_hides hidden with rfl | free
    · decide
    · exact free
  have scanned := @scanText_append _ rest _ hidden stopped
  change scanPattern mode (c :: (cs ++ brace :: rest)) = _
  rw [scanPattern, ← List.cons_append, scanned]
  · rfl
  · rintro rfl
    simp [isBrace] at inside
  · rintro rfl
    simp [isBrace] at inside

/-- A number is read where literals are, also with a hyphen before it: in an expression the hyphen
of a number is tried before that of closing markup. -/
theorem scan_number {context : Context} {number rest : List Char}
    (literals : context.readsLiterals = true) (start : startsNumber (number ++ rest) = true)
    (taken : spanNumber (number ++ rest) = (number, rest)) :
    context.scan (number ++ rest) = .ok (.verbatim .literal (number, rest), context) := by
  obtain ⟨c, cs, spelled, first⟩ := exists_cons_of_startsNumber start
  have other : ∀ d ∈ ['*', '}', '{', '$', ':', '+', '|'], c ≠ d := by
    rcases first with rfl | digit
    · simp
    · exact forall_ne_of_kind digit (by decide)
  have scanned : Lexeme.scanNumber (c :: cs) = .verbatim .literal (number, rest) := by
    rw [← spelled, Lexeme.scanNumber, taken]
  rw [spelled] at start ⊢
  rw [readsLiterals, Bool.or_eq_true, decide_eq_true_eq] at literals
  rcases literals with rfl | inside
  · change scanOutside .keys (c :: cs) = _
    rw [scanOutside_cons_of_ne (other _ (by simp)) (other _ (by simp)),
      if_neg (fun both => other _ (by simp) both.2),
      if_neg (fun both => other _ (by simp) both.2), if_pos ⟨rfl, start⟩, scanned]
    rfl
  · rw [(isExpression_cases inside).1,
      scanExpression_cons_of_ne (fun d member => other d (.tail _ member)), if_pos start, scanned]
    rfl

/-- A literal between bars is read where literals are. -/
theorem scan_quoted {context : Context} {inside rest : List Char}
    (literals : context.readsLiterals = true) (hidden : hides (· = '|') inside = true) :
    context.scan ('|' :: inside ++ ['|'] ++ rest) =
      .ok (⟨.literal, String.ofList (unescapeChars inside), '|' :: inside ++ ['|'], rest⟩,
        context) := by
  have scanned : stay context (Lexeme.scanQuoted '|' (inside ++ '|' :: rest)) = _ :=
    congrArg (stay context) (scanQuoted_append hidden)
  rw [readsLiterals, Bool.or_eq_true, decide_eq_true_eq] at literals
  rw [List.append_assoc, List.cons_append]
  rcases literals with rfl | expression
  · exact scanned
  · rw [(isExpression_cases expression).1]
    exact scanned

/-- A name behind its sign is read as the terminal that the sign makes of it. The four signs share
this lemma, the kind of the lexeme being the only difference. -/
theorem scan_signed {context : Context} {sign : Char} {make : String → Terminal}
    {name rest : List Char} (inside : context.isExpression = true)
    (signs : signTerminal? sign = some make) (shape : isNameChars name = true)
    (ends : EndsRun isNameChar rest) :
    ∃ kind, context.scan (sign :: name ++ rest) =
        .ok (⟨kind, String.ofList name, sign :: name, rest⟩, context) ∧
      Lexeme.terminal ⟨kind, String.ofList name, sign :: name, rest⟩ =
        make (String.ofList name) := by
  have hyphen : startsNumber ('-' :: (name ++ rest)) = false := by
    obtain ⟨c, cs, rfl, start⟩ := exists_cons_of_isNameChars shape
    exact isDigit_eq_false_of_isNameStart start
  rw [(isExpression_cases inside).1, List.cons_append]
  unfold signTerminal? at signs
  split at signs <;> try cases signs
  · refine ⟨.variable, ?_, rfl⟩
    rw [scanExpression, scanName_append shape ends]
    rfl
  · refine ⟨.function, ?_, rfl⟩
    rw [scanExpression, scanName_append shape ends]
    rfl
  · refine ⟨.markupOpen, ?_, rfl⟩
    rw [scanExpression, scanName_append shape ends]
    rfl
  · refine ⟨.markupClose, ?_, rfl⟩
    rw [scanExpression_cons_of_ne (by simp), hyphen, if_neg (by simp), if_pos rfl,
      scanName_append shape ends]
    rfl

/-- Inside an expression a name without sign starts an option. No number starts where a name does,
so the scanners tried before leave it alone. -/
theorem scan_name {context : Context} {name rest : List Char} (inside : context.isExpression = true)
    (shape : isNameChars name = true) :
    context.scan (name ++ rest) = stay context (Lexeme.scanOption (name ++ rest)) := by
  obtain ⟨c, cs, rfl, start⟩ := exists_cons_of_isNameChars shape
  have other : ∀ d ∈ ['-', '}', '{', '$', ':', '+', '|'], c ≠ d :=
    forall_ne_of_kind start (by decide)
  rw [(isExpression_cases inside).1, List.cons_append,
    scanExpression_cons_of_ne (fun d member => other d (.tail _ member)),
    startsNumber_eq_false_of_isNameStart start, if_neg (by simp), if_neg (other _ (by simp)),
    if_pos start]

/-- The characters that spell a terminal are read as it, one case for each constructor of the
relation. -/
theorem scan_of_spells {context next : Context} {spelling rest : List Char} {terminal : Terminal}
    (spells : context.Spells spelling rest terminal next) :
    ∃ lexeme, context.scan (spelling ++ rest) = .ok (lexeme, next) ∧
      lexeme.terminal = terminal ∧ lexeme.spelling = spelling ∧ lexeme.rest = rest := by
  cases spells with
  | openOutside => exact ⟨_, rfl, rfl, rfl, rfl⟩
  | openInside => exact ⟨_, rfl, rfl, rfl, rfl⟩
  | closePattern => exact ⟨_, rfl, rfl, rfl, rfl⟩
  | closeExpression inside =>
      rw [(isExpression_cases inside).1]
      exact ⟨_, rfl, rfl, rfl, rfl⟩
  | text nonempty hidden stopped =>
      exact ⟨_, scan_text nonempty hidden stopped, rfl, rfl, rfl⟩
  | matchWord ends =>
      have shape : isNameChars MessageTemplate.matchWord.toList = true := by decide
      refine ⟨.verbatim .keyword (MessageTemplate.matchWord.toList, _), ?_, rfl, rfl, rfl⟩
      refine (scanOutside_name _ shape ends).trans ?_
      rw [if_pos (by decide)]
  | whenWord ends =>
      have shape : isNameChars MessageTemplate.whenWord.toList = true := by decide
      refine ⟨.verbatim .keyword (MessageTemplate.whenWord.toList, _), ?_, rfl, rfl, rfl⟩
      refine (scanOutside_name _ shape ends).trans ?_
      rw [if_neg (by decide), if_pos (by decide)]
  | catchAll => exact ⟨_, rfl, rfl, rfl, rfl⟩
  | bareKey shape ends notMatch notWhen =>
      refine ⟨.verbatim .literal (_, _), ?_, rfl, rfl, rfl⟩
      refine (scanOutside_name _ shape ends).trans ?_
      rw [if_neg notMatch, if_neg notWhen, if_pos rfl]
  | number literals start taken => exact ⟨_, scan_number literals start taken, rfl, rfl, rfl⟩
  | quoted literals hidden => exact ⟨_, scan_quoted literals hidden, rfl, rfl, rfl⟩
  | signed inside signs shape ends =>
      obtain ⟨kind, scanned, made⟩ := scan_signed inside signs shape ends
      exact ⟨_, scanned, made, rfl, rfl⟩
  | @option _ name gap gap' value _ inside shape nameEnds blank blank' gapEnds valueShape ends =>
      have scanned := scanOption_append shape nameEnds blank blank' gapEnds valueShape ends
      refine ⟨⟨.option, String.ofList (name ++ '=' :: value),
        name ++ gap ++ '=' :: gap' ++ value, rest⟩, ?_, rfl, rfl, rfl⟩
      simp only [List.append_assoc] at scanned ⊢
      rw [scan_name inside shape, scanned]
      rfl

/-! ### What is read was spelled -/

variable {context next : Context} {cs : List Char} {lexeme : Lexeme}

/-- What is scanned as a text spells one. -/
theorem spells_of_scanText {mode : Mode} {c : Char} (found : Lexeme.scanText (c :: cs) = .ok lexeme)
    (inside : c ≠ '{' ∧ c ≠ '}') :
    Spells ⟨.pattern, mode⟩ lexeme.spelling lexeme.rest lexeme.terminal ⟨.pattern, mode⟩ := by
  have nonempty := (Lexeme.splits_scanText found inside).nonempty
  unfold Lexeme.scanText at found
  split at found
  · rename_i split spanned
    obtain ⟨hidden, brace, rest, behind, _, stopped⟩ := Lexeme.hides_of_spanEscaped spanned
    cases found
    change Spells _ split.1 split.2 _ _
    rw [behind]
    exact .text nonempty hidden stopped
  · simp at found
  · simp at found

/-- What is scanned between bars spells a literal. -/
theorem spells_of_scanQuoted (found : Lexeme.scanQuoted '|' cs = .ok lexeme)
    (literals : context.readsLiterals = true) :
    context.Spells lexeme.spelling lexeme.rest lexeme.terminal context := by
  unfold Lexeme.scanQuoted at found
  split at found
  · rename_i inside close rest spanned
    obtain ⟨hidden, c, _, behind, _, stopped⟩ := Lexeme.hides_of_spanEscaped spanned
    obtain ⟨rfl, rfl⟩ := List.cons.inj behind
    cases found
    rw [decide_eq_true_eq] at stopped
    subst stopped
    exact .quoted literals hidden
  · simp at found

/-- What is scanned as a number spells a literal. -/
theorem spells_of_scanNumber (start : startsNumber cs = true)
    (literals : context.readsLiterals = true) :
    context.Spells (Lexeme.scanNumber cs).spelling (Lexeme.scanNumber cs).rest
      (Lexeme.scanNumber cs).terminal context := by
  have joined := spanNumber_append cs
  refine .number literals ?_ ?_
  · change startsNumber ((spanNumber cs).1 ++ (spanNumber cs).2) = true
    rw [joined, start]
  · change spanNumber ((spanNumber cs).1 ++ (spanNumber cs).2) = _
    rw [joined]
    rfl

/-- What is scanned behind a sign spells the terminal that the sign makes of the name. -/
theorem spells_of_scanName {kind : Token.Kind} {sign : Char}
    (found : Lexeme.scanName kind sign cs = .ok lexeme)
    (signs : signTerminal? sign = some (Terminal.ofKind kind))
    (inside : context.isExpression = true) :
    context.Spells lexeme.spelling lexeme.rest lexeme.terminal context := by
  unfold Lexeme.scanName at found
  split at found
  · simp at found
  · split at found
    · rename_i c rest start
      cases found
      exact .signed inside signs (isNameChars_spanName start rest) (endsRun_spanName _)
    · simp at found

/-- What is scanned as an option spells one. The value ends the name characters, and the blanks
around the sign are all that there are. -/
theorem spells_of_scanOption {c : Char} (found : Lexeme.scanOption (c :: cs) = .ok lexeme)
    (start : isNameStart c = true) (inside : context.isExpression = true) :
    context.Spells lexeme.spelling lexeme.rest lexeme.terminal context := by
  simp only [Lexeme.scanOption] at found
  split at found
  · rename_i afterEquals dropped
    split at found
    · rename_i valueShape
      cases found
      have nonempty : (spanName (afterEquals.dropWhile isBlank)).1 ≠ [] := by
        intro empty
        rw [empty] at valueShape
        simp [Lexeme.isOptionValue, isNameChars, isDigits] at valueShape
      have nameEnds := endsRun_spanName (c :: cs)
      rw [← List.takeWhile_append_dropWhile (p := isBlank) (l := (spanName (c :: cs)).2), dropped,
        List.append_cons, endsRun_append (by simp)] at nameEnds
      have gapEnds : EndsRun isBlank (afterEquals.dropWhile isBlank) := endsRun_dropWhile _
      rw [← spanName_append (afterEquals.dropWhile isBlank), endsRun_append nonempty] at gapEnds
      exact .option inside (isNameChars_spanName start cs) nameEnds
        (fun _ => List.mem_takeWhile_imp) (fun _ => List.mem_takeWhile_imp) gapEnds valueShape
        (endsRun_spanName _)
    · split at found <;> simp at found
  · simp at found

/-- What is scanned as a word spells a keyword or a key. -/
theorem spells_of_scanWord {mode : Mode} {c : Char}
    (found : scanWord mode (c :: cs) = .ok (lexeme, next)) (start : isNameStart c = true) :
    Spells ⟨.outside, mode⟩ lexeme.spelling lexeme.rest lexeme.terminal next := by
  have ends := endsRun_spanName (c :: cs)
  have shape := isNameChars_spanName start cs
  simp only [scanWord] at found
  split at found
  · rename_i word
    cases found
    have spelled : (spanName (c :: cs)).1 = matchWord.toList := by
      rw [← word, String.toList_ofList]
    change Spells _ (spanName (c :: cs)).1 _ (.keyword (String.ofList (spanName (c :: cs)).1)) _
    rw [spelled]
    exact .matchWord ends
  · rename_i notMatch
    split at found
    · rename_i word
      cases found
      have spelled : (spanName (c :: cs)).1 = whenWord.toList := by
        rw [← word, String.toList_ofList]
      change Spells _ (spanName (c :: cs)).1 _ (.keyword (String.ofList (spanName (c :: cs)).1)) _
      rw [spelled]
      exact .whenWord ends
    · rename_i notWhen
      split at found
      · rename_i keys
        subst keys
        cases found
        exact .bareKey shape ends notMatch notWhen
      · simp at found

/-- What is scanned outside all braces spells its terminal, the end of the input apart. The
characters are tried in the order of the scanner. -/
theorem spells_of_scanOutside {mode : Mode} (found : scanOutside mode cs = .ok (lexeme, next)) :
    lexeme.kind = .eof ∧ cs = [] ∨
      Spells ⟨.outside, mode⟩ lexeme.spelling lexeme.rest lexeme.terminal next := by
  unfold scanOutside at found
  split at found
  · cases found
    exact .inl ⟨rfl, rfl⟩
  · cases found
    exact .inr .openOutside
  · simp at found
  · right
    split at found
    · rename_i star
      obtain ⟨rfl, rfl⟩ := star
      obtain ⟨same, rfl⟩ := stay_eq_ok found
      cases same
      exact .catchAll
    · split at found
      · rename_i bar
        obtain ⟨rfl, rfl⟩ := bar
        obtain ⟨scanned, rfl⟩ := stay_eq_ok found
        exact spells_of_scanQuoted scanned rfl
      · split at found
        · rename_i start
          obtain ⟨rfl, start⟩ := start
          obtain ⟨same, rfl⟩ := stay_eq_ok found
          cases same
          exact spells_of_scanNumber start rfl
        · split at found
          · rename_i start
            exact spells_of_scanWord found start
          · simp at found

/-- What is scanned in an expression spells its terminal. A hyphen has two branches, for numbers and
for closing markup. -/
theorem spells_of_scanExpression (inside : context.isExpression = true)
    (found : scanExpression context context.closed cs = .ok (lexeme, next)) :
    context.Spells lexeme.spelling lexeme.rest lexeme.terminal next := by
  have literals : context.readsLiterals = true := by simp [readsLiterals, inside]
  unfold scanExpression at found
  split at found
  case h_2 =>
    cases found
    exact .closeExpression inside
  case h_4 =>
    obtain ⟨scanned, rfl⟩ := stay_eq_ok found
    exact spells_of_scanName scanned rfl inside
  case h_5 =>
    obtain ⟨scanned, rfl⟩ := stay_eq_ok found
    exact spells_of_scanName scanned rfl inside
  case h_6 =>
    obtain ⟨scanned, rfl⟩ := stay_eq_ok found
    exact spells_of_scanName scanned rfl inside
  case h_7 =>
    obtain ⟨scanned, rfl⟩ := stay_eq_ok found
    exact spells_of_scanQuoted scanned literals
  case h_8 =>
    split at found
    · rename_i start
      obtain ⟨same, rfl⟩ := stay_eq_ok found
      cases same
      exact spells_of_scanNumber start literals
    · split at found
      · rename_i hyphen
        subst hyphen
        obtain ⟨scanned, rfl⟩ := stay_eq_ok found
        exact spells_of_scanName scanned rfl inside
      · split at found
        · rename_i start
          obtain ⟨scanned, rfl⟩ := stay_eq_ok found
          exact spells_of_scanOption scanned start inside
        · simp at found
  all_goals simp at found

/-- The characters that are read as a lexeme spell its terminal, the end of the input apart. With
`scan_of_spells` the relation is exactly what the lexer reads. -/
theorem spells_of_scan (found : context.scan cs = .ok (lexeme, next)) :
    lexeme.kind = .eof ∧ context.region = .outside ∧ cs = [] ∨
      context.Spells lexeme.spelling lexeme.rest lexeme.terminal next := by
  obtain ⟨region, mode⟩ := context
  cases region with
  | outside =>
      rcases spells_of_scanOutside found with ⟨final, rfl⟩ | spells
      · exact .inl ⟨final, rfl, rfl⟩
      · exact .inr spells
  | pattern =>
      right
      change scanPattern mode cs = _ at found
      unfold scanPattern at found
      split at found
      · simp at found
      · cases found
        exact .openInside
      · cases found
        exact .closePattern
      · rename_i c cs notOpen notClose
        obtain ⟨scanned, rfl⟩ := stay_eq_ok found
        exact spells_of_scanText scanned ⟨notOpen, notClose⟩
  | loneExpression => exact .inr (spells_of_scanExpression rfl found)
  | innerExpression => exact .inr (spells_of_scanExpression rfl found)

end Context

end MessageTemplate
