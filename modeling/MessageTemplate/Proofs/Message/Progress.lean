import MessageTemplate.Proofs.Message.Phase

/-! # Readers pass through phases

A reader takes the tokens that lead from one phase of a message to another, and where it fails, the
next token is one that cannot come next in the phase it has reached: from the readers of expressions
(`MessageTemplate.Reading.stuckAt_readExpression`) to the reader of messages
(`MessageTemplate.Reading.stuckAt_readMessage`). The end of the input counts as a token here, so
that a reader that runs out of tokens is no exception.
-/

namespace MessageTemplate

namespace Reading

open Phase

/-- A computation in two steps fails if one of the steps does. -/
theorem bind_eq_error {ε α β : Type} {first : Except ε α} {next : α → Except ε β} {error : ε} :
    first >>= next = .error error ↔
      first = .error error ∨ ∃ value, first = .ok value ∧ next value = .error error := by
  cases first <;> simp [bind, Except.bind]

theorem pure_ne_error {ε α : Type} {error : ε} {result : α} :
    (pure result : Except ε α) ≠ .error error := by
  simp [pure, Except.pure]

/-- Where the second step always succeeds, the first one fails. -/
theorem error_of_bind {ε α β : Type} {first : Except ε α} {next : α → Except ε β} {error : ε}
    (always : ∀ value, ∃ result, next value = .ok result) (failed : first >>= next = .error error) :
    first = .error error := by
  refine (bind_eq_error.mp failed).resolve_right ?_
  rintro ⟨value, _, failed⟩
  obtain ⟨result, read⟩ := always value
  simp [read] at failed

/-- The error is at the first token that cannot come next, some phases on. What the fault says of
the token is left open. -/
inductive StuckAt (stop : Token) (phase : Phase) (tokens : List Token) : Error → Prop
  | parse {reached : Phase} {rest : List Token} (passes : Passes phase tokens reached rest)
      (stuck : reached.step (peek stop rest) = none) (fault : GrammarFault) :
      StuckAt stop phase tokens (.parse (peek stop rest).offset fault)

variable {stop : Token} {tokens rest : List Token} {phase next : Phase} {error : Error}

theorem StuckAt.of_passes (passes : Passes phase tokens next rest)
    (stuck : StuckAt stop next rest error) : StuckAt stop phase tokens error := by
  obtain ⟨further, stuck, fault⟩ := stuck
  exact .parse (passes.trans further) stuck fault

/-- Two phases in which the next token does the same. Where the reading goes on from the one, it
goes on from the other to the same place. -/
theorem passes_of_step_eq (same : phase.step (peek stop tokens) = next.step (peek stop tokens))
    {reached : Phase} (other : phase ≠ reached) (passes : Passes phase tokens reached rest) :
    Passes next tokens reached rest := by
  cases passes with
  | refl => exact absurd rfl other
  | step taken further => exact .step (same ▸ taken) further

/-- Being stuck is a matter of what the next token does, so it can be told from another phase in
which this token does the same. -/
theorem StuckAt.of_step_eq (same : phase.step (peek stop tokens) = next.step (peek stop tokens))
    (stuck : StuckAt stop phase tokens error) : StuckAt stop next tokens error := by
  obtain ⟨passes, stuck, fault⟩ := stuck
  cases passes with
  | refl => exact .parse (.refl next tokens) (same ▸ stuck) fault
  | step taken further => exact .parse (.step (same ▸ taken) further) stuck fault

theorem stuckAt_here (stuck : phase.step (peek stop tokens) = none) (fault : GrammarFault) :
    StuckAt stop phase tokens (.parse (peek stop tokens).offset fault) :=
  .parse (.refl phase tokens) stuck fault

/-! ### The next token -/

section Peek

variable {kind : Token.Kind} (final : stop.kind = .eof) (visible : kind ≠ .eof)

include final visible

theorem peek_kind_ne (first : ∀ token ∈ tokens.head?, token.kind ≠ kind) :
    (peek stop tokens).kind ≠ kind := by
  cases tokens with
  | nil =>
      rw [peek, List.headD_nil, final]
      exact visible.symm
  | cons token tokens => exact first token rfl

/-- Where a token is expected and not found, another one is next, and the error names it. The end of
the input counts as one. -/
theorem peek_of_expect {expected : Expectation}
    (failed : expect stop kind expected tokens = .error error) :
    (peek stop tokens).kind ≠ kind ∧ error = unexpected stop expected tokens := by
  cases tokens with
  | nil => exact ⟨peek_kind_ne final visible (by simp), (Except.error.inj failed).symm⟩
  | cons token tokens =>
      rw [expect] at failed
      split at failed
      · simp at failed
      · rename_i other
        exact ⟨other, (Except.error.inj failed).symm⟩

theorem peek_dropWhile (tokens : List Token) :
    (peek stop (tokens.dropWhile (·.kind = kind))).kind ≠ kind := by
  refine peek_kind_ne final visible fun token next => ?_
  have other := List.head?_dropWhile_not (fun token : Token => decide (token.kind = kind)) tokens
  rw [next] at other
  simpa using other

end Peek

/-! ### Expressions -/

/-- What starts no expression does what the frame of the brace allows. In a message this is what a
pattern allows, and as a selector nothing. -/
theorem step_brace_of_not_startsExpression (frame : Frame) {token : Token}
    (other : ¬startsExpression token.kind = true) :
    (Phase.brace frame).step token = stepOther frame token := by
  simp only [step]
  split <;> simp_all [startsExpression]

/-- The phase behind the operand and the function that have been read. The reader of expressions
does not say which of them were there, so the phase is computed from what it gives. -/
def behindParts (frame : Frame) (operand : Option Operand) (function : Option Function) : Phase :=
  match operand, function with
  | _, some _ => .function frame
  | some _, none => .operand frame
  | none, none => .brace frame

/-- Reading an operand leads behind it, or nowhere when there is none. -/
theorem passes_readOperand (frame : Frame) {operand : Option Operand}
    (read : readOperand tokens = (operand, rest)) :
    Passes (.brace frame) tokens (behindParts frame operand none) rest := by
  unfold readOperand at read
  split at read
  · cases read
    exact .refl _ _
  · split at read
    · rename_i kind
      cases read
      exact .single (by simp [step, behindParts, kind]) _
    · rename_i kind
      cases read
      exact .single (by simp [step, behindParts, kind]) _
    · cases read
      exact .refl _ _

/-- Reading a function leads behind it and its options, or nowhere when there is none. -/
theorem passes_readFunction (frame : Frame) (operand : Option Operand) {function : Option Function}
    (read : readFunction tokens = (function, rest)) :
    Passes (behindParts frame operand none) tokens (behindParts frame operand function) rest := by
  unfold readFunction at read
  split at read
  · cases read
    exact .refl _ _
  · split at read
    · rename_i token tokens kind
      cases read
      have taken : (behindParts frame operand none).step token = some (.function frame) := by
        cases operand <;> simp [step, behindParts, kind]
      have stays (token : Token) (kind : token.kind = .option) :
          (Phase.function frame).step token = some (.function frame) := by simp [step, kind]
      exact .step taken (.dropWhile stays tokens)
    · cases read
      exact .refl _ _

/-- Behind a part of an expression a brace can close it. -/
theorem step_behindParts_closeBrace (frame : Frame) {expression : Expression}
    (filled : expression.isEmpty = false) {token : Token} (kind : token.kind = .closeBrace) :
    (behindParts frame expression.operand expression.function).step token = some frame.behind := by
  obtain ⟨operand, function⟩ := expression
  cases function with
  | some function => simp [behindParts, step, kind]
  | none =>
      cases operand with
      | some operand => simp [behindParts, step, kind]
      | none => simp [Expression.isEmpty] at filled

theorem passes_readExpression (frame : Frame) {expression : Expression}
    (read : readExpression stop tokens = .ok (expression, rest)) :
    Passes (.brace frame) tokens frame.behind rest := by
  obtain ⟨middle, behind, first, second, filled, closed⟩ := readExpression_eq_ok_iff.mp read
  obtain ⟨token, rfl, kind⟩ := expect_eq_ok_iff.mp closed
  have parts := (passes_readOperand frame first).trans
    (passes_readFunction frame expression.operand second)
  exact parts.trans (.single (step_behindParts_closeBrace frame filled kind) rest)

section Stuck

variable (final : stop.kind = .eof)

include final

theorem peek_of_readOperand (read : readOperand tokens = (none, rest)) :
    (peek stop tokens).kind ≠ .variable ∧ (peek stop tokens).kind ≠ .literal := by
  cases tokens with
  | nil => simp [peek, final]
  | cons token tokens =>
      rw [readOperand] at read
      split at read
      · simp at read
      · simp at read
      · rename_i notVariable notLiteral
        exact ⟨notVariable, notLiteral⟩

/-- Where no function is read, none is next, and behind a function no option is left. -/
theorem peek_of_readFunction {function : Option Function}
    (read : readFunction tokens = (function, rest)) :
    (peek stop rest).kind ≠ if function.isSome then .option else .function := by
  cases tokens with
  | nil =>
      cases read
      simp [peek, final]
  | cons token tokens =>
      rw [readFunction] at read
      split at read
      · cases read
        exact peek_dropWhile final (by decide) tokens
      · rename_i other
        cases read
        exact other

/-- Behind an operand or a function, only what belongs to the function or closes the expression can
come next. -/
theorem step_behindParts_eq_none (frame : Frame) {operand : Option Operand}
    {function : Option Function} (read : readFunction tokens = (function, rest))
    (some : operand.isSome ∨ function.isSome)
    (open' : (peek stop rest).kind ≠ .closeBrace) :
    (behindParts frame operand function).step (peek stop rest) = none := by
  have other := peek_of_readFunction final read
  cases function with
  | some function =>
      simp only [behindParts, step]
      split <;> simp_all
  | none =>
      cases operand with
      | some operand =>
          simp only [behindParts, step]
          split <;> simp_all
      | none => simp at some

/-- Reading an expression fails at a token that cannot come next, unless the first token starts
something else. -/
theorem stuckAt_readExpression (frame : Frame)
    (nothingElse : ¬startsExpression (peek stop tokens).kind = true →
      stepOther frame (peek stop tokens) = none)
    (failed : readExpression stop tokens = .error error) :
    StuckAt stop (.brace frame) tokens error := by
  obtain ⟨operand, middle, first⟩ : ∃ operand middle, readOperand tokens = (operand, middle) :=
    ⟨_, _, rfl⟩
  obtain ⟨function, behind, second⟩ : ∃ function behind,
      readFunction middle = (function, behind) := ⟨_, _, rfl⟩
  simp only [readExpression, first, second] at failed
  by_cases some : operand.isSome ∨ function.isSome
  · refine .of_passes ((passes_readOperand frame first).trans
      (passes_readFunction frame operand second)) ?_
    have stuck := step_behindParts_eq_none final frame second some
    split at failed
    · rename_i misplaced
      cases failed
      exact stuckAt_here (stuck (by simp [misplaced.2])) _
    · split at failed
      · rename_i none
        simp [Option.isNone_iff_eq_none.mp none.1, Option.isNone_iff_eq_none.mp none.2] at some
      · have unclosed := error_of_bind (fun _ => ⟨_, rfl⟩) failed
        obtain ⟨other, rfl⟩ := peek_of_expect final (by decide) unclosed
        exact stuckAt_here (stuck other) _
  · obtain ⟨rfl, rfl⟩ : operand = none ∧ function = none := by simpa using some
    obtain rfl := readOperand_none first
    obtain rfl := readFunction_none second
    have other : ¬startsExpression (peek stop behind).kind = true := by
      obtain ⟨notVariable, notLiteral⟩ := peek_of_readOperand final first
      have notFunction := peek_of_readFunction final second
      simp_all [startsExpression]
    have stuck : (Phase.brace frame).step (peek stop behind) = none :=
      (step_brace_of_not_startsExpression frame other).trans (nothingElse other)
    split at failed
    · cases failed
      exact stuckAt_here stuck _
    · split at failed
      · split at failed
        · cases failed
          exact stuckAt_here stuck _
        · cases failed
          exact stuckAt_here stuck _
      · rename_i none
        simp at none

end Stuck

/-! ### Patterns -/

/-- Opening markup goes on through its options. -/
theorem passes_opening (home : Home) {token : Token} (kind : token.kind = .markupOpen)
    (tokens : List Token) : Passes (.brace (.element home)) (token :: tokens) (.opening home)
      (tokens.dropWhile (·.kind = .option)) := by
  have stays (token : Token) (kind : token.kind = .option) :
      (Phase.opening home).step token = some (.opening home) := by simp [step, kind]
  exact .step (by simp [step, stepOther, kind]) (.dropWhile stays tokens)

theorem passes_closing (home : Home) {token : Token} (kind : token.kind = .markupClose)
    (tokens : List Token) :
    Passes (.brace (.element home)) (token :: tokens) (.closing home) tokens :=
  .single (by simp [step, stepOther, kind]) tokens

/-- Reading an element leads back into the pattern. -/
theorem passes_readElement (home : Home) {node : Node}
    (read : readElement stop tokens = .ok (node, rest)) :
    Passes (.brace (.element home)) tokens (.elements home) rest := by
  unfold readElement at read
  split at read
  · obtain ⟨⟨expression, _⟩, inner, made⟩ := bind_eq_ok.mp read
    cases made
    exact passes_readExpression (.element home) inner
  · rename_i token tokens
    split at read
    · rename_i kind
      obtain ⟨_, closed, made⟩ := bind_eq_ok.mp read
      cases made
      obtain ⟨last, behind, kind'⟩ := expect_eq_ok_iff.mp closed
      refine (passes_opening home kind tokens).trans ?_
      rw [behind]
      exact .single (by simp [step, kind']) rest
    · rename_i kind
      obtain ⟨_, closed, made⟩ := bind_eq_ok.mp read
      cases made
      obtain ⟨last, rfl, kind'⟩ := expect_eq_ok_iff.mp closed
      exact (passes_closing home kind _).trans (.single (by simp [step, kind']) rest)
    · obtain ⟨⟨expression, _⟩, inner, made⟩ := bind_eq_ok.mp read
      cases made
      exact passes_readExpression (.element home) inner

/-- Reading a pattern leads behind its closing brace. The induction follows the recursion of the
reader. -/
theorem passes_readPattern (home : Home) {nodes : List Node}
    (read : readPattern stop tokens = .ok (nodes, rest)) :
    Passes (.elements home) tokens home.behind rest := by
  fun_induction readPattern stop tokens generalizing nodes with
  | case1 => simp at read
  | case2 token tokens kind ih =>
      obtain ⟨⟨_, _⟩, inner, made⟩ := bind_eq_ok.mp read
      cases made
      exact .step (by simp [step, stepPattern, kind]) (ih inner)
  | case3 => simp at read
  | case4 token tokens kind node after element _ ih =>
      obtain ⟨⟨_, _⟩, inner, made⟩ := bind_eq_ok.mp read
      cases made
      exact .step (by simp [step, stepPattern, kind])
        ((passes_readElement home element).trans (ih inner))
  | case5 token tokens kind =>
      cases read
      exact .single (by simp [step, stepPattern, kind]) _
  | case6 => simp at read

section Stuck

variable (final : stop.kind = .eof)

include final

/-- Where reading an element fails, it is stuck: in markup at what is no brace, in an expression as
that lemma says. -/
theorem stuckAt_readElement (home : Home) (failed : readElement stop tokens = .error error) :
    StuckAt stop (.brace (.element home)) tokens error := by
  unfold readElement at failed
  split at failed
  · have inner := error_of_bind (fun _ => ⟨_, rfl⟩) failed
    refine stuckAt_readExpression final (.element home) (fun _ => ?_) inner
    simp [stepOther, peek, final]
  · rename_i token tokens
    split at failed
    · rename_i kind
      refine .of_passes (passes_opening home kind tokens) ?_
      have unclosed := error_of_bind (fun _ => ⟨_, rfl⟩) failed
      obtain ⟨other, rfl⟩ := peek_of_expect final (by decide) unclosed
      have notOption : (peek stop (tokens.dropWhile (·.kind = .option))).kind ≠ .option :=
        peek_dropWhile final (by decide) tokens
      exact stuckAt_here (by simp only [step]) _
    · rename_i kind
      refine .of_passes (passes_closing home kind tokens) ?_
      have unclosed := error_of_bind (fun _ => ⟨_, rfl⟩) failed
      obtain ⟨other, rfl⟩ := peek_of_expect final (by decide) unclosed
      exact stuckAt_here (by simp [step, other]) _
    · rename_i notOpening notClosing
      have inner := error_of_bind (fun _ => ⟨_, rfl⟩) failed
      refine stuckAt_readExpression final (.element home) (fun _ => ?_) inner
      simp only [peek, List.headD_cons, stepOther]

/-- Where reading a pattern fails, it is stuck at some element or at what cannot stand in a
pattern. -/
theorem stuckAt_readPattern (home : Home) (failed : readPattern stop tokens = .error error) :
    StuckAt stop (.elements home) tokens error := by
  fun_induction readPattern stop tokens with
  | case1 =>
      cases failed
      exact stuckAt_here (by simp [step, stepPattern, peek, final]) _
  | case2 token tokens kind ih =>
      have inner := error_of_bind (fun _ => ⟨_, rfl⟩) failed
      exact .of_passes (.single (by simp [step, stepPattern, kind]) _) (ih inner)
  | case3 token tokens kind inner element =>
      cases failed
      exact .of_passes (.single (by simp [step, stepPattern, kind]) _)
        (stuckAt_readElement final home element)
  | case4 token tokens kind node after element _ ih =>
      have inner := error_of_bind (fun _ => ⟨_, rfl⟩) failed
      refine .of_passes (.step (by simp [step, stepPattern, kind])
        (passes_readElement home element)) (ih inner)
  | case5 => simp at failed
  | case6 token tokens notText notOpening notClosing =>
      cases failed
      exact stuckAt_here (by simp only [peek, List.headD_cons, step, stepPattern]) _

end Stuck

/-! ### Matchers -/

/-- The keys of a variant, of which there is one at least. -/
theorem passes_keys (nonempty : ¬(tokens.takeWhile (·.kind = .literal)).isEmpty = true) :
    Passes .keyword tokens .keys (tokens.dropWhile (·.kind = .literal)) := by
  have stays (token : Token) (kind : token.kind = .literal) : keys.step token = some .keys := by
    simp [step, kind]
  cases tokens with
  | nil => simp at nonempty
  | cons token tokens =>
      by_cases kind : token.kind = .literal
      · rw [List.dropWhile_cons_of_pos (by simpa using kind)]
        exact .step (by simp [step, kind]) (.dropWhile stays tokens)
      · rw [List.takeWhile_cons_of_neg (by simpa using kind)] at nonempty
        exact absurd rfl nonempty

theorem passes_readVariant {variant : Variant}
    (read : readVariant stop tokens = .ok (variant, rest)) :
    Passes .keyword tokens .variants rest := by
  simp only [readVariant] at read
  split at read
  · simp at read
  · rename_i nonempty
    obtain ⟨body, opened, read⟩ := bind_eq_ok.mp read
    obtain ⟨⟨nodes, _⟩, inner, made⟩ := bind_eq_ok.mp read
    cases made
    obtain ⟨brace, behind, kind⟩ := expect_eq_ok_iff.mp opened
    refine (passes_keys nonempty).trans ?_
    rw [behind]
    exact .step (by simp [step, kind]) (passes_readPattern .variant inner)

/-- A selector can come next. This holds behind the keyword of a matcher and behind a selector,
which are different phases. -/
def OpensSelector (phase : Phase) : Prop :=
  ∀ token : Token, token.kind = .openBrace → phase.step token = some (.brace .selector)

theorem opensSelector_matcher : OpensSelector .matcher := fun token kind => by simp [step, kind]

theorem opensSelector_selectors : OpensSelector .selectors := fun token kind => by
  simp [step, kind]

/-- A variant can come next. This holds behind the selectors and behind a variant. -/
def OpensVariant (phase : Phase) : Prop :=
  ∀ token : Token, token.kind = .keyword → token.text = whenWord →
    phase.step token = some .keyword

theorem opensVariant_selectors : OpensVariant .selectors := fun token kind text => by
  simp [step, kind, text]

theorem opensVariant_variants : OpensVariant .variants := fun token kind text => by
  simp [step, kind, text]

/-- Either there is no variant and nothing is passed over, or there are some. The phase in front is
a parameter, since the reader calls itself behind each variant. -/
theorem passes_readVariants {variants : List Variant}
    (opens : OpensVariant phase) (read : readVariants stop tokens = .ok (variants, rest)) :
    variants = [] ∧ rest = tokens ∨ variants ≠ [] ∧ Passes phase tokens .variants rest := by
  fun_induction readVariants stop tokens generalizing phase variants with
  | case1 =>
      cases read
      exact .inl ⟨rfl, rfl⟩
  | case2 => simp at read
  | case3 token tokens word variant after found _ ih =>
      obtain ⟨⟨others, _⟩, inner, made⟩ := bind_eq_ok.mp read
      cases made
      have first := Passes.step (opens token word.1 word.2) (passes_readVariant found)
      refine .inr ⟨List.cons_ne_nil _ _, ?_⟩
      rcases ih opensVariant_variants inner with ⟨_, rfl⟩ | ⟨_, further⟩
      · exact first
      · exact first.trans further
  | case4 =>
      cases read
      exact .inl ⟨rfl, rfl⟩

/-- Either there is no selector and nothing is passed over, or there are some. -/
theorem passes_readSelectors {selectors : List Expression}
    (opens : OpensSelector phase) (read : readSelectors stop tokens = .ok (selectors, rest)) :
    selectors = [] ∧ rest = tokens ∨ selectors ≠ [] ∧ Passes phase tokens .selectors rest := by
  fun_induction readSelectors stop tokens generalizing phase selectors with
  | case1 =>
      cases read
      exact .inl ⟨rfl, rfl⟩
  | case2 => simp at read
  | case3 token tokens kind selector after found _ ih =>
      obtain ⟨⟨others, _⟩, inner, made⟩ := bind_eq_ok.mp read
      cases made
      have first := Passes.step (opens token kind) (passes_readExpression .selector found)
      refine .inr ⟨List.cons_ne_nil _ _, ?_⟩
      rcases ih opensSelector_selectors inner with ⟨_, rfl⟩ | ⟨_, further⟩
      · exact first
      · exact first.trans further
  | case4 =>
      cases read
      exact .inl ⟨rfl, rfl⟩

theorem passes_readMatcher {matcher : Matcher}
    (read : readMatcher stop tokens = .ok (matcher, rest)) :
    Passes .matcher tokens .variants rest := by
  obtain ⟨middle, first, hasSelector, second, hasVariant⟩ := readMatcher_eq_ok_iff.mp read
  rcases passes_readSelectors opensSelector_matcher first with ⟨none, _⟩ | ⟨_, selectors⟩
  · exact absurd none hasSelector
  · rcases passes_readVariants opensVariant_selectors second with ⟨none, _⟩ | ⟨_, variants⟩
    · exact absurd none hasVariant
    · exact selectors.trans variants

/-- Behind the first brace of a message, what starts no expression goes on like a pattern. The phase
of the brace leaves both possibilities open. -/
theorem step_elements_message {token : Token} (other : ¬startsExpression token.kind = true) :
    (Phase.elements .message).step token = (Phase.brace .message).step token :=
  (step_brace_of_not_startsExpression .message other).symm

section Stuck

variable (final : stop.kind = .eof)

include final

/-- Where reading a variant fails, it is stuck: at what is no key, at what opens no body, or in the
body. -/
theorem stuckAt_readVariant (failed : readVariant stop tokens = .error error) :
    StuckAt stop .keyword tokens error := by
  simp only [readVariant] at failed
  split at failed
  · rename_i empty
    cases failed
    have other : (peek stop (tokens.dropWhile (·.kind = .literal))).kind ≠ .literal :=
      peek_dropWhile final (by decide) tokens
    have same : tokens.dropWhile (·.kind = .literal) = tokens := by
      conv => rhs; rw [← tokens.takeWhile_append_dropWhile (p := (·.kind = .literal))]
      rw [List.isEmpty_iff.mp empty, List.nil_append]
    rw [same] at other ⊢
    exact stuckAt_here (by simp [step, other]) _
  · rename_i nonempty
    refine .of_passes (passes_keys nonempty) ?_
    rcases bind_eq_error.mp failed with unopened | ⟨body, opened, failed⟩
    · obtain ⟨other, rfl⟩ := peek_of_expect final (by decide) unopened
      have notLiteral : (peek stop (tokens.dropWhile (·.kind = .literal))).kind ≠ .literal :=
        peek_dropWhile final (by decide) tokens
      exact stuckAt_here (by simp only [step]) _
    · obtain ⟨brace, behind, kind⟩ := expect_eq_ok_iff.mp opened
      rw [behind]
      have inner := error_of_bind (fun _ => ⟨_, rfl⟩) failed
      exact .of_passes (.single (by simp [step, kind]) _)
        (stuckAt_readPattern final .variant inner)

/-- Where reading variants fails, it is stuck in one of them. -/
theorem stuckAt_readVariants (opens : OpensVariant phase)
    (failed : readVariants stop tokens = .error error) : StuckAt stop phase tokens error := by
  fun_induction readVariants stop tokens generalizing phase with
  | case1 => simp at failed
  | case2 token tokens word inner found =>
      cases failed
      exact .of_passes (.single (opens token word.1 word.2) _) (stuckAt_readVariant final found)
  | case3 token tokens word variant after found _ ih =>
      have inner := error_of_bind (fun _ => ⟨_, rfl⟩) failed
      exact .of_passes (.step (opens token word.1 word.2) (passes_readVariant found))
        (ih opensVariant_variants inner)
  | case4 => simp at failed

theorem stuckAt_readSelectors (opens : OpensSelector phase)
    (failed : readSelectors stop tokens = .error error) : StuckAt stop phase tokens error := by
  fun_induction readSelectors stop tokens generalizing phase with
  | case1 => simp at failed
  | case2 token tokens kind inner found =>
      cases failed
      exact .of_passes (.single (opens token kind) _)
        (stuckAt_readExpression final .selector (fun _ => rfl) found)
  | case3 token tokens kind selector after found _ ih =>
      have inner := error_of_bind (fun _ => ⟨_, rfl⟩) failed
      exact .of_passes (.step (opens token kind) (passes_readExpression .selector found))
        (ih opensSelector_selectors inner)
  | case4 => simp at failed

theorem peek_of_readSelectors {selectors : List Expression}
    (read : readSelectors stop tokens = .ok (selectors, rest)) :
    (peek stop rest).kind ≠ .openBrace := by
  fun_induction readSelectors stop tokens generalizing selectors with
  | case1 =>
      cases read
      simp [peek, final]
  | case2 => simp at read
  | case3 token tokens kind selector after found _ ih =>
      obtain ⟨⟨others, _⟩, inner, made⟩ := bind_eq_ok.mp read
      cases made
      exact ih inner
  | case4 token tokens other =>
      cases read
      exact other

theorem peek_of_readVariants {variants : List Variant}
    (read : readVariants stop tokens = .ok (variants, rest)) :
    ¬((peek stop rest).kind = .keyword ∧ (peek stop rest).text = whenWord) := by
  fun_induction readVariants stop tokens generalizing variants with
  | case1 =>
      cases read
      simp [peek, final]
  | case2 => simp at read
  | case3 token tokens word variant after found _ ih =>
      obtain ⟨⟨others, _⟩, inner, made⟩ := bind_eq_ok.mp read
      cases made
      exact ih inner
  | case4 token tokens other =>
      cases read
      exact other

/-- Where reading a matcher fails, it is stuck: in a selector or at the lack of one, in a variant or
at the lack of one. -/
theorem stuckAt_readMatcher (failed : readMatcher stop tokens = .error error) :
    StuckAt stop .matcher tokens error := by
  rcases bind_eq_error.mp failed with first | ⟨⟨selectors, middle⟩, first, failed'⟩
  · exact stuckAt_readSelectors final opensSelector_matcher first
  have notSelector := peek_of_readSelectors final first
  dsimp only at failed'
  rcases passes_readSelectors opensSelector_matcher first with ⟨rfl, rfl⟩ | ⟨some, passes⟩
  · -- without a selector the next token does not open one
    rw [if_pos List.isEmpty_nil] at failed'
    rcases bind_eq_error.mp failed' with thrown | ⟨_, thrown, _⟩
    · cases thrown
      exact stuckAt_here (by simp [step, notSelector]) _
    · exact absurd thrown throw_ne_ok
  · rw [if_neg (by rwa [List.isEmpty_iff])] at failed'
    refine .of_passes passes ?_
    rcases bind_eq_error.mp failed' with second | ⟨⟨variants, behind⟩, second, failed''⟩
    · exact stuckAt_readVariants final opensVariant_selectors second
    have notVariant := peek_of_readVariants final second
    dsimp only at failed''
    rcases passes_readVariants opensVariant_selectors second with ⟨rfl, rfl⟩ | ⟨some, _⟩
    · -- without a variant the next token opens neither a variant nor another selector
      rw [if_pos List.isEmpty_nil] at failed''
      cases failed''
      have stuck : Phase.selectors.step (peek stop behind) = none := by
        simp only [step]
        split <;> simp_all
      exact stuckAt_here stuck _
    · rw [if_neg (by rwa [List.isEmpty_iff])] at failed''
      exact absurd failed'' pure_ne_error

/-! ### Messages -/

theorem peek_of_readMatcher {matcher : Matcher}
    (read : readMatcher stop tokens = .ok (matcher, rest)) :
    ¬((peek stop rest).kind = .keyword ∧ (peek stop rest).text = whenWord) := by
  obtain ⟨_, _, _, second, _⟩ := readMatcher_eq_ok_iff.mp read
  exact peek_of_readVariants final second

/-- Behind a message only the end of the input can come next. A further variant would have been read
as part of it. -/
theorem passes_readMessage {message : Message}
    (read : readMessage stop tokens = .ok (message, rest)) :
    ∃ reached, Passes .start tokens reached rest ∧ reached.isFinal = true ∧
      reached.step (peek stop rest) =
        if (peek stop rest).kind = .eof then some .ended else none := by
  unfold readMessage at read
  split at read
  · simp at read
  · rename_i token tokens
    split at read
    · rename_i kind
      have opened : Passes .start (token :: tokens) (.brace .message) tokens :=
        .single (by simp [step, kind]) tokens
      split at read
      · obtain ⟨⟨expression, _⟩, inner, made⟩ := bind_eq_ok.mp read
        cases made
        exact ⟨.whole, opened.trans (passes_readExpression .message inner), rfl, rfl⟩
      · rename_i notExpression
        have pattern := passes_of_step_eq (step_elements_message notExpression)
          (by simp [Home.behind]) (passes_readPattern .message read)
        exact ⟨.whole, opened.trans pattern, rfl, rfl⟩
    · rename_i kind
      split at read
      · rename_i word
        obtain ⟨⟨matcher, _⟩, inner, made⟩ := bind_eq_ok.mp read
        cases made
        have opened : Passes .start (token :: tokens) .matcher tokens :=
          .single (by simp [step, kind, word]) tokens
        refine ⟨.variants, opened.trans (passes_readMatcher inner), rfl, ?_⟩
        have notVariant := peek_of_readMatcher final inner
        simp only [step]
        split <;> simp_all
      · simp at read
    · simp at read
    · simp at read

/-- Where reading a message fails, it is stuck. Whether an expression or a pattern was tried is
decided by the token behind the first brace, and in both cases the phases agree. -/
theorem stuckAt_readMessage (failed : readMessage stop tokens = .error error) :
    StuckAt stop .start tokens error := by
  unfold readMessage at failed
  split at failed
  · cases failed
    exact stuckAt_here (by simp [step, peek, final]) _
  · rename_i token tokens
    have here (stuck : Phase.start.step token = none) (fault : GrammarFault) :
        StuckAt stop .start (token :: tokens) (.parse token.offset fault) :=
      stuckAt_here stuck fault
    split at failed
    · rename_i kind
      have opened : Passes .start (token :: tokens) (.brace .message) tokens :=
        .single (by simp [step, kind]) tokens
      refine .of_passes opened ?_
      split at failed
      · rename_i starts
        have inner := error_of_bind (fun _ => ⟨_, rfl⟩) failed
        exact stuckAt_readExpression final .message (fun other => absurd starts other) inner
      · rename_i notExpression
        exact (stuckAt_readPattern final .message failed).of_step_eq
          (step_elements_message notExpression)
    · rename_i kind
      split at failed
      · rename_i word
        have inner := error_of_bind (fun _ => ⟨_, rfl⟩) failed
        exact .of_passes (.single (by simp [step, kind, word]) tokens)
          (stuckAt_readMatcher final inner)
      · rename_i word
        cases failed
        exact here (by simp [step, kind, word]) _
    · rename_i kind
      cases failed
      exact here (by simp [step, kind]) _
    · rename_i notBrace notKeyword _
      cases failed
      exact here (by simp only [step]) _

end Stuck

end Reading

end MessageTemplate
