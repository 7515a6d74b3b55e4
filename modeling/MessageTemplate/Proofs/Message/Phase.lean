import MessageTemplate.Proofs.Message.Acceptance

/-! # The phases of a message

Read token by token, a message passes through phases: which tokens can come next depends on the
phase alone, and so does the phase behind them. The phases are finitely many, since the grammar of
messages nests only so deep: an expression stands in a pattern, and a pattern in a variant.

From every phase some tokens lead on to the end of a message
(`MessageTemplate.Phase.exists_final_of_completion`).
-/

namespace MessageTemplate

/-- Where a pattern stands: it is the message, or it belongs to a variant. The two are read alike
and differ in what can follow. -/
inductive Home where
  | message
  | variant
  deriving DecidableEq, Repr

/-- Where an expression stands: it is the message, it belongs to a pattern, or it is a selector.
Again only what can follow differs. -/
inductive Frame where
  | message
  | element (home : Home)
  | selector
  deriving DecidableEq, Repr

/-- How far a message has been read. There are finitely many phases, each of which fixes the tokens
that can come next. -/
inductive Phase where
  | start
  /-- Behind an opening brace; the first one of a message may open a pattern or an expression. -/
  | brace (frame : Frame)
  /-- Behind the operand of an expression. -/
  | operand (frame : Frame)
  /-- Behind the function of an expression and some of its options. -/
  | function (frame : Frame)
  /-- In a pattern, behind an element or the opening brace. -/
  | elements (home : Home)
  /-- Behind the name of opening markup and some of its options. -/
  | opening (home : Home)
  /-- Behind the name of closing markup. -/
  | closing (home : Home)
  /-- Behind the keyword of a matcher. -/
  | matcher
  /-- Behind a selector. -/
  | selectors
  /-- Behind the keyword of a variant. -/
  | keyword
  /-- Behind a key of a variant. -/
  | keys
  /-- Behind a variant. -/
  | variants
  /-- Behind a message that is not a matcher. -/
  | whole
  /-- Behind the end of the input. -/
  | ended
  deriving DecidableEq, Repr

/-- The phase behind a pattern. -/
def Home.behind : Home → Phase
  | .message => .whole
  | .variant => .variants

/-- The phase behind an expression. -/
def Frame.behind : Frame → Phase
  | .message => .whole
  | .element home => .elements home
  | .selector => .selectors

namespace Phase

/-- The phase behind a token in a pattern. -/
def stepPattern (home : Home) (token : Token) : Option Phase :=
  match token.kind with
  | .text => some (.elements home)
  | .openBrace => some (.brace (.element home))
  | .closeBrace => some home.behind
  | _ => none

/-- The phase behind a token that starts no expression, where one can start. -/
def stepOther (frame : Frame) (token : Token) : Option Phase :=
  match frame with
  | .message => stepPattern .message token
  | .element home =>
    match token.kind with
    | .markupOpen => some (.opening home)
    | .markupClose => some (.closing home)
    | _ => none
  | .selector => none

/-- The phase behind the next token, if that token can come next. This is the grammar as a table:
what may follow depends on nothing but the phase. -/
def step (phase : Phase) (token : Token) : Option Phase :=
  match phase with
  | .start =>
    match token.kind with
    | .openBrace => some (.brace .message)
    | .keyword => if token.text = matchWord then some .matcher else none
    | _ => none
  | .brace frame =>
    match token.kind with
    | .variable | .literal => some (.operand frame)
    | .function => some (.function frame)
    | _ => stepOther frame token
  | .operand frame =>
    match token.kind with
    | .function => some (.function frame)
    | .closeBrace => some frame.behind
    | _ => none
  | .function frame =>
    match token.kind with
    | .option => some (.function frame)
    | .closeBrace => some frame.behind
    | _ => none
  | .elements home => stepPattern home token
  | .opening home =>
    match token.kind with
    | .option => some (.opening home)
    | .closeBrace => some (.elements home)
    | _ => none
  | .closing home => if token.kind = .closeBrace then some (.elements home) else none
  | .matcher => if token.kind = .openBrace then some (.brace .selector) else none
  | .selectors =>
    match token.kind with
    | .openBrace => some (.brace .selector)
    | .keyword => if token.text = whenWord then some .keyword else none
    | _ => none
  | .keyword => if token.kind = .literal then some .keys else none
  | .keys =>
    match token.kind with
    | .literal => some .keys
    | .openBrace => some (.elements .variant)
    | _ => none
  | .variants =>
    match token.kind with
    | .keyword => if token.text = whenWord then some .keyword else none
    | .eof => some .ended
    | _ => none
  | .whole => if token.kind = .eof then some .ended else none
  | .ended => some .ended

/-- The phase behind some tokens, if they can come next. -/
def run (phase : Phase) (tokens : List Token) : Option Phase := tokens.foldlM step phase

/-- The input can end in this phase. Behind the end of the input any tokens may follow, so that
phase is final too. -/
def isFinal : Phase → Bool
  | .variants | .whole | .ended => true
  | _ => false

section Run

variable {phase next reached : Phase} {token : Token} {tokens rest : List Token}

theorem run_append (phase : Phase) (front back : List Token) :
    phase.run (front ++ back) = phase.run front >>= (·.run back) :=
  List.foldlM_append

theorem run_cons (phase : Phase) (token : Token) (tokens : List Token) :
    phase.run (token :: tokens) = phase.step token >>= (·.run tokens) :=
  List.foldlM_cons

theorem run_append_of_eq_some {front : List Token} (through : phase.run front = some reached)
    (back : List Token) : phase.run (front ++ back) = reached.run back := by
  rw [run_append, through, Option.bind_eq_bind, Option.bind_some]

theorem run_cons_of_eq_some (taken : phase.step token = some next) (tokens : List Token) :
    phase.run (token :: tokens) = next.run tokens := by
  rw [run_cons, taken, Option.bind_eq_bind, Option.bind_some]

/-- No tokens lead through one that cannot come next. So a start that ends with such a token cannot
be completed. -/
theorem run_append_eq_none {front : List Token} (through : phase.run front = some reached)
    (stuck : reached.step token = none) (rest : List Token) :
    phase.run (front ++ token :: rest) = none := by
  rw [run_append_of_eq_some through, run_cons, stuck]
  rfl

/-- Behind the end of the input nothing matters. -/
theorem run_ended (tokens : List Token) : ended.run tokens = some ended := by
  induction tokens with
  | nil => rfl
  | cons token tokens ih => rw [run_cons_of_eq_some rfl, ih]

theorem step_of_isFinal (final : phase.isFinal = true) (kind : token.kind = .eof) :
    phase.step token = some .ended := by
  cases phase <;> simp_all [isFinal, step]

/-- From one phase with its tokens to another one with those that are left. It is the relation form
of `run`, in which a reader that consumes some of its tokens is easy to describe. -/
inductive Passes : Phase → List Token → Phase → List Token → Prop
  | refl (phase : Phase) (tokens : List Token) : Passes phase tokens phase tokens
  | step {phase next reached : Phase} {token : Token} {tokens rest : List Token}
      (taken : phase.step token = some next) (further : Passes next tokens reached rest) :
      Passes phase (token :: tokens) reached rest

theorem Passes.single (taken : phase.step token = some next) (tokens : List Token) :
    Passes phase (token :: tokens) next tokens :=
  .step taken (.refl next tokens)

theorem Passes.trans {middle : Phase} {between : List Token}
    (passes : Passes phase tokens middle between) (further : Passes middle between reached rest) :
    Passes phase tokens reached rest := by
  induction passes with
  | refl => exact further
  | step taken _ ih => exact .step taken (ih further)

/-- What is passed is a front of the tokens that leads from the one phase to the other. -/
theorem Passes.exists_front (passes : Passes phase tokens reached rest) :
    ∃ front, tokens = front ++ rest ∧ phase.run front = some reached := by
  induction passes with
  | refl => exact ⟨[], rfl, rfl⟩
  | step taken _ ih =>
      obtain ⟨front, rfl, found⟩ := ih
      exact ⟨_ :: front, rfl, (run_cons_of_eq_some taken front).trans found⟩

/-- Tokens of a kind that does not change the phase are passed over. -/
theorem Passes.dropWhile {kind : Token.Kind}
    (stays : ∀ token : Token, token.kind = kind → phase.step token = some phase)
    (tokens : List Token) : Passes phase tokens phase (tokens.dropWhile (·.kind = kind)) := by
  induction tokens with
  | nil => exact .refl _ _
  | cons token tokens ih =>
      by_cases same : token.kind = kind
      · rw [List.dropWhile_cons_of_pos (by simpa using same)]
        exact .step (stays token same) ih
      · rw [List.dropWhile_cons_of_neg (by simpa using same)]
        exact .refl _ _

end Run

/-! ### Completions -/

/-- The terminals of a variant, the least that has to follow the selectors of a matcher. -/
def someVariant : List Terminal := [.keyword whenWord, .literal "*", .openBrace, .closeBrace]

/-- What is left of a message behind one of its expressions. -/
def behindExpression : Frame → List Terminal
  | .message => []
  | .element _ => [.closeBrace]
  | .selector => someVariant

/-- Terminals that complete a message from a phase on. One way suffices for each phase. -/
def completion : Phase → List Terminal
  | .start => [.openBrace, .closeBrace]
  | .brace frame => .variable "x" :: .closeBrace :: behindExpression frame
  | .operand frame | .function frame => .closeBrace :: behindExpression frame
  | .elements _ => [.closeBrace]
  | .opening _ | .closing _ => [.closeBrace, .closeBrace]
  | .matcher => .openBrace :: .variable "x" :: .closeBrace :: someVariant
  | .selectors => someVariant
  | .keyword => [.literal "*", .openBrace, .closeBrace]
  | .keys => [.openBrace, .closeBrace]
  | .variants | .whole | .ended => []

theorem kind_of_mem_completion (phase : Phase) :
    ∀ terminal ∈ phase.completion, terminal.kind ≠ .error := by
  cases phase with
  | brace frame | operand frame | function frame =>
      cases frame <;> simp [completion, behindExpression, someVariant, Terminal.kind]
  | _ => simp [completion, someVariant, Terminal.kind]

/-- From every phase its completion leads to one in which the input can end. The phases are gone
through one by one. -/
theorem exists_final_of_completion (phase : Phase) :
    ∃ final, phase.run (phase.completion.map Terminal.token) = some final ∧
      final.isFinal = true := by
  have frames (frame : Frame) : ∃ final,
      frame.behind.run ((behindExpression frame).map Terminal.token) = some final ∧
        final.isFinal = true := by
    obtain _ | _ | _ := frame
    · exact ⟨.whole, rfl, rfl⟩
    · rename_i home
      cases home
      · exact ⟨.whole, rfl, rfl⟩
      · exact ⟨.variants, rfl, rfl⟩
    · exact ⟨.variants, rfl, rfl⟩
  cases phase with
  | start => exact ⟨.whole, rfl, rfl⟩
  | brace frame => exact frames frame
  | operand frame => exact frames frame
  | function frame => exact frames frame
  | elements home => cases home <;> exact ⟨_, rfl, rfl⟩
  | opening home => cases home <;> exact ⟨_, rfl, rfl⟩
  | closing home => cases home <;> exact ⟨_, rfl, rfl⟩
  | matcher => exact ⟨.variants, rfl, rfl⟩
  | selectors => exact ⟨.variants, rfl, rfl⟩
  | keyword => exact ⟨.variants, rfl, rfl⟩
  | keys => exact ⟨.variants, rfl, rfl⟩
  | variants => exact ⟨.variants, rfl, rfl⟩
  | whole => exact ⟨.whole, rfl, rfl⟩
  | ended => exact ⟨.ended, rfl, rfl⟩

end Phase

end MessageTemplate
