import MessageTemplate.Message.Reading
import MessageTemplate.Proofs.Token.Segment

/-! # The grammar of messages

A message is derived from terminals: it is an expression in braces, a pattern or a matcher, and
so on down to options. The readers of messages take exactly the terminals that derive what they
give: each has a lemma that what it gives is derived (`_sound`) and one that what is derived is
given (`_complete`).
-/

namespace MessageTemplate

namespace Grammar

/-- Derive one item after the other. Options, elements, selectors and variants are all sequences of
this form, so their lemmas are proved once. -/
inductive Sequence {α : Type} (derives : List Terminal → α → Prop) :
    List Terminal → List α → Prop
  | nil : Sequence derives [] []
  | cons {front back : List Terminal} {item : α} {items : List α} (first : derives front item)
      (others : Sequence derives back items) : Sequence derives (front ++ back) (item :: items)

/-- An option is derived from one terminal, whose text is split at its equals sign. -/
inductive DerivesOption : List Terminal → NamedOption → Prop
  | source (source : String) : DerivesOption [.option source] (.ofSource source)

/-- An operand is derived from a variable or a literal. -/
inductive DerivesOperand : List Terminal → Operand → Prop
  | variable (name : String) : DerivesOperand [.variable name] (.variable name)
  | literal (value : String) : DerivesOperand [.literal value] (.literal value)

/-- A function is derived from its name and the options behind it. -/
inductive DerivesFunction : List Terminal → Function → Prop
  | named (name : String) {inside : List Terminal} {options : List NamedOption}
      (derives : Sequence DerivesOption inside options) :
      DerivesFunction (.function name :: inside) ⟨name, options⟩

/-- An expression without its braces. It has an operand, a function, or both in this order, and is
never empty. -/
inductive DerivesExpression : List Terminal → Expression → Prop
  | operand {front : List Terminal} {operand : Operand} (derives : DerivesOperand front operand) :
      DerivesExpression front ⟨some operand, none⟩
  | function {back : List Terminal} {function : Function}
      (derives : DerivesFunction back function) : DerivesExpression back ⟨none, some function⟩
  | both {front back : List Terminal} {operand : Operand} {function : Function}
      (first : DerivesOperand front operand) (second : DerivesFunction back function) :
      DerivesExpression (front ++ back) ⟨some operand, some function⟩

/-- An expression in its braces, as it stands in a pattern, as a selector or alone. -/
inductive DerivesBraced : List Terminal → Expression → Prop
  | braces {inside : List Terminal} {expression : Expression}
      (derives : DerivesExpression inside expression) :
      DerivesBraced (.openBrace :: (inside ++ [.closeBrace])) expression

/-- An element of a pattern. Closing markup has no options in the grammar, and a matcher is no
element. -/
inductive DerivesElement : List Terminal → Node → Prop
  | text (value : String) : DerivesElement [.text value] (.text value)
  | expression {terminals : List Terminal} {expression : Expression}
      (derives : DerivesBraced terminals expression) :
      DerivesElement terminals (.expression expression)
  | opening (name : String) {inside : List Terminal} {options : List NamedOption}
      (derives : Sequence DerivesOption inside options) :
      DerivesElement (.openBrace :: .markupOpen name :: (inside ++ [.closeBrace]))
        (.markup ⟨.opening, name, options⟩)
  | closing (name : String) :
      DerivesElement [.openBrace, .markupClose name, .closeBrace] (.markup ⟨.closing, name, []⟩)

/-- A pattern is derived from elements in braces. They may be none. -/
inductive DerivesPattern : List Terminal → List Node → Prop
  | braces {inside : List Terminal} {nodes : List Node}
      (derives : Sequence DerivesElement inside nodes) :
      DerivesPattern (.openBrace :: (inside ++ [.closeBrace])) nodes

/-- A variant is derived from its keyword, keys and a pattern. There is at least one key, whatever
the number of selectors. -/
inductive DerivesVariant : List Terminal → Variant → Prop
  | keyed {keys : List String} {terminals : List Terminal} {nodes : List Node}
      (nonempty : keys ≠ []) (derives : DerivesPattern terminals nodes) :
      DerivesVariant (.keyword whenWord :: (keys.map .literal ++ terminals)) ⟨keys, nodes⟩

/-- A matcher is derived from its keyword, selectors and variants, at least one of each. -/
inductive DerivesMatcher : List Terminal → Matcher → Prop
  | choice {front back : List Terminal} {selectors : List Expression} {variants : List Variant}
      (hasSelector : selectors ≠ []) (first : Sequence DerivesBraced front selectors)
      (hasVariant : variants ≠ []) (second : Sequence DerivesVariant back variants) :
      DerivesMatcher (.keyword matchWord :: (front ++ back)) ⟨selectors, variants⟩

/-- A message is derived as an expression, as a pattern or as a matcher. No terminals derive a
message in two of these ways, but this is not needed here. -/
inductive DerivesMessage : List Terminal → Message → Prop
  | expression {terminals : List Terminal} {expression : Expression}
      (derives : DerivesBraced terminals expression) :
      DerivesMessage terminals [.expression expression]
  | pattern {terminals : List Terminal} {nodes : List Node}
      (derives : DerivesPattern terminals nodes) : DerivesMessage terminals nodes
  | matcher {terminals : List Terminal} {matcher : Matcher}
      (derives : DerivesMatcher terminals matcher) : DerivesMessage terminals [.matcher matcher]

end Grammar

/-! ### Terminals and tokens -/

/-- The kind of the tokens that have a terminal. -/
def Terminal.kind : Terminal → Token.Kind
  | .eof => .eof
  | .error _ => .error
  | .text _ => .text
  | .variable _ => .variable
  | .function _ => .function
  | .literal _ => .literal
  | .keyword _ => .keyword
  | .option _ => .option
  | .openBrace => .openBrace
  | .closeBrace => .closeBrace
  | .markupOpen _ => .markupOpen
  | .markupClose _ => .markupClose

/-- The text of a terminal, for those that have one. Tokens of the other kinds may have any text
without being told apart. -/
def Terminal.text? : Terminal → Option String
  | .eof | .openBrace | .closeBrace => none
  | .error shown | .text shown | .variable shown | .function shown | .literal shown
  | .keyword shown | .option shown | .markupOpen shown | .markupClose shown => some shown

/-- A token has a terminal when it has its kind and its text. The readers look at kinds and texts,
the grammar at terminals. -/
theorem Token.terminal_eq_iff {token : Token} {terminal : Terminal} :
    token.terminal = terminal ↔
      token.kind = terminal.kind ∧ ∀ shown ∈ terminal.text?, token.text = shown := by
  obtain ⟨kind, text, offset, level⟩ := token
  cases kind <;> cases terminal <;> simp [Token.terminal, Terminal.ofKind, Terminal.kind,
    Terminal.text?]

/-! ### Options, operands and functions -/

namespace Reading

open Grammar

variable {stop : Token} {tokens rest : List Token} {terminals following : List Terminal}

theorem expect_eq_ok_iff {kind : Token.Kind} {expected : Expectation} :
    expect stop kind expected tokens = .ok rest ↔
      ∃ token, tokens = token :: rest ∧ token.kind = kind := by
  cases tokens with
  | nil => simp [expect]
  | cons token tokens =>
      simp only [expect]
      split <;> simp_all

/-- A closing brace is consumed where one is expected. Its text does not matter, since its terminal
has none. -/
theorem expect_closeBrace {expected : Expectation} :
    expect stop .closeBrace expected tokens = .ok rest ↔
      ∃ token, tokens = token :: rest ∧ token.terminal = .closeBrace := by
  simp only [expect_eq_ok_iff, Token.terminal_eq_iff]
  simp [Terminal.kind, Terminal.text?]

/-- Where a terminal is expected, the token that has it is next. The lemmas on completeness start
with this step. -/
theorem exists_cons_of_terminals {terminal : Terminal}
    (same : tokens.map Token.terminal = terminal :: following) :
    ∃ token rest, tokens = token :: rest ∧ token.kind = terminal.kind ∧
      (∀ shown ∈ terminal.text?, token.text = shown) ∧ rest.map Token.terminal = following := by
  obtain ⟨token, rest, rfl, first, others⟩ := List.map_eq_cons_iff.mp same
  obtain ⟨kind, text⟩ := Token.terminal_eq_iff.mp first
  exact ⟨token, rest, rfl, kind, text, others⟩

/-- Options are read token by token, which is the form that induction needs. -/
theorem readOptions_cons (token : Token) (tokens : List Token) :
    readOptions (token :: tokens) =
      if token.kind = .option then
        (.ofSource token.text :: (readOptions tokens).1, (readOptions tokens).2)
      else ([], token :: tokens) := by
  by_cases kind : token.kind = .option
  · simp [readOptions, kind]
  · simp [readOptions, kind]

/-- Options that are read are derived from the terminals in front of the rest. -/
theorem readOptions_sound (tokens : List Token) :
    ∃ terminals, Sequence DerivesOption terminals (readOptions tokens).1 ∧
      tokens.map Token.terminal = terminals ++ (readOptions tokens).2.map Token.terminal := by
  induction tokens with
  | nil => exact ⟨[], .nil, rfl⟩
  | cons token tokens ih =>
      rw [readOptions_cons]
      split
      · rename_i kind
        obtain ⟨terminals, derives, same⟩ := ih
        refine ⟨.option token.text :: terminals, .cons (.source token.text) derives, ?_⟩
        rw [List.map_cons, same, Token.terminal, kind]
        rfl
      · exact ⟨[], .nil, rfl⟩

/-- Options that are derived are read, when no further option follows. -/
theorem readOptions_complete {options : List NamedOption}
    (derives : Sequence DerivesOption terminals options)
    (same : tokens.map Token.terminal = terminals ++ following)
    (ends : ∀ source, following.head? ≠ some (.option source)) :
    ∃ rest, readOptions tokens = (options, rest) ∧ rest.map Token.terminal = following := by
  induction derives generalizing tokens with
  | nil =>
      refine ⟨tokens, ?_, same⟩
      cases tokens with
      | nil => rfl
      | cons token tokens =>
          rw [readOptions_cons, if_neg]
          intro kind
          refine ends token.text ?_
          rw [List.nil_append] at same
          rw [← same, List.map_cons, List.head?_cons, Option.some_inj, Token.terminal_eq_iff]
          simp [kind, Terminal.kind, Terminal.text?]
  | cons first others ih =>
      obtain ⟨source⟩ := first
      obtain ⟨token, inner, rfl, kind, text, same⟩ := exists_cons_of_terminals same
      obtain ⟨rest, read, behind⟩ := ih same
      refine ⟨rest, ?_, behind⟩
      rw [Terminal.kind] at kind
      rw [readOptions_cons, if_pos kind, read, text source rfl]

theorem readOperand_sound {operand : Operand} (read : readOperand tokens = (some operand, rest)) :
    ∃ terminals, DerivesOperand terminals operand ∧
      tokens.map Token.terminal = terminals ++ rest.map Token.terminal := by
  unfold readOperand at read
  split at read
  · simp at read
  · rename_i token tokens
    split at read
    · rename_i kind
      obtain ⟨made, rfl⟩ := Prod.mk.inj read
      cases made
      refine ⟨_, .variable token.text, ?_⟩
      rw [List.map_cons, Token.terminal, kind]
      rfl
    · rename_i kind
      obtain ⟨made, rfl⟩ := Prod.mk.inj read
      cases made
      refine ⟨_, .literal token.text, ?_⟩
      rw [List.map_cons, Token.terminal, kind]
      rfl
    · simp at read

theorem readOperand_none (read : readOperand tokens = (none, rest)) : rest = tokens := by
  unfold readOperand at read
  split at read
  · exact (Prod.mk.inj read).2.symm
  · split at read <;> simp_all

theorem readOperand_complete {operand : Operand} (derives : DerivesOperand terminals operand)
    (same : tokens.map Token.terminal = terminals ++ following) :
    ∃ rest, readOperand tokens = (some operand, rest) ∧ rest.map Token.terminal = following := by
  obtain name | value := derives
  all_goals
    obtain ⟨token, rest, rfl, kind, text, behind⟩ := exists_cons_of_terminals same
    refine ⟨rest, ?_, behind⟩
    simp [readOperand, kind, Terminal.kind, text _ rfl]

theorem readFunction_sound {function : Function}
    (read : readFunction tokens = (some function, rest)) :
    ∃ terminals, DerivesFunction terminals function ∧
      tokens.map Token.terminal = terminals ++ rest.map Token.terminal := by
  unfold readFunction at read
  split at read
  · simp at read
  · rename_i token tokens
    split at read
    · rename_i kind
      obtain ⟨made, rfl⟩ := Prod.mk.inj read
      cases made
      obtain ⟨terminals, derives, same⟩ := readOptions_sound tokens
      refine ⟨_, .named token.text derives, ?_⟩
      rw [List.map_cons, same, Token.terminal, kind]
      rfl
    · simp at read

theorem readFunction_none (read : readFunction tokens = (none, rest)) : rest = tokens := by
  unfold readFunction at read
  split at read
  · exact (Prod.mk.inj read).2.symm
  · split at read
    · simp at read
    · exact (Prod.mk.inj read).2.symm

theorem readFunction_complete {function : Function} (derives : DerivesFunction terminals function)
    (same : tokens.map Token.terminal = terminals ++ following)
    (ends : ∀ source, following.head? ≠ some (.option source)) :
    ∃ rest, readFunction tokens = (some function, rest) ∧ rest.map Token.terminal = following := by
  cases derives with
  | named name derives =>
      obtain ⟨token, inner, rfl, kind, text, same⟩ := exists_cons_of_terminals same
      obtain ⟨rest, read, behind⟩ := readOptions_complete derives same ends
      refine ⟨rest, ?_, behind⟩
      rw [Terminal.kind] at kind
      simp only [readFunction, if_pos kind, read, text name rfl]

end Reading

end MessageTemplate
