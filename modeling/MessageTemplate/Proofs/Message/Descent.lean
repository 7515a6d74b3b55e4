import MessageTemplate.Proofs.Message.Grammar

/-! # Reading is deriving

The readers of expressions, patterns and matchers take exactly the terminals that derive what they
give. A template is parsed to a message if and only if its segments derive the message
(`MessageTemplate.Message.parse_eq_ok_iff`), so that nothing behind this file looks at a reader.
-/

namespace MessageTemplate

namespace Grammar

variable {terminals front back : List Terminal}

/-- An expression starts with a variable, a function or a literal. The reader of messages looks at
this token to tell an expression from a pattern. -/
theorem DerivesExpression.exists_cons {expression : Expression}
    (derives : DerivesExpression terminals expression) :
    ∃ first others, terminals = first :: others ∧ Reading.startsExpression first.kind = true := by
  obtain ⟨⟨⟩⟩ | ⟨⟨⟩⟩ | ⟨⟨⟩, _⟩ := derives <;> exact ⟨_, _, rfl, rfl⟩

/-! ### Derived terminals go on -/

/-- What holds of the terminals of each item holds of those of the whole sequence. It is used to see
that a derivation has no end of the input in it. -/
theorem Sequence.forall_mem {α : Type} {derives : List Terminal → α → Prop} {items : List α}
    {holds : Terminal → Prop} (sequence : Sequence derives terminals items)
    (each : ∀ front item, derives front item → ∀ terminal ∈ front, holds terminal) :
    ∀ terminal ∈ terminals, holds terminal := by
  induction sequence with
  | nil => simp
  | cons first _ ih => exact List.forall_mem_append.mpr ⟨each _ _ first, ih⟩

theorem isLast_eq_false_of_options {options : List NamedOption}
    (derives : Sequence DerivesOption terminals options) :
    ∀ terminal ∈ terminals, terminal.isLast = false := by
  refine derives.forall_mem fun front option first => ?_
  obtain ⟨source⟩ := first
  exact List.forall_mem_singleton.mpr rfl

theorem isLast_eq_false_of_braces (inside : ∀ terminal ∈ terminals, terminal.isLast = false) :
    ∀ terminal ∈ .openBrace :: (terminals ++ [.closeBrace]), terminal.isLast = false := by
  rw [List.forall_mem_cons, List.forall_mem_append, List.forall_mem_singleton]
  exact ⟨rfl, inside, rfl⟩

theorem DerivesBraced.isLast_eq_false {expression : Expression}
    (derives : DerivesBraced terminals expression) :
    ∀ terminal ∈ terminals, terminal.isLast = false := by
  obtain ⟨derives⟩ := derives
  refine isLast_eq_false_of_braces ?_
  have named (name : String) {inside : List Terminal} {options : List NamedOption}
      (derives : Sequence DerivesOption inside options) :
      ∀ terminal ∈ .function name :: inside, terminal.isLast = false :=
    List.forall_mem_cons.mpr ⟨rfl, isLast_eq_false_of_options derives⟩
  obtain ⟨⟨⟩⟩ | ⟨name, options⟩ | ⟨⟨⟩, ⟨name, options⟩⟩ := derives
  · exact List.forall_mem_singleton.mpr rfl
  · exact List.forall_mem_singleton.mpr rfl
  · exact named name options
  · exact List.forall_mem_cons.mpr ⟨rfl, named name options⟩
  · exact List.forall_mem_cons.mpr ⟨rfl, named name options⟩

theorem DerivesPattern.isLast_eq_false {nodes : List Node}
    (derives : DerivesPattern terminals nodes) :
    ∀ terminal ∈ terminals, terminal.isLast = false := by
  obtain ⟨derives⟩ := derives
  refine isLast_eq_false_of_braces (derives.forall_mem fun front node first => ?_)
  obtain value | braced | ⟨name, options⟩ | name := first
  · exact List.forall_mem_singleton.mpr rfl
  · exact braced.isLast_eq_false
  · have inside := isLast_eq_false_of_options options
    exact isLast_eq_false_of_braces (List.forall_mem_cons.mpr ⟨rfl, inside⟩)
  · exact isLast_eq_false_of_braces (List.forall_mem_singleton.mpr rfl)

theorem DerivesVariant.isLast_eq_false {variant : Variant}
    (derives : DerivesVariant terminals variant) :
    ∀ terminal ∈ terminals, terminal.isLast = false := by
  obtain ⟨_, derives⟩ := derives
  rw [List.forall_mem_cons, List.forall_mem_append, List.forall_mem_map]
  exact ⟨rfl, fun _ _ => rfl, derives.isLast_eq_false⟩

/-- No message is derived through the end of the input or an error. So what is derived ends before
the first such token. -/
theorem DerivesMessage.isLast_eq_false {message : Message}
    (derives : DerivesMessage terminals message) :
    ∀ terminal ∈ terminals, terminal.isLast = false := by
  obtain derives | derives | ⟨_, selectors, _, variants⟩ := derives
  · exact derives.isLast_eq_false
  · exact derives.isLast_eq_false
  · have front := selectors.forall_mem fun _ _ derives => derives.isLast_eq_false
    have back := variants.forall_mem fun _ _ derives => derives.isLast_eq_false
    rw [List.forall_mem_cons, List.forall_mem_append]
    exact ⟨rfl, front, back⟩

end Grammar

namespace Reading

open Grammar

variable {stop : Token} {tokens rest : List Token} {terminals following : List Terminal}

/-! ### Expressions -/

/-- When an expression is read, step by step: its operand, its function, that one of the two is
there, and the closing brace. The branches that only choose an error are gone here. -/
theorem readExpression_eq_ok_iff {expression : Expression} :
    readExpression stop tokens = .ok (expression, rest) ↔
      ∃ middle behind, readOperand tokens = (expression.operand, middle) ∧
        readFunction middle = (expression.function, behind) ∧ expression.isEmpty = false ∧
          expect stop .closeBrace .expressionEnd behind = .ok rest := by
  obtain ⟨operand, function⟩ := expression
  obtain ⟨operand', middle, first⟩ : ∃ operand' middle, readOperand tokens = (operand', middle) :=
    ⟨_, _, rfl⟩
  obtain ⟨function', behind, second⟩ : ∃ function' behind,
      readFunction middle = (function', behind) := ⟨_, _, rfl⟩
  simp only [readExpression, first, second, Prod.mk.injEq]
  constructor
  · intro read
    split at read
    · simp at read
    · split at read
      · split at read <;> simp at read
      · rename_i filled
        obtain ⟨after, closed, made⟩ := bind_eq_ok.mp read
        cases made
        refine ⟨middle, behind, ⟨rfl, rfl⟩, second ▸ rfl, ?_, closed⟩
        rw [Expression.isEmpty, ← Bool.not_eq_true, Bool.and_eq_true]
        exact filled
  · rintro ⟨_, _, ⟨rfl, rfl⟩, same, filled, closed⟩
    rw [second, Prod.mk.injEq] at same
    obtain ⟨rfl, rfl⟩ := same
    obtain ⟨token, ahead, kind⟩ := expect_eq_ok_iff.mp closed
    rw [Expression.isEmpty, ← Bool.not_eq_true, Bool.and_eq_true] at filled
    rw [if_neg (by simp [ahead, peek, kind]), if_neg filled]
    exact bind_eq_ok.mpr ⟨rest, closed, rfl⟩

/-- An expression that is read is derived from the terminals in front of its closing brace. This
lemma and the next are the two halves of every later proof that a reader agrees with the grammar. -/
theorem readExpression_sound {expression : Expression}
    (read : readExpression stop tokens = .ok (expression, rest)) :
    ∃ terminals, DerivesExpression terminals expression ∧
      tokens.map Token.terminal = terminals ++ .closeBrace :: rest.map Token.terminal := by
  obtain ⟨middle, behind, first, second, filled, closed⟩ := readExpression_eq_ok_iff.mp read
  obtain ⟨token, rfl, final⟩ := expect_closeBrace.mp closed
  obtain ⟨operand, function⟩ := expression
  cases operand with
  | none =>
      rw [readOperand_none first] at second
      cases function with
      | none => simp [Expression.isEmpty] at filled
      | some function =>
          obtain ⟨terminals, derives, same⟩ := readFunction_sound second
          exact ⟨terminals, .function derives, by rw [same, List.map_cons, final]⟩
  | some operand =>
      obtain ⟨front, derives, same⟩ := readOperand_sound first
      cases function with
      | none =>
          rw [← readFunction_none second, List.map_cons, final] at same
          exact ⟨front, .operand derives, same⟩
      | some function =>
          obtain ⟨back, derives', same'⟩ := readFunction_sound second
          refine ⟨front ++ back, .both derives derives', ?_⟩
          rw [same, same', List.map_cons, final, List.append_assoc]

/-- An expression that the terminals in front of a closing brace derive is read from them. -/
theorem readExpression_complete {expression : Expression}
    (derives : DerivesExpression terminals expression)
    (same : tokens.map Token.terminal = terminals ++ .closeBrace :: following) :
    ∃ rest, readExpression stop tokens = .ok (expression, rest) ∧
      rest.map Token.terminal = following := by
  have closing {behind : List Token}
      (ahead : behind.map Token.terminal = .closeBrace :: following) :
      ∃ rest, expect stop .closeBrace .expressionEnd behind = .ok rest ∧
        rest.map Token.terminal = following := by
    obtain ⟨token, rest, rfl, final, others⟩ := List.map_eq_cons_iff.mp ahead
    exact ⟨rest, expect_closeBrace.mpr ⟨token, rfl, final⟩, others⟩
  cases derives with
  | operand derives =>
      obtain ⟨middle, first, ahead⟩ := readOperand_complete derives same
      obtain ⟨rest, closed, others⟩ := closing ahead
      refine ⟨rest, readExpression_eq_ok_iff.mpr ⟨_, _, first, ?_, rfl, closed⟩, others⟩
      obtain ⟨token, inner, rfl, kind, _⟩ := exists_cons_of_terminals ahead
      simp [readFunction, kind, Terminal.kind]
  | function derives =>
      obtain ⟨behind, second, ahead⟩ := readFunction_complete derives same (by simp)
      obtain ⟨rest, closed, others⟩ := closing ahead
      refine ⟨rest, readExpression_eq_ok_iff.mpr ⟨_, _, ?_, second, rfl, closed⟩, others⟩
      obtain ⟨name, _⟩ := derives
      obtain ⟨token, inner, rfl, kind, _⟩ := exists_cons_of_terminals same
      simp [readOperand, kind, Terminal.kind]
  | both derives derives' =>
      rw [List.append_assoc] at same
      obtain ⟨middle, first, ahead⟩ := readOperand_complete derives same
      obtain ⟨behind, second, ahead⟩ := readFunction_complete derives' ahead (by simp)
      obtain ⟨rest, closed, others⟩ := closing ahead
      exact ⟨rest, readExpression_eq_ok_iff.mpr ⟨_, _, first, second, rfl, closed⟩, others⟩

/-! ### Patterns -/

theorem readElement_sound {node : Node} (read : readElement stop tokens = .ok (node, rest)) :
    ∃ terminals, DerivesElement (.openBrace :: terminals) node ∧
      tokens.map Token.terminal = terminals ++ rest.map Token.terminal := by
  have expression {tokens : List Token} {result : Expression × List Token}
      (found : readExpression stop tokens = .ok result)
      (made : pure (.expression result.1, result.2) = Except.ok (ε := Error) (node, rest)) :
      ∃ terminals, DerivesElement (.openBrace :: terminals) node ∧
        tokens.map Token.terminal = terminals ++ rest.map Token.terminal := by
    cases made
    obtain ⟨terminals, derives, same⟩ := readExpression_sound found
    exact ⟨_, .expression (.braces derives), by simp [same]⟩
  unfold readElement at read
  split at read
  · obtain ⟨result, inner, made⟩ := bind_eq_ok.mp read
    exact expression inner made
  · rename_i token tokens
    split at read
    · rename_i kind
      obtain ⟨after, closed, made⟩ := bind_eq_ok.mp read
      cases made
      obtain ⟨terminals, derives, same⟩ := readOptions_sound tokens
      obtain ⟨last, behind, final⟩ := expect_closeBrace.mp closed
      refine ⟨_, .opening token.text derives, ?_⟩
      have behind : (readOptions tokens).2 = last :: rest := behind
      rw [List.map_cons, same, behind, List.map_cons, final, Token.terminal, kind]
      simp [Terminal.ofKind]
    · rename_i kind
      obtain ⟨after, closed, made⟩ := bind_eq_ok.mp read
      cases made
      obtain ⟨last, rfl, final⟩ := expect_closeBrace.mp closed
      refine ⟨_, .closing token.text, ?_⟩
      rw [List.map_cons, List.map_cons, final, Token.terminal, kind]
      rfl
    · obtain ⟨result, inner, made⟩ := bind_eq_ok.mp read
      exact expression inner made

/-- An element that is derived is read behind its brace, by cases on its kind. -/
theorem readElement_complete {node : Node} (derives : DerivesElement (.openBrace :: terminals) node)
    (same : tokens.map Token.terminal = terminals ++ following) :
    ∃ rest, readElement stop tokens = .ok (node, rest) ∧ rest.map Token.terminal = following := by
  cases derives with
  | expression derives =>
      obtain ⟨derives⟩ := derives
      obtain ⟨first, others, rfl, starts⟩ := derives.exists_cons
      obtain ⟨token, inner, rfl, kind, _⟩ := exists_cons_of_terminals same
      rw [List.append_assoc] at same
      obtain ⟨rest, read, behind⟩ := @readExpression_complete stop _ _ _ _ derives same
      refine ⟨rest, ?_, behind⟩
      rw [← kind, startsExpression] at starts
      rw [readElement]
      dsimp only
      split
      · rename_i markup
        simp [markup] at starts
      · rename_i markup
        simp [markup] at starts
      · exact bind_eq_ok.mpr ⟨_, read, rfl⟩
  | opening name derives =>
      simp only [List.cons_append, List.append_assoc] at same
      obtain ⟨token, inner, rfl, kind, text, same⟩ := exists_cons_of_terminals same
      obtain ⟨behind, read, ahead⟩ := readOptions_complete derives same (by simp)
      obtain ⟨last, rest, rfl, final, others⟩ := List.map_eq_cons_iff.mp ahead
      refine ⟨rest, ?_, others⟩
      rw [Terminal.kind] at kind
      simp only [readElement, kind, read, text name rfl]
      exact bind_eq_ok.mpr ⟨rest, expect_closeBrace.mpr ⟨last, rfl, final⟩, rfl⟩
  | closing name =>
      obtain ⟨token, inner, rfl, kind, text, same⟩ := exists_cons_of_terminals same
      obtain ⟨last, rest, rfl, final, others⟩ := List.map_eq_cons_iff.mp same
      refine ⟨rest, ?_, others⟩
      rw [Terminal.kind] at kind
      simp only [readElement, kind, text name rfl]
      exact bind_eq_ok.mpr ⟨rest, expect_closeBrace.mpr ⟨last, rfl, final⟩, rfl⟩

/-- The nodes of a pattern that is read are derived one after the other. The induction follows the
recursion of the reader. -/
theorem readPattern_sound {nodes : List Node} (read : readPattern stop tokens = .ok (nodes, rest)) :
    ∃ terminals, Sequence DerivesElement terminals nodes ∧
      tokens.map Token.terminal = terminals ++ .closeBrace :: rest.map Token.terminal := by
  fun_induction readPattern stop tokens generalizing nodes with
  | case1 => simp at read
  | case2 token tokens kind ih =>
      obtain ⟨result, inner, made⟩ := bind_eq_ok.mp read
      cases made
      obtain ⟨terminals, derives, same⟩ := ih inner
      refine ⟨_, .cons (.text token.text) derives, ?_⟩
      rw [List.map_cons, same, Token.terminal, kind]
      rfl
  | case3 => simp at read
  | case4 token tokens kind node after element _ ih =>
      obtain ⟨result, inner, made⟩ := bind_eq_ok.mp read
      cases made
      obtain ⟨front, first, same⟩ := readElement_sound element
      obtain ⟨back, others, same'⟩ := ih inner
      refine ⟨_, .cons first others, ?_⟩
      rw [List.map_cons, same, same', Token.terminal, kind]
      simp [Terminal.ofKind]
  | case5 token tokens kind =>
      cases read
      exact ⟨[], .nil, by rw [List.map_cons, Token.terminal, kind]; rfl⟩
  | case6 => simp at read

/-- Nodes that are derived in front of a closing brace are read as a pattern, by induction on their
derivation. -/
theorem readPattern_complete {nodes : List Node}
    (derives : Sequence DerivesElement terminals nodes)
    (same : tokens.map Token.terminal = terminals ++ .closeBrace :: following) :
    ∃ rest, readPattern stop tokens = .ok (nodes, rest) ∧ rest.map Token.terminal = following := by
  induction derives generalizing tokens with
  | nil =>
      obtain ⟨token, rest, rfl, kind, _, behind⟩ := exists_cons_of_terminals same
      refine ⟨rest, ?_, behind⟩
      rw [Terminal.kind] at kind
      rw [readPattern]
      simp only [kind]
  | @cons front back node nodes first others ih =>
      obtain ⟨inside, rfl⟩ | ⟨value, rfl, rfl⟩ : (∃ inside, front = .openBrace :: inside) ∨
          ∃ value, front = [.text value] ∧ node = .text value := by
        obtain value | ⟨⟨_⟩⟩ | _ | _ := first
        · exact .inr ⟨value, rfl, rfl⟩
        all_goals exact .inl ⟨_, rfl⟩
      · rw [List.append_assoc] at same
        obtain ⟨token, inner, rfl, kind, _, same⟩ := exists_cons_of_terminals same
        obtain ⟨middle, element, ahead⟩ := @readElement_complete stop _ _ _ _ first same
        obtain ⟨rest, read, behind⟩ := ih ahead
        refine ⟨rest, ?_, behind⟩
        rw [Terminal.kind] at kind
        rw [readPattern]
        simp only [kind]
        split
        · simp_all
        · rename_i node' after found
          rw [element, Except.ok.injEq, Prod.mk.injEq] at found
          obtain ⟨rfl, rfl⟩ := found
          exact bind_eq_ok.mpr ⟨_, read, rfl⟩
      · obtain ⟨token, inner, rfl, kind, text, same⟩ := exists_cons_of_terminals same
        obtain ⟨rest, read, behind⟩ := ih same
        refine ⟨rest, ?_, behind⟩
        rw [Terminal.kind] at kind
        rw [readPattern]
        simp only [kind, text value rfl]
        exact bind_eq_ok.mpr ⟨_, read, rfl⟩

/-! ### Matchers -/

theorem readSelectors_sound {selectors : List Expression}
    (read : readSelectors stop tokens = .ok (selectors, rest)) :
    ∃ terminals, Sequence DerivesBraced terminals selectors ∧
      tokens.map Token.terminal = terminals ++ rest.map Token.terminal := by
  fun_induction readSelectors stop tokens generalizing selectors with
  | case1 =>
      cases read
      exact ⟨[], .nil, rfl⟩
  | case2 => simp at read
  | case3 token tokens kind selector after expression _ ih =>
      obtain ⟨result, inner, made⟩ := bind_eq_ok.mp read
      cases made
      obtain ⟨front, first, same⟩ := readExpression_sound expression
      obtain ⟨back, others, same'⟩ := ih inner
      refine ⟨_, .cons (.braces first) others, ?_⟩
      rw [List.map_cons, same, same', Token.terminal, kind]
      simp [Terminal.ofKind]
  | case4 =>
      cases read
      exact ⟨[], .nil, rfl⟩

/-- Selectors that are derived are read. No brace may follow, since the reader goes on as long as
braces open. -/
theorem readSelectors_complete {selectors : List Expression}
    (derives : Sequence DerivesBraced terminals selectors)
    (same : tokens.map Token.terminal = terminals ++ following)
    (ends : following.head? ≠ some .openBrace) :
    ∃ rest, readSelectors stop tokens = .ok (selectors, rest) ∧
      rest.map Token.terminal = following := by
  induction derives generalizing tokens with
  | nil =>
      refine ⟨tokens, ?_, same⟩
      cases tokens with
      | nil => rw [readSelectors]
      | cons token tokens =>
          rw [readSelectors, if_neg]
          intro kind
          refine ends ?_
          rw [List.nil_append] at same
          rw [← same, List.map_cons, Token.terminal, kind]
          rfl
  | cons first others ih =>
      obtain ⟨inside⟩ := first
      simp only [List.cons_append, List.append_assoc] at same
      obtain ⟨token, inner, rfl, kind, _, same⟩ := exists_cons_of_terminals same
      obtain ⟨middle, expression, ahead⟩ := @readExpression_complete stop _ _ _ _ inside same
      obtain ⟨rest, read, behind⟩ := ih ahead
      refine ⟨rest, ?_, behind⟩
      rw [Terminal.kind] at kind
      rw [readSelectors, if_pos kind]
      split
      · simp_all
      · rename_i selector after found
        rw [expression, Except.ok.injEq, Prod.mk.injEq] at found
        obtain ⟨rfl, rfl⟩ := found
        exact bind_eq_ok.mpr ⟨_, read, rfl⟩

/-- The keys in front of a variant are its literals. Their texts are all that the grammar keeps of
them. -/
theorem map_terminal_takeWhile (tokens : List Token) :
    (tokens.takeWhile (·.kind = .literal)).map Token.terminal =
      ((tokens.takeWhile (·.kind = .literal)).map (·.text)).map .literal := by
  rw [List.map_map]
  apply List.map_congr_left
  intro token member
  have kind : token.kind = .literal := by simpa using List.mem_takeWhile_imp member
  rw [Token.terminal, kind]
  rfl

theorem takeWhile_of_map_eq {keys : List String}
    (same : tokens.map Token.terminal = keys.map .literal ++ .openBrace :: following) :
    (tokens.takeWhile (·.kind = .literal)).map (·.text) = keys ∧
      (tokens.dropWhile (·.kind = .literal)).map Token.terminal = .openBrace :: following := by
  induction keys generalizing tokens with
  | nil =>
      obtain ⟨token, inner, rfl, kind, _⟩ := exists_cons_of_terminals same
      rw [Terminal.kind] at kind
      simpa [kind] using same
  | cons key keys ih =>
      obtain ⟨token, inner, rfl, kind, text, same⟩ := exists_cons_of_terminals same
      rw [Terminal.kind] at kind
      obtain ⟨first, second⟩ := ih same
      simp [kind, text key rfl, first, second]

theorem readVariant_sound {variant : Variant}
    (read : readVariant stop tokens = .ok (variant, rest)) :
    ∃ terminals, DerivesVariant (.keyword whenWord :: terminals) variant ∧
      tokens.map Token.terminal = terminals ++ rest.map Token.terminal := by
  simp only [readVariant] at read
  split at read
  · simp at read
  · rename_i nonempty
    obtain ⟨body, opened, read⟩ := bind_eq_ok.mp read
    obtain ⟨result, inner, made⟩ := bind_eq_ok.mp read
    cases made
    obtain ⟨inside, derives, same⟩ := readPattern_sound inner
    obtain ⟨brace, behind, kind⟩ := expect_eq_ok_iff.mp opened
    have filled : (tokens.takeWhile (·.kind = .literal)).map (·.text) ≠ [] := by
      rwa [ne_eq, List.map_eq_nil_iff, ← List.isEmpty_iff]
    refine ⟨_, .keyed filled (.braces derives), ?_⟩
    rw [← map_terminal_takeWhile]
    conv => lhs; rw [← tokens.takeWhile_append_dropWhile (p := (·.kind = .literal))]
    rw [List.map_append, behind, List.map_cons, same, Token.terminal, kind]
    simp [Terminal.ofKind]

theorem readVariant_complete {variant : Variant}
    (derives : DerivesVariant (.keyword whenWord :: terminals) variant)
    (same : tokens.map Token.terminal = terminals ++ following) :
    ∃ rest, readVariant stop tokens = .ok (variant, rest) ∧
      rest.map Token.terminal = following := by
  obtain ⟨nonempty, ⟨derives⟩⟩ := derives
  rename_i keys nodes inside
  have same : tokens.map Token.terminal =
      keys.map .literal ++ .openBrace :: (inside ++ .closeBrace :: following) := by simp [same]
  obtain ⟨shown, behind⟩ := takeWhile_of_map_eq same
  obtain ⟨brace, body, opened, kind, _, same⟩ := exists_cons_of_terminals behind
  obtain ⟨rest, read, others⟩ := @readPattern_complete stop _ _ _ _ derives same
  refine ⟨rest, ?_, others⟩
  have filled : ¬(tokens.takeWhile (·.kind = .literal)).isEmpty = true := by
    rw [List.isEmpty_iff, ← List.map_eq_nil_iff (f := (·.text)), shown]
    exact nonempty
  simp only [readVariant, if_neg filled, opened, shown]
  exact bind_eq_ok.mpr ⟨body, expect_eq_ok_iff.mpr ⟨brace, rfl, kind⟩,
    bind_eq_ok.mpr ⟨_, read, rfl⟩⟩

theorem readVariants_sound {variants : List Variant}
    (read : readVariants stop tokens = .ok (variants, rest)) :
    ∃ terminals, Sequence DerivesVariant terminals variants ∧
      tokens.map Token.terminal = terminals ++ rest.map Token.terminal := by
  fun_induction readVariants stop tokens generalizing variants with
  | case1 =>
      cases read
      exact ⟨[], .nil, rfl⟩
  | case2 => simp at read
  | case3 token tokens word variant after found _ ih =>
      obtain ⟨result, inner, made⟩ := bind_eq_ok.mp read
      cases made
      obtain ⟨front, first, same⟩ := readVariant_sound found
      obtain ⟨back, others, same'⟩ := ih inner
      refine ⟨_, .cons first others, ?_⟩
      rw [List.map_cons, same, same', Token.terminal, word.1, word.2]
      simp [Terminal.ofKind]
  | case4 =>
      cases read
      exact ⟨[], .nil, rfl⟩

/-- Variants that are derived are read. No keyword of a further variant may follow, since the reader
would go on with it and could fail. -/
theorem readVariants_complete {variants : List Variant}
    (derives : Sequence DerivesVariant terminals variants)
    (same : tokens.map Token.terminal = terminals ++ following)
    (ends : following.head? ≠ some (.keyword whenWord)) :
    ∃ rest, readVariants stop tokens = .ok (variants, rest) ∧
      rest.map Token.terminal = following := by
  induction derives generalizing tokens with
  | nil =>
      refine ⟨tokens, ?_, same⟩
      cases tokens with
      | nil => rw [readVariants]
      | cons token tokens =>
          rw [readVariants, if_neg]
          rintro ⟨kind, text⟩
          refine ends ?_
          rw [List.nil_append] at same
          rw [← same, List.map_cons, Token.terminal, kind, text]
          rfl
  | @cons front back variant variants first others ih =>
      obtain ⟨inside, rfl⟩ : ∃ inside, front = .keyword whenWord :: inside := by
        obtain ⟨_, _⟩ := first
        exact ⟨_, rfl⟩
      rw [List.append_assoc] at same
      obtain ⟨token, inner, rfl, kind, text, same⟩ := exists_cons_of_terminals same
      obtain ⟨middle, found, ahead⟩ := @readVariant_complete stop _ _ _ _ first same
      obtain ⟨rest, read, behind⟩ := ih ahead
      refine ⟨rest, ?_, behind⟩
      rw [Terminal.kind] at kind
      rw [readVariants, if_pos ⟨kind, text _ rfl⟩]
      split
      · simp_all
      · rename_i variant' after found'
        rw [found, Except.ok.injEq, Prod.mk.injEq] at found'
        obtain ⟨rfl, rfl⟩ := found'
        exact bind_eq_ok.mpr ⟨_, read, rfl⟩

/-- When a matcher is read: selectors, at least one of them, variants, and at least one of those. -/
theorem readMatcher_eq_ok_iff {matcher : Matcher} :
    readMatcher stop tokens = .ok (matcher, rest) ↔
      ∃ middle, readSelectors stop tokens = .ok (matcher.selectors, middle) ∧
        matcher.selectors ≠ [] ∧ readVariants stop middle = .ok (matcher.variants, rest) ∧
          matcher.variants ≠ [] := by
  obtain ⟨selectors, variants⟩ := matcher
  constructor
  · intro read
    obtain ⟨⟨selectors', middle⟩, first, read⟩ := bind_eq_ok.mp read
    dsimp only at read
    split at read
    · obtain ⟨_, thrown, _⟩ := bind_eq_ok.mp read
      exact absurd thrown throw_ne_ok
    · rename_i hasSelector
      obtain ⟨⟨variants', behind⟩, second, read⟩ := bind_eq_ok.mp read
      dsimp only at read
      split at read
      · exact absurd read throw_ne_ok
      · rename_i hasVariant
        cases read
        rw [List.isEmpty_iff] at hasSelector hasVariant
        exact ⟨middle, first, hasSelector, second, hasVariant⟩
  · rintro ⟨middle, first, hasSelector, second, hasVariant⟩
    refine bind_eq_ok.mpr ⟨_, first, ?_⟩
    dsimp only
    rw [if_neg (by rwa [List.isEmpty_iff])]
    refine bind_eq_ok.mpr ⟨_, second, ?_⟩
    dsimp only
    rw [if_neg (by rwa [List.isEmpty_iff])]
    rfl

theorem readMatcher_sound {matcher : Matcher}
    (read : readMatcher stop tokens = .ok (matcher, rest)) :
    ∃ terminals, DerivesMatcher (.keyword matchWord :: terminals) matcher ∧
      tokens.map Token.terminal = terminals ++ rest.map Token.terminal := by
  obtain ⟨selectors, variants⟩ := matcher
  obtain ⟨middle, first, hasSelector, second, hasVariant⟩ := readMatcher_eq_ok_iff.mp read
  obtain ⟨front, derives, same⟩ := readSelectors_sound first
  obtain ⟨back, derives', same'⟩ := readVariants_sound second
  refine ⟨_, .choice hasSelector derives hasVariant derives', ?_⟩
  rw [same, same', List.append_assoc]

/-- A matcher that is derived is read behind its keyword, when no further variant follows. -/
theorem readMatcher_complete {matcher : Matcher}
    (derives : DerivesMatcher (.keyword matchWord :: terminals) matcher)
    (same : tokens.map Token.terminal = terminals ++ following)
    (ends : following.head? ≠ some (.keyword whenWord)) :
    ∃ rest, readMatcher stop tokens = .ok (matcher, rest) ∧
      rest.map Token.terminal = following := by
  obtain ⟨hasSelector, derives, hasVariant, derives'⟩ := derives
  rename_i front back selectors variants
  rw [List.append_assoc] at same
  have starts : (back ++ following).head? ≠ some .openBrace := by
    cases derives' with
    | nil => exact absurd rfl hasVariant
    | cons first _ =>
        obtain ⟨_, _⟩ := first
        simp
  obtain ⟨middle, first, ahead⟩ := @readSelectors_complete stop _ _ _ _ derives same starts
  obtain ⟨rest, second, behind⟩ := @readVariants_complete stop _ _ _ _ derives' ahead ends
  exact ⟨rest, readMatcher_eq_ok_iff.mpr ⟨middle, first, hasSelector, second, hasVariant⟩, behind⟩

/-! ### Messages -/

/-- A message that is read is derived from the terminals that were consumed. Nothing is said of
those that are left. -/
theorem readMessage_sound {message : Message}
    (read : readMessage stop tokens = .ok (message, rest)) :
    ∃ terminals, DerivesMessage terminals message ∧
      tokens.map Token.terminal = terminals ++ rest.map Token.terminal := by
  unfold readMessage at read
  split at read
  · simp at read
  · rename_i token tokens
    split at read
    · rename_i kind
      have brace : token.terminal = .openBrace := by
        rw [Token.terminal, kind]
        rfl
      split at read
      · obtain ⟨result, inner, made⟩ := bind_eq_ok.mp read
        cases made
        obtain ⟨inside, derives, same⟩ := readExpression_sound inner
        exact ⟨_, .expression (.braces derives), by simp [same, brace]⟩
      · obtain ⟨inside, derives, same⟩ := readPattern_sound read
        exact ⟨_, .pattern (.braces derives), by simp [same, brace]⟩
    · rename_i kind
      split at read
      · rename_i word
        obtain ⟨result, inner, made⟩ := bind_eq_ok.mp read
        cases made
        obtain ⟨terminals, derives, same⟩ := readMatcher_sound inner
        refine ⟨_, .matcher derives, ?_⟩
        rw [List.map_cons, same, Token.terminal, kind, word]
        rfl
      · simp at read
    · simp at read
    · simp at read

/-- The elements of a pattern and the brace behind them do not start like an expression. So the
choice that the reader makes by the token behind the first brace is the right one. -/
theorem not_startsExpression_of_elements {nodes : List Node} {token : Token} {tokens : List Token}
    (derives : Sequence DerivesElement terminals nodes)
    (same : (token :: tokens).map Token.terminal = terminals ++ .closeBrace :: following) :
    startsExpression token.kind = false := by
  have other {terminal : Terminal} {others : List Terminal}
      (same : (token :: tokens).map Token.terminal = terminal :: others)
      (not : startsExpression terminal.kind = false) : startsExpression token.kind = false := by
    rw [List.map_cons, List.cons.injEq, Token.terminal_eq_iff] at same
    rw [same.1.1, not]
  cases derives with
  | nil => exact other same rfl
  | cons first _ =>
      obtain value | ⟨⟨_⟩⟩ | _ | _ := first
      all_goals exact other same rfl

/-- A message that is derived is read, when no further variant follows. The three kinds of messages
are told apart by their first two terminals. -/
theorem readMessage_complete {message : Message} (derives : DerivesMessage terminals message)
    (same : tokens.map Token.terminal = terminals ++ following)
    (ends : following.head? ≠ some (.keyword whenWord)) :
    ∃ rest, readMessage stop tokens = .ok (message, rest) ∧
      rest.map Token.terminal = following := by
  obtain ⟨⟨derives⟩⟩ | ⟨⟨derives⟩⟩ | derives := derives
  · obtain ⟨first, others, rfl, starts⟩ := derives.exists_cons
    rw [List.cons_append, List.append_assoc] at same
    obtain ⟨token, inner, rfl, kind, _, same⟩ := exists_cons_of_terminals same
    obtain ⟨rest, read, behind⟩ := @readExpression_complete stop _ _ _ _ derives same
    obtain ⟨second, innermost, rfl, kind', _⟩ := exists_cons_of_terminals same
    refine ⟨rest, ?_, behind⟩
    rw [Terminal.kind] at kind
    rw [← kind'] at starts
    simp only [readMessage, kind, peek, List.headD_cons, starts, if_true]
    exact bind_eq_ok.mpr ⟨_, read, rfl⟩
  · rw [List.cons_append, List.append_assoc] at same
    obtain ⟨token, inner, rfl, kind, _, same⟩ := exists_cons_of_terminals same
    obtain ⟨rest, read, behind⟩ := @readPattern_complete stop _ _ _ _ derives same
    refine ⟨rest, ?_, behind⟩
    rw [Terminal.kind] at kind
    cases inner with
    | nil => simp at same
    | cons second innermost =>
        have starts := not_startsExpression_of_elements derives same
        simp only [readMessage, kind, peek, List.headD_cons, starts]
        exact read
  · obtain ⟨inside, rfl⟩ : ∃ inside, terminals = .keyword matchWord :: inside := by
      obtain ⟨_, _, _, _⟩ := derives
      exact ⟨_, rfl⟩
    obtain ⟨token, inner, rfl, kind, text, same⟩ := exists_cons_of_terminals same
    obtain ⟨rest, read, behind⟩ := @readMatcher_complete stop _ _ _ _ derives same ends
    refine ⟨rest, ?_, behind⟩
    rw [Terminal.kind] at kind
    simp only [readMessage, kind, if_pos (text _ rfl)]
    exact bind_eq_ok.mpr ⟨_, read, rfl⟩

end Reading

namespace Message

open Reading Grammar

variable {tokens : List Token} {message : Message}

/-- When tokens are read as a message: none is an error, and the end of the input follows what was
read. -/
theorem ofTokens_eq_ok_iff_readMessage :
    ofTokens tokens = .ok message ↔ Token.firstError? tokens = none ∧
      ∃ last ∈ tokens.getLast?, ∃ rest, readMessage (stopAfter last) tokens = .ok (message, rest) ∧
        (peek (stopAfter last) rest).kind = .eof := by
  constructor
  · intro read
    unfold ofTokens at read
    split at read
    · simp at read
    · rename_i last final
      split at read
      · simp at read
      · rename_i noError
        obtain ⟨⟨message', rest⟩, inner, read⟩ := bind_eq_ok.mp read
        dsimp only at read
        split at read
        · rename_i ended
          cases read
          exact ⟨noError, last, final, rest, inner, ended⟩
        · exact absurd read throw_ne_ok
  · rintro ⟨noError, last, final, rest, inner, ended⟩
    rw [Option.mem_def] at final
    rw [ofTokens, final]
    simp only [noError]
    refine bind_eq_ok.mpr ⟨_, inner, ?_⟩
    dsimp only
    rw [if_pos ended]
    rfl

/-- The next token is the end of the input if nothing is left or if that is what comes next. Tokens
made by hand may lack an end of their own. -/
theorem peek_eq_eof_iff {last : Token} {rest : List Token} :
    (peek (stopAfter last) rest).kind = .eof ↔
      rest.map Token.terminal = [] ∨ (rest.map Token.terminal).head? = some .eof := by
  cases rest with
  | nil => simp [peek, stopAfter]
  | cons token rest => simp [peek, Token.terminal_eq_iff, Terminal.kind, Terminal.text?]

/-- Tokens without errors are read as a message when they derive it up to the end of the input.
Neither offsets nor levels occur on the right, nor anything behind the first end of the input. -/
theorem ofTokens_eq_ok_iff :
    ofTokens tokens = .ok message ↔ Token.firstError? tokens = none ∧
      ∃ terminals following, DerivesMessage terminals message ∧
        tokens.map Token.terminal = terminals ++ following ∧
          (following = [] ∨ following.head? = some .eof) := by
  rw [ofTokens_eq_ok_iff_readMessage]
  refine and_congr_right fun _ => ?_
  constructor
  · rintro ⟨last, _, rest, read, ended⟩
    obtain ⟨terminals, derives, same⟩ := readMessage_sound read
    exact ⟨terminals, rest.map Token.terminal, derives, same, peek_eq_eof_iff.mp ended⟩
  · rintro ⟨terminals, following, derives, same, ends⟩
    have notWhen : following.head? ≠ some (.keyword whenWord) := by
      obtain rfl | ends := ends
      · simp
      · simp [ends]
    have nonempty : tokens ≠ [] := by
      rintro rfl
      obtain ⟨rfl, rfl⟩ := List.append_eq_nil_iff.mp same.symm
      obtain ⟨⟨⟩⟩ | ⟨⟨⟩⟩ | ⟨⟨⟩⟩ := derives
    obtain ⟨rest, read, behind⟩ :=
      @readMessage_complete (stopAfter (tokens.getLast nonempty)) _ _ _ _ derives same notWhen
    rw [← behind] at ends
    exact ⟨_, List.getLast?_eq_some_getLast nonempty, rest, read, peek_eq_eof_iff.mpr ends⟩

theorem parse_eq_bind (template : String) :
    parse template = Token.tokenize template >>= ofTokens := by
  simp [parse]

/-- Two runs of terminals up to the first end of the input are the same. It identifies the terminals
of the segments with those that derive the message. -/
theorem eq_of_append_eof {front terminals following : List Terminal}
    (frontGoesOn : ∀ terminal ∈ front, terminal.isLast = false)
    (goesOn : ∀ terminal ∈ terminals, terminal.isLast = false)
    (ends : following = [] ∨ following.head? = some .eof)
    (same : terminals ++ following = front ++ [.eof]) : terminals = front := by
  obtain rfl | ⟨others, rfl⟩ : following = [] ∨ ∃ others, following = .eof :: others :=
    ends.imp_right List.head?_eq_some_iff.mp
  · rw [List.append_nil] at same
    exact absurd (goesOn .eof (by simp [same])) (by decide)
  · obtain ⟨between, front, back⟩ | ⟨between, front, back⟩ := List.append_eq_append_iff.mp same
    · cases between with
      | nil => simpa using front.symm
      | cons terminal between =>
          cases back
          refine absurd (frontGoesOn .eof ?_) (by decide)
          rw [front]
          simp
    · cases between with
      | nil => simpa using front
      | cons terminal between => simp at back

/-- A template is parsed to a message that its segments derive, and to no other. The results on
parsing start from this equivalence. -/
theorem parse_eq_ok_iff {template : String} :
    parse template = .ok message ↔
      ∃ segments gap mode, Segmented template segments gap mode ∧
        DerivesMessage (segments.map Segment.terminal) message := by
  rw [parse_eq_bind, bind_eq_ok]
  constructor
  · rintro ⟨tokens, found, read⟩
    obtain ⟨segments, gap, mode, segmented, same⟩ := Token.segmented_of_tokenize found
    obtain ⟨_, terminals, following, derives, same', ends⟩ := ofTokens_eq_ok_iff.mp read
    have goesOn : ∀ terminal ∈ segments.map Segment.terminal, terminal.isLast = false :=
      List.forall_mem_map.mpr segmented.lexes.isLast_eq_false
    rw [same'] at same
    obtain rfl := eq_of_append_eof goesOn derives.isLast_eq_false ends same
    exact ⟨segments, gap, mode, segmented, derives⟩
  · rintro ⟨segments, gap, mode, segmented, derives⟩
    obtain ⟨tokens, found, same⟩ := Token.tokenize_of_segmented segmented
    refine ⟨tokens, found, ofTokens_eq_ok_iff.mpr ⟨?_, _, _, derives, same, .inr rfl⟩⟩
    simp only [Token.tokenize] at found
    split at found
    · simp at found
    · rename_i noError
      cases found
      exact noError

end Message

end MessageTemplate
