import MessageTemplate.Proofs.Message.Layout

/-! # The cuts of a spelling

The lexer cuts the spelling of a message where it was laid out: every segment is read in front of
what the layout puts behind it. So a message whose spelling is read back at all is read back as its
normal form (`MessageTemplate.Message.parse_spell_of_flat`,
`MessageTemplate.Message.parse_spell_of_matcher`).
-/

namespace MessageTemplate

variable {context : Context} {rest : List Char}

namespace Context

theorem skips_of_ends {gap spelling : List Char} (outside : context.region ≠ .pattern)
    (blank : ∀ c ∈ gap, isBlank c = true) (ends : EndsRun isBlank spelling) :
    context.Skips gap spelling := (skips_iff outside).mpr ⟨blank, ends⟩

/-- In front of a character that is not blank there need be no gap in any region. -/
theorem skips_nil {spelling : List Char} (ends : EndsRun isBlank spelling) :
    context.Skips [] spelling := by
  rw [Skips]
  split
  · rfl
  · exact ⟨by simp, ends⟩

theorem region_ne_pattern (inside : context.isExpression = true) : context.region ≠ .pattern :=
  (isExpression_cases inside).2

end Context

theorem isBlank_space : ∀ c ∈ [' '], isBlank c = true :=
  List.forall_mem_singleton.mpr (by decide)

/-! ### Expressions -/

/-- Behind the name of a function or of markup, options start with a space and so end the name;
where there are none, what follows has to end it. -/
theorem endsRun_options (options : List NamedOption) (ends : EndsRun isNameChar rest) :
    EndsRun isNameChar (source (options.map NamedOption.segment) ++ rest) := by
  cases options with
  | nil => exact ends
  | cons option options => exact endsRun_space _

/-- A quoted literal spells its value wherever literals are read. Nothing has to follow, since the
closing bar ends it. -/
theorem spells_quoted (literals : context.readsLiterals = true) (value : String)
    (rest : List Char) :
    context.Spells (quoteLiteral value) rest (.literal value) context := by
  have hidden : hides (· = '|') (escapeWhere isQuoteSpecial value.toList) = true :=
    hides_escapeWhere rfl (fun c bar => by simp_all [isQuoteSpecial]) value.toList
  have spells := @Context.Spells.quoted context _ rest literals hidden
  rwa [unescapeChars_escapeWhere rfl, String.ofList_toList] at spells

section Expressions

variable (inside : context.isExpression = true)

include inside

/-- An option with a name and a spellable value is read behind a space. Its value ends where name
characters end. -/
theorem reads_option {option : NamedOption} (readable : option.Readable)
    (ends : EndsRun isNameChar rest) : context.Reads option.segment rest context := by
  constructor
  · apply Context.skips_of_ends (Context.region_ne_pattern inside) isBlank_space
    have name := (endsRun_isBlank_of_isName readable.name).mpr readable.plain
    exact (endsRun_append (isNameChars_ne_nil readable.name)).mpr name
  · have value := (endsRun_isBlank_of_isOptionValue readable.shape).mpr readable.plainValue
    have equals : EndsRun isNameChar ('=' :: option.value.display.toList) :=
      endsRun_cons.mpr NamedOption.equals_not_isNameChar
    have spells := @Context.Spells.option context _ [] [] _ rest inside readable.name
      equals (by simp) (by simp) value readable.shape ends
    simpa [NamedOption.segment, NamedOption.source] using spells

/-- Options are read one after the other, each ended by the space of the next one. The last one
needs what follows to end it. -/
theorem lexes_options {options : List NamedOption}
    (readable : ∀ option ∈ options, option.Readable) (ends : EndsRun isNameChar rest) :
    Lexes context (options.map NamedOption.segment) rest context := by
  induction options with
  | nil => exact .nil
  | cons option options ih =>
      rw [List.forall_mem_cons] at readable
      exact .cons (reads_option inside readable.1 (endsRun_options options ends))
        (ih readable.2)

/-- A name behind its sign is read up to what ends a run of name characters. Variables, functions
and both kinds of markup are read by this one lemma. -/
theorem reads_signed {sign : Char} {make : String → Terminal} {gap : List Char} {name : String}
    (signs : signTerminal? sign = some make) (shape : isName name = true)
    (blank : ∀ c ∈ gap, isBlank c = true) (ends : EndsRun isNameChar rest) :
    context.Reads ⟨gap, sign :: name.toList, make name⟩ rest context := by
  constructor
  · apply Context.skips_of_ends (Context.region_ne_pattern inside) blank
    rw [endsRun_cons]
    unfold signTerminal? at signs
    split at signs <;> first | decide | simp at signs
  · have spells := Context.Spells.signed inside signs shape ends
    rwa [String.ofList_toList] at spells

/-- A function is read with its options. Its name ends where they start. -/
theorem lexes_function {function : Function} {gap : List Char}
    (readable : function.WellNamed NamedOption.Readable) (blank : ∀ c ∈ gap, isBlank c = true)
    (ends : EndsRun isNameChar rest) : Lexes context (function.segments gap) rest context :=
  .cons (reads_signed inside rfl readable.name blank
      (endsRun_options function.options ends))
    (lexes_options inside readable.options ends)

/-- An operand is read in front of whatever ends a name: a variable needs this, a literal does
not. -/
theorem reads_operand {operand : Operand} (named : operand.WellNamed)
    (ends : EndsRun isNameChar rest) : context.Reads operand.segment rest context := by
  cases operand with
  | «variable» name => exact reads_signed inside rfl named (by simp) ends
  | literal value =>
      have literals : context.readsLiterals = true := by simp [Context.readsLiterals, inside]
      exact ⟨Context.skips_nil (endsRun_cons.mpr (by decide)), spells_quoted literals value rest⟩

/-- An expression is read from its operand to its last option, by cases on which of its two parts
are there. -/
theorem lexes_expression {expression : Expression}
    (readable : expression.WellNamed NamedOption.Readable) (ends : EndsRun isNameChar rest) :
    Lexes context expression.segments rest context := by
  obtain ⟨operand, function⟩ := expression
  cases operand with
  | none =>
      cases function with
      | none => exact absurd readable.filled (by simp [Expression.isEmpty])
      | some function =>
          exact lexes_function inside (readable.function function rfl) (by simp) ends
  | some operand =>
      have named := readable.operand operand rfl
      cases function with
      | none => exact .single (reads_operand inside named ends)
      | some function =>
          refine .cons (reads_operand inside named ?_)
            (lexes_function inside (readable.function function rfl) isBlank_space ends)
          exact endsRun_cons.mpr (by decide)

/-- Markup is read up to what ends its name or its last option. -/
theorem lexes_markup {markup : Markup} (readable : markup.WellNamed NamedOption.Readable)
    (ends : EndsRun isNameChar rest) : Lexes context markup.segments rest context := by
  obtain ⟨kind, name, options⟩ := markup
  cases kind with
  | opening =>
      refine .cons (reads_signed inside rfl readable.name (by simp) ?_)
        (lexes_options inside (readable.options rfl) ends)
      exact endsRun_options options ends
  | closing => exact .single (reads_signed inside rfl readable.name (by simp) ends)

end Expressions

/-! ### Patterns -/

/-- Segments are read between braces if they are read between the contexts of the braces. Selectors,
expressions and markup all come to this lemma. -/
theorem lexes_braced {inner last : Context} {gap : List Char} {inside : List Segment}
    (opens : context.Reads ⟨gap, ['{'], .openBrace⟩ (source inside ++ '}' :: rest) inner)
    (lexes : Lexes inner inside ('}' :: rest) inner)
    (closes : inner.Spells ['}'] rest .closeBrace last) :
    Lexes context (bracedSegments gap inside) rest last := by
  have closing : Lexes inner [⟨[], ['}'], .closeBrace⟩] rest last :=
    .single ⟨Context.skips_nil (endsRun_cons.mpr (by decide)), closes⟩
  refine .cons ?_ (Lexes.append lexes closing)
  simpa using opens

theorem endsRun_closeBrace : EndsRun isNameChar ('}' :: rest) := endsRun_cons.mpr (by decide)

/-- A node is read in a pattern, an empty text apart, which would be no segment. A text needs a
brace behind it to end. -/
theorem lexes_node {mode : Mode} {node : Node} (readable : node.Readable)
    (nonempty : node ≠ .text "")
    (behind : node.isText = true → ∃ brace tail, rest = brace :: tail ∧ isBrace brace = true) :
    Lexes ⟨.pattern, mode⟩ node.segments rest ⟨.pattern, mode⟩ := by
  have braces {inside : List Segment}
      (lexes : Lexes ⟨.innerExpression, mode⟩ inside ('}' :: rest) ⟨.innerExpression, mode⟩) :
      Lexes ⟨.pattern, mode⟩ (bracedSegments [] inside) rest ⟨.pattern, mode⟩ :=
    lexes_braced ⟨rfl, .openInside⟩ lexes (.closeExpression rfl)
  cases node with
  | text value =>
      obtain ⟨brace, tail, rfl, stopped⟩ := behind rfl
      have filled : value.toList ≠ [] := by simpa using nonempty
      have spells := @Context.Spells.text mode _ tail _ filled readable stopped
      rw [String.ofList_toList] at spells
      exact .single ⟨rfl, spells⟩
  | expression content => exact braces (lexes_expression rfl readable endsRun_closeBrace)
  | markup mark => exact braces (lexes_markup rfl readable endsRun_closeBrace)
  | matcher matcher => exact absurd readable (by simp [Node.Readable])

/-- What follows a text in a pattern starts with a brace. This is why neighbouring texts are joined
before a pattern is laid out. -/
theorem exists_brace {nodes : List Node} (shapes : ∀ node ∈ nodes, node.Readable)
    (other : ∀ node ∈ nodes.head?, node.isText = false) (rest : List Char) :
    ∃ brace tail, source (nodes.flatMap Node.segments) ++ '}' :: rest = brace :: tail ∧
      isBrace brace = true := by
  cases nodes with
  | nil => exact ⟨'}', rest, rfl, rfl⟩
  | cons node nodes =>
      have first := other node rfl
      have shape := shapes node List.mem_cons_self
      cases node with
      | text value => simp [Node.isText] at first
      | expression content => exact ⟨'{', _, rfl, rfl⟩
      | markup mark => exact ⟨'{', _, rfl, rfl⟩
      | matcher matcher => exact absurd shape (by simp [Node.Readable])

/-- The nodes of a pattern are read one after the other, when no text is empty and no two are
neighbours. -/
theorem lexes_nodes {mode : Mode} {nodes : List Node}
    (shapes : ∀ node ∈ nodes, node.Readable ∧ node ≠ .text "")
    (apart : nodes.IsChain fun left right => ¬(left.isText = true ∧ right.isText = true)) :
    Lexes ⟨.pattern, mode⟩ (nodes.flatMap Node.segments) ('}' :: rest) ⟨.pattern, mode⟩ := by
  induction nodes with
  | nil => exact .nil
  | cons node nodes ih =>
      rw [List.forall_mem_cons] at shapes
      rw [List.isChain_cons] at apart
      refine Lexes.append (lexes_node shapes.1.1 shapes.1.2 fun text => ?_) (ih shapes.2 apart.2)
      apply exists_brace fun other member => (shapes.2 other member).1
      intro next first
      rw [← Bool.not_eq_true]
      exact fun text' => apart.1 next first ⟨text, text'⟩

/-- A pattern is read wherever its first brace opens a pattern. Whether it does depends on the
context, so it is left to the caller. -/
theorem lexes_pattern {mode : Mode} {gap : List Char} {nodes : List Node}
    (readable : ∀ node ∈ nodes, node.Readable)
    (opens : context.Reads ⟨gap, ['{'], .openBrace⟩
      (source ((joinTexts nodes).flatMap Node.segments) ++ '}' :: rest) ⟨.pattern, mode⟩) :
    Lexes context (patternSegments gap nodes) rest ⟨.outside, mode⟩ :=
  lexes_braced opens (lexes_nodes (readable_joinTexts readable) (isChain_joinTexts nodes))
    .closePattern

/-! ### Keys -/

/-- The context in which the keys of a variant are read. -/
def Context.amongKeys : Context := ⟨.outside, .keys⟩

/-- The spelling of a key is read back behind a space, wherever no name character follows. The ways
to spell a key share all that is proved from this property. -/
def KeyReads (spell : String → List Char) (key : String) : Prop :=
  ∀ rest, EndsRun isNameChar rest →
    Context.amongKeys.Reads (keySegment spell key) rest Context.amongKeys

/-- Between bars every key is read back. -/
theorem keyReads_quoteLiteral (key : String) : KeyReads quoteLiteral key := fun rest _ =>
  ⟨Context.skips_of_ends (by decide) isBlank_space (endsRun_cons.mpr (by decide)),
    spells_quoted rfl key rest⟩

theorem endsRun_isBlank_of_isNumber {cs : List Char} (number : isNumber cs = true) :
    EndsRun isBlank cs := by
  have start := (spanNumber_append_of_endsRun number endsRun_nil).2
  rw [List.append_nil] at start
  obtain ⟨c, rest, rfl, first⟩ := exists_cons_of_startsNumber start
  rw [endsRun_cons]
  rcases first with rfl | digit
  · decide
  · rw [Bool.eq_false_iff]
    intro blank
    have same := isNameChar_and_isBlank_iff.mp ⟨isNameChar_of_isDigit digit, blank⟩
    exact ne_of_kind digit (by decide) same

/-- The names that the lexer takes for another word when they are written behind a space. Quoting
them would save them, but their spelling is bare. -/
def isSwallowed (key : String) : Bool := isName key && startsOgham key

/-- The spelling of a key is read back unless it is a name whose first character is a blank.
Numbers, the catch-all and quoted keys are never lost. -/
theorem keyReads_spellKey {key : String} (kept : isSwallowed key = false) :
    KeyReads spellKey key := by
  intro rest ends
  by_cases bare : isBareKey key = true
  · have spelled : keySegment spellKey key = ⟨[' '], key.toList, .literal key⟩ := by
      rw [keySegment, spellKey, if_pos bare]
    rw [spelled]
    simp only [isBareKey, Bool.or_eq_true, decide_eq_true_eq, Bool.and_eq_true] at bare
    rcases bare with (rfl | number) | ⟨⟨name, notMatch⟩, notWhen⟩
    · exact ⟨Context.skips_of_ends (by decide) isBlank_space (endsRun_cons.mpr (by decide)),
        .catchAll⟩
    · obtain ⟨taken, start⟩ := spanNumber_append_of_endsRun number ends
      have spells := @Context.Spells.number Context.amongKeys _ rest rfl start taken
      rw [String.ofList_toList] at spells
      exact ⟨Context.skips_of_ends (by decide) isBlank_space (endsRun_isBlank_of_isNumber number),
        spells⟩
    · have plain : startsOgham key = false := by simpa [isSwallowed, name] using kept
      have spells := @Context.Spells.bareKey key.toList rest name ends
        (by simpa using notMatch) (by simpa using notWhen)
      rw [String.ofList_toList] at spells
      exact ⟨Context.skips_of_ends (by decide) isBlank_space
        ((endsRun_isBlank_of_isName name).mpr plain), spells⟩
  · have spelled : keySegment spellKey key = keySegment quoteLiteral key := by
      rw [keySegment, spellKey, if_neg bare, keySegment]
    rw [spelled]
    exact keyReads_quoteLiteral key rest ends

section Matchers

variable {spell : String → List Char}

theorem endsRun_keys (keys : List String) (tail : List Char) :
    EndsRun isNameChar (source (keys.map (keySegment spell)) ++ ' ' :: tail) := by
  cases keys with
  | nil => exact endsRun_space tail
  | cons key keys => exact endsRun_space _

theorem lexes_keys {keys : List String} (reads : ∀ key ∈ keys, KeyReads spell key)
    (tail : List Char) :
    Lexes .amongKeys (keys.map (keySegment spell)) (' ' :: tail) .amongKeys := by
  induction keys with
  | nil => exact .nil
  | cons key keys ih =>
      rw [List.forall_mem_cons] at reads
      exact .cons (reads.1 _ (endsRun_keys keys tail)) (ih reads.2)

theorem reads_whenWord {mode : Mode} (ends : EndsRun isNameChar rest) :
    Context.Reads ⟨.outside, mode⟩ ⟨[' '], whenWord.toList, .keyword whenWord⟩ rest .amongKeys :=
  ⟨Context.skips_of_ends (by simp) isBlank_space (endsRun_cons.mpr (by decide)), .whenWord ends⟩

/-- Outside all braces an opening brace is read behind blanks. What it opens is decided by the mode
and by the character behind it. -/
theorem reads_openOutside {mode : Mode} {gap : List Char} (blank : ∀ c ∈ gap, isBlank c = true) :
    Context.Reads ⟨.outside, mode⟩ ⟨gap, ['{'], .openBrace⟩ rest (Context.opened mode rest) :=
  ⟨Context.skips_of_ends (by simp) blank (endsRun_cons.mpr (by decide)), .openOutside⟩

/-- The keys of a variant are read behind the word that announces them. The space before the body
ends the last of them. -/
theorem lexes_whenKeys {mode : Mode} {keys : List String}
    (reads : ∀ key ∈ keys, KeyReads spell key) (tail : List Char) :
    Lexes ⟨.outside, mode⟩
      (⟨[' '], whenWord.toList, .keyword whenWord⟩ :: keys.map (keySegment spell)) (' ' :: tail)
      .amongKeys :=
  .cons (reads_whenWord (endsRun_keys keys tail)) (lexes_keys reads tail)

/-- A variant is read to the end of its body, if its keys are. Behind keys every brace opens a
pattern, so its body may start like an expression. -/
theorem lexes_variant {mode : Mode} {variant : Variant}
    (reads : ∀ key ∈ variant.keys, KeyReads spell key)
    (readable : ∀ node ∈ variant.body, node.Readable) :
    Lexes ⟨.outside, mode⟩ (variant.segments spell) rest ⟨.outside, .message⟩ := by
  have pattern : Lexes .amongKeys (patternSegments [' '] variant.body) rest ⟨.outside, .message⟩ :=
    lexes_pattern readable (reads_openOutside isBlank_space)
  obtain ⟨tail, opening⟩ :
      ∃ tail, source (patternSegments [' '] variant.body) ++ rest = ' ' :: tail := ⟨_, rfl⟩
  have keys := @lexes_whenKeys spell mode variant.keys reads tail
  rw [← opening] at keys
  exact Lexes.append keys pattern

/-- Variants are read one after the other. The mode in which they end depends on whether there are
any, and nothing later asks for it. -/
theorem lexes_variants {variants : List Variant}
    (reads : ∀ variant ∈ variants, ∀ key ∈ variant.keys, KeyReads spell key)
    (readable : ∀ variant ∈ variants, ∀ node ∈ variant.body, node.Readable) (mode : Mode) :
    ∃ mode', Lexes ⟨.outside, mode⟩ (variants.flatMap (Variant.segments spell)) rest
      ⟨.outside, mode'⟩ := by
  induction variants generalizing mode with
  | nil => exact ⟨mode, .nil⟩
  | cons variant variants ih =>
      rw [List.forall_mem_cons] at reads readable
      obtain ⟨mode', lexes⟩ := ih reads.2 readable.2 .message
      exact ⟨mode', Lexes.append (lexes_variant reads.1 readable.1) lexes⟩

theorem lexes_selectors {selectors : List Expression}
    (readable : ∀ selector ∈ selectors, selector.WellNamed NamedOption.Readable) :
    Lexes ⟨.outside, .selectors⟩
      (selectors.flatMap fun selector => bracedSegments [' '] selector.segments) rest
      ⟨.outside, .selectors⟩ := by
  induction selectors with
  | nil => exact .nil
  | cons selector selectors ih =>
      rw [List.forall_mem_cons] at readable
      have first : Lexes ⟨.outside, .selectors⟩ (bracedSegments [' '] selector.segments)
          (source (selectors.flatMap fun selector => bracedSegments [' '] selector.segments) ++
            rest) ⟨.outside, .selectors⟩ :=
        lexes_braced (reads_openOutside isBlank_space)
          (lexes_expression rfl readable.1 endsRun_closeBrace) (.closeExpression rfl)
      exact Lexes.append first (ih readable.2)

theorem endsRun_selectors {selectors : List Expression} (nonempty : selectors ≠ [])
    (rest : List Char) :
    EndsRun isNameChar
      (source (selectors.flatMap fun selector => bracedSegments [' '] selector.segments) ++
        rest) := by
  cases selectors with
  | nil => exact absurd rfl nonempty
  | cons selector selectors => exact endsRun_space _

theorem reads_matchWord (ends : EndsRun isNameChar rest) :
    Context.Reads {} ⟨[], matchWord.toList, .keyword matchWord⟩ rest ⟨.outside, .selectors⟩ :=
  ⟨Context.skips_nil (endsRun_cons.mpr (by decide)), .matchWord ends⟩

/-- A matcher is read from its keyword to its last variant, if its keys are read. How they are
spelled is left open, so that bare and quoted keys are both covered. -/
theorem lexes_matcher {matcher : Matcher} (readable : matcher.Readable)
    (reads : ∀ variant ∈ matcher.variants, ∀ key ∈ variant.keys, KeyReads spell key) :
    ∃ mode, Lexes {} (matcher.segments spell) [] ⟨.outside, mode⟩ := by
  obtain ⟨mode, variants⟩ := lexes_variants reads readable.bodies .selectors
  have all := Lexes.append (lexes_selectors readable.selectors) variants
  refine ⟨mode, .cons (reads_matchWord ?_) all⟩
  rw [source_append, List.append_assoc]
  exact endsRun_selectors readable.hasSelector _

end Matchers

/-! ### Messages -/

open Message Grammar

/-- Segments that are read from the start to the end make up the template that they were laid out
as. -/
theorem segmented_ofList {segments : List Segment} {mode : Mode}
    (lexes : Lexes {} segments [] ⟨.outside, mode⟩) :
    Segmented (String.ofList (source segments)) segments [] mode :=
  ⟨by simp, by simp, lexes⟩

/-- A single expression is read back in normal form. The brace in front of it opens an expression,
since every operand and every function starts with a sign. -/
theorem parse_expression {expression : Expression}
    (readable : expression.WellNamed NamedOption.Readable) :
    parse (String.ofList (braced expression.spell)) = .ok [.expression expression.normalize] := by
  have starts : (source expression.segments ++ ['}']).head?.any isExpressionSign = true := by
    obtain ⟨operand, function⟩ := expression
    cases operand with
    | none =>
        cases function with
        | none => exact absurd readable.filled (by simp [Expression.isEmpty])
        | some function => rfl
    | some operand => cases operand <;> cases function <;> rfl
  have opens := @reads_openOutside (source expression.segments ++ ['}']) .message [] (by simp)
  rw [Context.opened, if_pos starts] at opens
  have lexes : Lexes {} (bracedSegments [] expression.segments) [] ⟨.outside, .message⟩ :=
    lexes_braced opens (lexes_expression rfl readable endsRun_closeBrace) (.closeExpression rfl)
  have segmented := segmented_ofList lexes
  rw [source_bracedSegments, source_expression, List.nil_append] at segmented
  exact parse_eq_ok_iff.mpr ⟨_, _, _, segmented, .expression (derives_braced [] readable)⟩

/-- A pattern that does not start like an expression is read back in normal form. One that does
would be read as an expression, and fail. -/
theorem parse_pattern {nodes : List Node} (readable : ∀ node ∈ nodes, node.Readable)
    (plain : startsLikeExpression (joinTexts nodes) = false) :
    parse (String.ofList (spellPattern nodes)) = .ok (normalizePattern nodes) := by
  have starts : (source ((joinTexts nodes).flatMap Node.segments) ++ ['}']).head?.any
      isExpressionSign = false := by
    have shapes := readable_joinTexts readable
    generalize joinTexts nodes = nodes at plain shapes
    cases nodes with
    | nil => rfl
    | cons node nodes =>
        have shape := shapes node List.mem_cons_self
        cases node with
        | text value =>
            obtain ⟨c, cs, spelled⟩ := List.exists_cons_of_ne_nil
              (mt String.toList_eq_nil_iff.mp (by simpa using shape.2))
            simpa [startsLikeExpression, Node.segments, spelled] using plain
        | expression content => rfl
        | markup mark => rfl
        | matcher matcher => exact absurd shape.1 (by simp [Node.Readable])
  have opens := @reads_openOutside (source ((joinTexts nodes).flatMap Node.segments) ++ ['}'])
    .message [] (by simp)
  rw [Context.opened, if_neg (Bool.not_eq_true _ ▸ starts)] at opens
  have segmented := segmented_ofList (lexes_pattern readable opens)
  rw [source_patternSegments, List.nil_append] at segmented
  exact parse_eq_ok_iff.mpr ⟨_, _, _, segmented, .pattern (derives_pattern [] readable)⟩

/-- A matcher is read back in normal form if its keys are read back. Spelled between bars all of
them are. -/
theorem parse_matcher {spell : String → List Char} {matcher : Matcher}
    (readable : matcher.Readable)
    (reads : ∀ variant ∈ matcher.variants, ∀ key ∈ variant.keys, KeyReads spell key) :
    parse (String.ofList (source (matcher.segments spell))) = .ok [.matcher matcher.normalize] := by
  obtain ⟨mode, lexes⟩ := lexes_matcher readable reads
  exact parse_eq_ok_iff.mpr
    ⟨_, _, _, segmented_ofList lexes, .matcher (derives_matcher spell readable)⟩

/-- The spelling of a flat message is read back in normal form. A single expression is flat too, and
is read as it was written in either way. -/
theorem Message.parse_spell_of_flat {nodes : List Node} (readable : ∀ node ∈ nodes, node.Readable)
    (plain : startsLikeExpression (joinTexts nodes) = false) :
    parse (String.ofList (spell nodes)) = .ok (normalize nodes) := by
  unfold spell
  split
  · rename_i matcher
    exact absurd (readable _ List.mem_cons_self) (by simp [Node.Readable])
  · rename_i expression
    exact parse_expression (readable _ List.mem_cons_self)
  · exact parse_pattern readable plain

/-- The spelling of a matcher is read back in normal form if its keys are read back. It is the case
of the lemma above in which keys are spelled as rendering does it. -/
theorem Message.parse_spell_of_matcher {matcher : Matcher} (readable : matcher.Readable)
    (reads : ∀ variant ∈ matcher.variants, ∀ key ∈ variant.keys, KeyReads spellKey key) :
    parse (String.ofList (spell [.matcher matcher])) = .ok (normalize [.matcher matcher]) := by
  have parsed := parse_matcher readable reads
  have spelled := source_segments [.matcher matcher]
  rw [segments] at spelled
  rwa [spelled] at parsed

end MessageTemplate
