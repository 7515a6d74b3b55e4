import MessageTemplate.Proofs.Message.Cut

/-! # The messages that templates spell

A message comes from a template if and only if it is well formed. That what is parsed is well
formed is carried through the lexer as a property of the terminals of a template, and through the
grammar from the terminals to the message. A well-formed message is spelled with all its keys
between bars.
-/

namespace MessageTemplate

/-- Whether the terminal is a text. Texts are what must not stand side by side. -/
def Terminal.isText : Terminal → Bool
  | .text _ => true
  | _ => false

/-- What the lexer makes sure of in a single terminal. A literal or a keyword has nothing to make
sure of, as a literal can hold any text. -/
def Terminal.WellFormed : Terminal → Prop
  | .text value => value ≠ "" ∧ isWellEscaped value = true
  | .variable name | .function name | .markupOpen name | .markupClose name => isName name = true
  | .option source => (NamedOption.ofSource source).Canonical
  | _ => True

/-- What the lexer makes sure of in the terminals of a template: something of each, and that no text
follows another. The grammar is followed with this in hand. -/
structure WellFormedTerminals (terminals : List Terminal) : Prop where
  each : ∀ terminal ∈ terminals, terminal.WellFormed
  apart : terminals.IsChain fun left right => ¬(left.isText = true ∧ right.isText = true)

namespace WellFormedTerminals

variable {terminals front back : List Terminal} {terminal : Terminal}

theorem left (shape : WellFormedTerminals (front ++ back)) : WellFormedTerminals front :=
  ⟨(List.forall_mem_append.mp shape.each).1, shape.apart.left_of_append⟩

theorem right (shape : WellFormedTerminals (front ++ back)) : WellFormedTerminals back :=
  ⟨(List.forall_mem_append.mp shape.each).2, shape.apart.right_of_append⟩

theorem head (shape : WellFormedTerminals (terminal :: terminals)) : terminal.WellFormed :=
  shape.each terminal List.mem_cons_self

theorem tail (shape : WellFormedTerminals (terminal :: terminals)) :
    WellFormedTerminals terminals :=
  @right [terminal] terminals shape

end WellFormedTerminals

/-! ### The terminals of a template -/

namespace Context

variable {context next : Context} {segment : Segment} {rest : List Char}

/-- Every segment that is read has a well-formed terminal, by cases on the ways to spell one. -/
theorem Reads.wellFormed (reads : context.Reads segment rest next) :
    segment.terminal.WellFormed := by
  obtain ⟨gap, spelling, terminal⟩ := segment
  obtain ⟨skips, spells⟩ := reads
  simp only at skips spells
  cases spells with
  | @text mode value rest brace nonempty hidden =>
      refine ⟨?_, ?_⟩
      · simpa using nonempty
      · rw [isWellEscaped, String.toList_ofList]
        exact hidden
  | signed _ signs shape =>
      rcases terminal_of_sign signs with rfl | rfl | rfl | rfl
      all_goals
        change isName (String.ofList _) = true
        rw [isName, String.toList_ofList]
        exact shape
  | @option _ name gap' gap'' value rest inside shape nameEnds blank blank' gapEnds valueShape =>
      have isName : isName (String.ofList name) = true := by
        rw [isName, String.toList_ofList]
        exact shape
      have isValue : Lexeme.isOptionValue (String.ofList value).toList = true := by
        rwa [String.toList_ofList]
      change (NamedOption.ofSource _).Canonical
      rw [NamedOption.ofSource_append shape]
      refine ⟨isName, ?_, OptionValue.canonical_ofText isValue ?_⟩
      · have ends := skips
        rw [skips_iff (region_ne_pattern inside), List.append_assoc, List.append_assoc,
          endsRun_append (isNameChars_ne_nil shape)] at ends
        change startsOgham (String.ofList name) = false
        rw [← endsRun_isBlank_of_isName isName, String.toList_ofList]
        exact ends.2
      · rwa [← endsRun_isBlank_of_isOptionValue isValue, String.toList_ofList]
  | _ => trivial

/-- A text is read in a pattern, up to a brace. These are all the facts about texts that the grammar
has to be followed with. -/
theorem Spells.of_isText {spelling : List Char} {terminal : Terminal}
    (spells : context.Spells spelling rest terminal next) (text : terminal.isText = true) :
    context.region = .pattern ∧ next = context ∧ terminal = .text (String.ofList spelling) ∧
      spelling ≠ [] ∧ hides isBrace spelling = true ∧
        ∃ brace tail, rest = brace :: tail ∧ isBrace brace = true := by
  cases spells with
  | text nonempty hidden stopped =>
      exact ⟨rfl, rfl, rfl, nonempty, hidden, _, _, rfl, stopped⟩
  | signed _ signs =>
      rcases terminal_of_sign signs with rfl | rfl | rfl | rfl
      all_goals simp [Terminal.isText] at text
  | _ => simp [Terminal.isText] at text

/-- Behind a text stands a brace, which starts no text. -/
theorem Reads.not_isText {other : Segment} {rest' : List Char} {last : Context}
    (first : context.Reads segment (other.gap ++ other.spelling ++ rest') next)
    (second : next.Reads other rest' last) :
    ¬(segment.terminal.isText = true ∧ other.terminal.isText = true) := by
  rintro ⟨text, text'⟩
  obtain ⟨_, _, _, _, _, brace, tail, ahead, stopped⟩ := first.spells.of_isText text
  obtain ⟨region, _, _, nonempty, hidden, _⟩ := second.spells.of_isText text'
  have noGap := second.skips.eq_nil region
  obtain ⟨c, cs, spelled⟩ := List.exists_cons_of_ne_nil nonempty
  rw [noGap, spelled] at ahead
  obtain ⟨rfl, _⟩ := List.cons.inj ahead
  rw [spelled] at hidden
  rcases head_of_hides hidden with rfl | free
  · exact absurd stopped (by decide)
  · exact Bool.false_ne_true (free.symm.trans stopped)

/-- The first brace of a template opens a pattern only where no expression starts. Otherwise it is
taken for the brace of an expression. -/
theorem Reads.plain (first : Context.Reads {} segment rest next)
    (opens : segment.terminal = .openBrace) (pattern : next.region = .pattern) :
    rest.head?.any isExpressionSign = false := by
  obtain ⟨gap, spelling, terminal⟩ := segment
  obtain ⟨_, spells⟩ := first
  simp only at spells opens
  cases spells with
  | openOutside =>
      rw [← Bool.not_eq_true]
      intro sign
      simp [opened, if_pos sign] at pattern
  | signed inside => exact absurd inside (by decide)
  | _ => simp at opens

end Context

/-- The terminals of segments that are read are well formed, by induction on the segments. A text
and the segment behind it are looked at together. -/
theorem Lexes.wellFormed {context last : Context} {segments : List Segment} {rest : List Char}
    (lexes : Lexes context segments rest last) :
    WellFormedTerminals (segments.map Segment.terminal) := by
  induction lexes with
  | nil => exact ⟨by simp, .nil⟩
  | @cons context next last segment segments rest reads lexes ih =>
      constructor
      · exact List.forall_mem_cons.mpr ⟨reads.wellFormed, ih.each⟩
      · rw [List.map_cons, List.isChain_cons]
        refine ⟨?_, ih.apart⟩
        cases lexes with
        | nil => simp
        | cons reads' _ =>
            rw [source_cons, List.append_assoc] at reads
            intro terminal first
            obtain rfl := Option.some_inj.mp first
            exact reads.not_isText reads'

/-- A text behind the first brace of a template does not start like an expression. -/
theorem Lexes.plain {segments : List Segment} {last : Context} {rest : List Char} {value : String}
    {terminals : List Terminal} (lexes : Lexes {} segments rest last)
    (same : segments.map Segment.terminal = .openBrace :: .text value :: terminals) :
    value.toList.head?.any isExpressionSign = false := by
  cases lexes with
  | nil => simp at same
  | @cons _ next _ first segments _ reads lexes =>
      obtain ⟨opens, same⟩ := List.cons.inj same
      cases lexes with
      | nil => simp at same
      | @cons _ next' _ second segments _ reads' lexes =>
          obtain ⟨text, _⟩ := List.cons.inj same
          obtain ⟨region, _, spelled, nonempty, _⟩ := reads'.spells.of_isText (by rw [text]; rfl)
          have noGap := reads'.skips.eq_nil region
          have plain := reads.plain opens region
          rw [spelled, Terminal.text.injEq] at text
          rw [← text, String.toList_ofList]
          rw [source_cons, noGap, List.nil_append, List.append_assoc,
            List.head?_append_of_ne_nil _ nonempty] at plain
          exact plain

/-! ### The messages that well-formed terminals derive -/

section Derivation

open Grammar

variable {terminals : List Terminal}

/-- What holds of each item that is derived from well-formed terminals holds of all items of a
sequence. -/
theorem forall_of_derives {α : Type} {derives : List Terminal → α → Prop} {items : List α}
    {holds : α → Prop} (sequence : Sequence derives terminals items)
    (shape : WellFormedTerminals terminals)
    (each : ∀ front item, derives front item → WellFormedTerminals front → holds item) :
    ∀ item ∈ items, holds item := by
  induction sequence with
  | nil => simp
  | cons first _ ih => exact List.forall_mem_cons.mpr ⟨each _ _ first shape.left, ih shape.right⟩

/-- Options that come from a template are canonical, since the lexer has looked at their sources. -/
theorem canonical_of_derives {options : List NamedOption}
    (derives : Sequence DerivesOption terminals options) (shape : WellFormedTerminals terminals) :
    ∀ option ∈ options, option.Canonical := by
  refine forall_of_derives derives shape fun front option first shape => ?_
  obtain ⟨source⟩ := first
  exact shape.head

theorem operand_of_derives {operand : Operand} (derives : DerivesOperand terminals operand)
    (shape : WellFormedTerminals terminals) : operand.WellNamed := by
  obtain name | value := derives
  · exact shape.head
  · trivial

theorem function_of_derives {function : Function} (derives : DerivesFunction terminals function)
    (shape : WellFormedTerminals terminals) : function.WellNamed NamedOption.Canonical := by
  obtain ⟨name, derives⟩ := derives
  exact ⟨shape.head, canonical_of_derives derives shape.tail⟩

theorem expression_of_derives {expression : Expression}
    (derives : DerivesExpression terminals expression) (shape : WellFormedTerminals terminals) :
    expression.WellNamed NamedOption.Canonical := by
  obtain derives | derives | ⟨derives, derives'⟩ := derives
  · have operand := operand_of_derives derives shape
    exact ⟨rfl, by simpa using operand, by simp⟩
  · have function := function_of_derives derives shape
    exact ⟨rfl, by simp, by simpa using function⟩
  · have operand := operand_of_derives derives shape.left
    have function := function_of_derives derives' shape.right
    exact ⟨rfl, by simpa using operand, by simpa using function⟩

theorem braced_of_derives {expression : Expression} (derives : DerivesBraced terminals expression)
    (shape : WellFormedTerminals terminals) : expression.WellNamed NamedOption.Canonical := by
  obtain ⟨derives⟩ := derives
  exact expression_of_derives derives shape.tail.left

/-- A node that comes from a template is well formed, by cases on what it is derived as. -/
theorem node_of_derives {node : Node} (derives : DerivesElement terminals node)
    (shape : WellFormedTerminals terminals) : node.WellFormed := by
  obtain value | derives | ⟨name, derives⟩ | name := derives
  · exact shape.head
  · exact braced_of_derives derives shape
  · have options := canonical_of_derives derives shape.tail.tail.left
    exact ⟨⟨shape.tail.head, fun _ => options⟩, by simp⟩
  · exact ⟨⟨shape.tail.head, by simp⟩, by simp⟩

/-- Where a text comes first among the nodes, its terminal comes first. So the first character of
the message can be found in the template. -/
theorem head_isText_of_derives {nodes : List Node} {node : Node}
    (derives : Sequence DerivesElement terminals nodes) (first : node ∈ nodes.head?)
    (text : node.isText = true) : ∃ terminal ∈ terminals.head?, terminal.isText = true := by
  cases derives with
  | nil => simp at first
  | cons derives _ =>
      obtain rfl := Option.some_inj.mp first
      obtain value | _ | _ | _ := derives
      · exact ⟨.text value, rfl, rfl⟩
      all_goals simp [Node.isText] at text

/-- The nodes of a pattern that comes from a template are well formed, and no text stands behind
another: their terminals would, too. -/
theorem nodes_of_derives {nodes : List Node} (derives : Sequence DerivesElement terminals nodes)
    (shape : WellFormedTerminals terminals) : WellFormedPattern nodes := by
  induction derives with
  | nil => exact ⟨by simp, .nil⟩
  | @cons front back node nodes first others ih =>
      obtain ⟨shapes, apart⟩ := ih shape.right
      refine ⟨List.forall_mem_cons.mpr ⟨node_of_derives first shape.left, shapes⟩, ?_⟩
      rw [List.isChain_cons]
      refine ⟨?_, apart⟩
      rintro next second ⟨text, text'⟩
      obtain ⟨terminal, ahead, textual⟩ := head_isText_of_derives others second text'
      obtain value | _ | _ | _ := first
      · rw [List.singleton_append] at shape
        exact (List.isChain_cons.mp shape.apart).1 terminal ahead ⟨rfl, textual⟩
      all_goals simp [Node.isText] at text

theorem pattern_of_derives {nodes : List Node} (derives : DerivesPattern terminals nodes)
    (shape : WellFormedTerminals terminals) : WellFormedPattern nodes := by
  obtain ⟨derives⟩ := derives
  exact nodes_of_derives derives shape.tail.left

theorem variant_of_derives {variant : Variant} (derives : DerivesVariant terminals variant)
    (shape : WellFormedTerminals terminals) :
    variant.keys ≠ [] ∧ WellFormedPattern variant.body := by
  obtain ⟨hasKey, derives⟩ := derives
  exact ⟨hasKey, pattern_of_derives derives shape.tail.right⟩

/-- A matcher that comes from a template is well formed. The number of keys is left open, since the
grammar does not count them. -/
theorem matcher_of_derives {matcher : Matcher} (derives : DerivesMatcher terminals matcher)
    (shape : WellFormedTerminals terminals) : matcher.WellFormed := by
  obtain ⟨hasSelector, selectors, hasVariant, variants⟩ := derives
  have front := forall_of_derives selectors shape.tail.left fun _ _ => braced_of_derives
  have back := forall_of_derives variants shape.tail.right fun _ _ => variant_of_derives
  exact ⟨hasSelector, front, hasVariant, fun variant member => (back variant member).1,
    fun variant member => (back variant member).2⟩

end Derivation

namespace Message

open Grammar

/-- A message that is parsed is well formed. A pattern does not start like an expression either,
since its first brace would have opened one. -/
theorem wellFormed_of_parse {template : String} {message : Message}
    (parsed : parse template = .ok message) : message.WellFormed := by
  obtain ⟨segments, gap, mode, ⟨_, _, lexes⟩, derives⟩ := parse_eq_ok_iff.mp parsed
  have shape := lexes.wellFormed
  generalize same : segments.map Segment.terminal = terminals at shape derives
  obtain derives | derives | derives := derives
  · have named := braced_of_derives derives shape
    exact .flat ⟨List.forall_mem_singleton.mpr named, .singleton _⟩ rfl
  · refine .flat (pattern_of_derives derives shape) ?_
    obtain ⟨derives⟩ := derives
    cases derives with
    | nil => rfl
    | cons first _ =>
        obtain value | _ | _ | _ := first
        · exact lexes.plain same
        all_goals rfl
  · exact .matcher (matcher_of_derives derives shape)

/-- A well-formed flat message is read back from its spelling, being in normal form. -/
theorem parse_spell_of_wellFormed {nodes : List Node} (pattern : WellFormedPattern nodes)
    (plain : startsLikeExpression nodes = false) :
    parse (String.ofList (spell nodes)) = .ok nodes := by
  have readable : ∀ node ∈ nodes, node.Readable :=
    fun node member => (pattern.shapes node member).readable
  have parsed := parse_spell_of_flat readable (by rwa [pattern.joinTexts_eq])
  rwa [(WellFormed.flat pattern plain).normalize_eq] at parsed

/-- A well-formed flat message is rendered as its spelling. -/
theorem render_of_wellFormed {nodes : List Node} (pattern : WellFormedPattern nodes)
    (plain : startsLikeExpression nodes = false) :
    render nodes = .ok (String.ofList (spell nodes)) := by
  have leading : checkLeading nodes = .ok () := by
    rw [checkLeading_eq_ok_iff, pattern.joinTexts_eq]
    exact plain
  have passed := fun node member => (pattern.shapes node member).passes
  exact render_eq_ok_iff.mpr ⟨check_eq_ok_iff.mpr (.inr ⟨leading, passed⟩), rfl⟩

/-- The messages that templates spell are the well-formed ones. For the converse a matcher is
written with all its keys between bars, where no key is lost. -/
theorem exists_parse_eq_ok_iff {message : Message} :
    (∃ template, parse template = .ok message) ↔ message.WellFormed := by
  constructor
  · rintro ⟨template, parsed⟩
    exact wellFormed_of_parse parsed
  · intro shape
    cases shape with
    | flat pattern plain => exact ⟨_, parse_spell_of_wellFormed pattern plain⟩
    | @matcher matcher shape =>
        have reads : ∀ variant ∈ matcher.variants, ∀ key ∈ variant.keys,
            KeyReads quoteLiteral key := fun _ _ key _ => keyReads_quoteLiteral key
        have parsed := parse_matcher shape.readable reads
        rw [shape.normalize_eq] at parsed
        exact ⟨_, parsed⟩

end Message

end MessageTemplate
