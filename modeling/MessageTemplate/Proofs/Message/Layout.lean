import MessageTemplate.Proofs.Message.Descent
import MessageTemplate.Proofs.Message.Normal

/-! # The layout of a message

The spelling of a message, cut into the segments that it is meant to be read as. The keys of
variants are spelled by a parameter, since a message can have keys that only bars keep apart from
what follows. The segments make up the spelling (`MessageTemplate.Message.source_segments`), and
their terminals derive its normal form (`MessageTemplate.derives_pattern`,
`MessageTemplate.derives_matcher`).
Whether the lexer cuts the spelling in the same places is another matter.
-/

namespace MessageTemplate

/-- Segments between braces, behind a gap. Only selectors and bodies have a gap there. -/
def bracedSegments (gap : List Char) (inside : List Segment) : List Segment :=
  ⟨gap, ['{'], .openBrace⟩ :: (inside ++ [⟨[], ['}'], .closeBrace⟩])

/-- An operand is one segment, without a gap. -/
def Operand.segment : Operand → Segment
  | .variable name => ⟨[], '$' :: name.toList, .variable name⟩
  | .literal value => ⟨[], quoteLiteral value, .literal value⟩

/-- The source of an option: its name, an equals sign and the text of its value. It is both its
spelling, the space before it apart, and the text of its token. -/
def NamedOption.source (option : NamedOption) : List Char :=
  option.name.toList ++ '=' :: option.value.display.toList

/-- An option is one segment behind a space. -/
def NamedOption.segment (option : NamedOption) : Segment :=
  ⟨[' '], option.source, .option (String.ofList option.source)⟩

/-- A function is laid out as its name and its options. The gap separates it from an operand, if
there is one. -/
def Function.segments (gap : List Char) (function : Function) : List Segment :=
  ⟨gap, ':' :: function.name.toList, .function function.name⟩ ::
    function.options.map NamedOption.segment

/-- An expression is laid out as its parts, the function behind a space when there is an operand. -/
def Expression.segments (expression : Expression) : List Segment :=
  match expression.operand, expression.function with
  | some operand, some function => operand.segment :: function.segments [' ']
  | some operand, none => [operand.segment]
  | none, some function => function.segments []
  | none, none => []

/-- Markup is laid out as its name and, for opening markup, its options. -/
def Markup.segments (markup : Markup) : List Segment :=
  match markup.kind with
  | .opening =>
    ⟨[], '+' :: markup.name.toList, .markupOpen markup.name⟩ ::
      markup.options.map NamedOption.segment
  | .closing => [⟨[], '-' :: markup.name.toList, .markupClose markup.name⟩]

/-- A node is laid out as one text or between braces. A matcher has no layout in a pattern. -/
def Node.segments : Node → List Segment
  | .text value => [⟨[], value.toList, .text value⟩]
  | .expression content => bracedSegments [] content.segments
  | .markup mark => bracedSegments [] mark.segments
  | .matcher _ => []

/-- A pattern is laid out with its texts joined, because the lexer takes neighbouring texts for one
and an empty one for none. -/
def patternSegments (gap : List Char) (nodes : List Node) : List Segment :=
  bracedSegments gap ((joinTexts nodes).flatMap Node.segments)

section Keys

variable (spell : String → List Char)

/-- A key is one segment behind a space, in the spelling that is given. -/
def keySegment (key : String) : Segment := ⟨[' '], spell key, .literal key⟩

/-- A variant is laid out as its keyword, its keys and its body. -/
def Variant.segments (variant : Variant) : List Segment :=
  ⟨[' '], whenWord.toList, .keyword whenWord⟩ ::
    (variant.keys.map (keySegment spell) ++ patternSegments [' '] variant.body)

/-- A matcher is laid out as its keyword, its selectors and its variants. -/
def Matcher.segments (matcher : Matcher) : List Segment :=
  ⟨[], matchWord.toList, .keyword matchWord⟩ ::
    (matcher.selectors.flatMap (fun selector => bracedSegments [' '] selector.segments) ++
      matcher.variants.flatMap (Variant.segments spell))

/-- The layout of a message follows the three forms of its spelling. -/
def Message.segments : Message → List Segment
  | [.matcher matcher] => matcher.segments spell
  | [.expression expression] => bracedSegments [] expression.segments
  | nodes => patternSegments [] nodes

end Keys

/-! ### The segments make up the spelling -/

theorem source_flatMap {α : Type} (segments : α → List Segment) (items : List α) :
    source (items.flatMap segments) = items.flatMap fun item => source (segments item) :=
  List.flatMap_assoc

@[simp] theorem map_terminal_bracedSegments (gap : List Char) (inside : List Segment) :
    (bracedSegments gap inside).map Segment.terminal =
      .openBrace :: (inside.map Segment.terminal ++ [.closeBrace]) := by
  simp [bracedSegments]

@[simp] theorem source_bracedSegments (gap : List Char) (inside : List Segment) :
    source (bracedSegments gap inside) = gap ++ braced (source inside) := by
  simp [bracedSegments, braced]

theorem source_map_segment (options : List NamedOption) :
    source (options.map NamedOption.segment) = spellOptions options := by
  rw [source, List.flatMap_map]
  rfl

theorem source_function (gap : List Char) (function : Function) :
    source (function.segments gap) = gap ++ function.spell := by
  simp [Function.segments, source_map_segment, Function.spell]

theorem source_operand (operand : Operand) : operand.segment.gap = [] ∧
    operand.segment.spelling = operand.spell := by
  cases operand <;> exact ⟨rfl, rfl⟩

theorem source_expression (expression : Expression) :
    source expression.segments = expression.spell := by
  obtain ⟨operand, function⟩ := expression
  cases operand <;> cases function <;>
    simp [Expression.segments, Expression.spell, source_function, source_operand]

theorem source_markup (markup : Markup) : source markup.segments = markup.spell := by
  obtain ⟨kind, name, options⟩ := markup
  cases kind <;> simp [Markup.segments, Markup.spell, source_map_segment]

theorem source_node (node : Node) : source node.segments = node.spell := by
  cases node <;> simp [Node.segments, Node.spell, source_expression, source_markup]

/-- The segments of a pattern make up its spelling. Joining texts changes the segments and not the
characters. -/
theorem source_patternSegments (gap : List Char) (nodes : List Node) :
    source (patternSegments gap nodes) = gap ++ spellPattern nodes := by
  simp only [patternSegments, source_bracedSegments, source_flatMap, source_node,
    flatMap_spell_joinTexts, spellPattern]

theorem source_keys (spell : String → List Char) (keys : List String) :
    source (keys.map (keySegment spell)) = keys.flatMap fun key => ' ' :: spell key := by
  simp [source, List.flatMap_map, Segment.chars, keySegment]

theorem source_variant (variant : Variant) :
    source (variant.segments spellKey) = variant.spell := by
  simp [Variant.segments, source_keys, source_patternSegments, Variant.spell]

/-- The segments of a message make up its spelling. So any cut of the spelling can be compared with
the layout. -/
theorem Message.source_segments (message : Message) :
    source (message.segments spellKey) = message.spell := by
  unfold segments spell
  split
  · simp [Matcher.segments, source_flatMap, source_variant, source_expression, Matcher.spell]
  · simp [source_expression]
  · simp [source_patternSegments]

/-! ### The terminals of the segments derive the normal form -/

open Grammar

/-- Pieces of a layout derive a list if each of them derives its item. Options, nodes, selectors and
variants are laid out in this way. -/
theorem derives_all {α β : Type} {derives : List Terminal → β → Prop} {items : List α}
    {segments : α → List Segment} {value : α → β}
    (each : ∀ item ∈ items, derives ((segments item).map Segment.terminal) (value item)) :
    Sequence derives ((items.flatMap segments).map Segment.terminal) (items.map value) := by
  induction items with
  | nil => exact .nil
  | cons item items ih =>
      rw [List.forall_mem_cons] at each
      rw [List.flatMap_cons, List.map_append]
      exact .cons each.1 (ih each.2)

/-- The segment of an option derives the option that its text is read back as: the name ends at the
equals sign, since no name holds one. -/
theorem derives_option {option : NamedOption} (shape : isName option.name = true) :
    DerivesOption [option.segment.terminal] option.normalize := by
  have split := @NamedOption.ofSource_append _ option.value.display.toList shape
  rw [String.ofList_toList, String.ofList_toList] at split
  have made := DerivesOption.source (String.ofList option.source)
  rwa [NamedOption.source, split] at made

theorem derives_options {options : List NamedOption}
    (readable : ∀ option ∈ options, option.Readable) :
    Sequence DerivesOption ((options.map NamedOption.segment).map Segment.terminal)
      (options.map NamedOption.normalize) := by
  induction options with
  | nil => exact .nil
  | cons option options ih =>
      rw [List.forall_mem_cons] at readable
      exact .cons (derives_option readable.1.name) (ih readable.2)

theorem derives_function {function : Function} (gap : List Char)
    (readable : function.WellNamed NamedOption.Readable) :
    DerivesFunction ((function.segments gap).map Segment.terminal) function.normalize :=
  .named function.name (derives_options readable.options)

theorem derives_operand (operand : Operand) :
    DerivesOperand [operand.segment.terminal] operand := by
  cases operand with
  | «variable» name => exact .variable name
  | literal value => exact .literal value

/-- The segments of an expression derive its normal form, by cases on which parts are there. -/
theorem derives_expression {expression : Expression}
    (readable : expression.WellNamed NamedOption.Readable) :
    DerivesExpression (expression.segments.map Segment.terminal) expression.normalize := by
  obtain ⟨operand, function⟩ := expression
  cases operand with
  | none =>
      cases function with
      | none => exact absurd readable.filled (by simp [Expression.isEmpty])
      | some function => exact .function (derives_function [] (readable.function _ rfl))
  | some operand =>
      have first := derives_operand operand
      cases function with
      | none => exact .operand first
      | some function => exact .both first (derives_function [' '] (readable.function _ rfl))

theorem derives_braced {expression : Expression} (gap : List Char)
    (readable : expression.WellNamed NamedOption.Readable) :
    DerivesBraced ((bracedSegments gap expression.segments).map Segment.terminal)
      expression.normalize := by
  rw [map_terminal_bracedSegments]
  exact .braces (derives_expression readable)

/-- The segments of a node derive its normal form. For closing markup this drops the options. -/
theorem derives_node {node : Node} (readable : node.Readable) :
    DerivesElement (node.segments.map Segment.terminal) node.normalize := by
  cases node with
  | text value => exact .text value
  | expression content => exact .expression (derives_braced [] readable)
  | markup mark =>
      obtain ⟨kind, name, options⟩ := mark
      rw [Node.segments, map_terminal_bracedSegments]
      cases kind with
      | opening => exact .opening name (derives_options (readable.options rfl))
      | closing => exact .closing name
  | matcher matcher => exact absurd readable (by simp [Node.Readable])

theorem isWellEscaped_append {front back : String} (first : isWellEscaped front = true)
    (second : isWellEscaped back = true) : isWellEscaped (front ++ back) = true := by
  rw [isWellEscaped, String.toList_append, hides_append first]
  exact second

/-- The joined nodes of a pattern are read back if its nodes are, and none of them is an empty
text. -/
theorem readable_joinTexts {nodes : List Node} (readable : ∀ node ∈ nodes, node.Readable) :
    ∀ node ∈ joinTexts nodes, node.Readable ∧ node ≠ .text "" :=
  forall_mem_joinTexts readable fun _ _ => isWellEscaped_append

/-- The segments of a pattern derive its normal form: its texts joined and its nodes in normal
form. -/
theorem derives_pattern {nodes : List Node} (gap : List Char)
    (readable : ∀ node ∈ nodes, node.Readable) :
    DerivesPattern ((patternSegments gap nodes).map Segment.terminal) (normalizePattern nodes) := by
  rw [patternSegments, map_terminal_bracedSegments, normalizePattern_eq]
  refine .braces (derives_all ?_)
  intro node member
  exact derives_node (readable_joinTexts readable node member).1

theorem derives_variant (spell : String → List Char) {variant : Variant}
    (hasKey : variant.keys ≠ []) (readable : ∀ node ∈ variant.body, node.Readable) :
    DerivesVariant ((variant.segments spell).map Segment.terminal) variant.normalize := by
  obtain ⟨keys, body⟩ := variant
  have made := DerivesVariant.keyed hasKey (derives_pattern [' '] readable)
  rw [Variant.segments, List.map_cons, List.map_append, List.map_map]
  exact made

/-- The segments of a matcher derive its normal form, however the keys are spelled. Its selectors
and variants must be some, as the grammar asks for. -/
theorem derives_matcher (spell : String → List Char) {matcher : Matcher}
    (readable : matcher.Readable) :
    DerivesMatcher ((matcher.segments spell).map Segment.terminal) matcher.normalize := by
  obtain ⟨selectors, variants⟩ := matcher
  have front : Sequence DerivesBraced
      ((selectors.flatMap fun selector => bracedSegments [' '] selector.segments).map
        Segment.terminal) (selectors.map Expression.normalize) := by
    apply derives_all
    intro selector member
    exact derives_braced [' '] (readable.selectors selector member)
  have back : Sequence DerivesVariant
      ((variants.flatMap (Variant.segments spell)).map Segment.terminal)
      (variants.map Variant.normalize) := by
    apply derives_all
    intro variant member
    exact derives_variant spell (readable.hasKey variant member) (readable.bodies variant member)
  have hasSelector : selectors.map Expression.normalize ≠ [] := by
    simpa using readable.hasSelector
  have hasVariant : variants.map Variant.normalize ≠ [] := by
    simpa using readable.hasVariant
  rw [Matcher.segments, List.map_cons, List.map_append, Matcher.normalize, normalizeVariants_eq_map]
  exact .choice hasSelector front hasVariant back

end MessageTemplate
