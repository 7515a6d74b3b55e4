import MessageTemplate.Proofs.Message.Image

/-! # Rendering and reading back

A rendered message is read back in normal form, if what the check before rendering leaves out holds:
texts are escaped, matchers have variants, and nothing that is written bare starts with the ogham
space mark, which the lexer skips (`MessageTemplate.Message.parse_render`).
-/

namespace MessageTemplate

/-- A node stands in a pattern as one of its nodes, or in the body of a variant of a matcher that
stands in it. -/
inductive Node.StandsIn : Node → List Node → Prop
  | here {node : Node} {nodes : List Node} (member : node ∈ nodes) : StandsIn node nodes
  | body {matcher : Matcher} {variant : Variant} {node : Node} {nodes : List Node}
      (outer : StandsIn (.matcher matcher) nodes) (member : variant ∈ matcher.variants)
      (inner : node ∈ variant.body) : StandsIn node nodes

/-- In a pattern without matchers only its own nodes stand. -/
theorem Node.StandsIn.mem {node : Node} {nodes : List Node} (stands : node.StandsIn nodes)
    (flat : ∀ matcher, Node.matcher matcher ∉ nodes) : node ∈ nodes := by
  induction stands with
  | here member => exact member
  | body _ _ _ ih => exact absurd (ih flat) (flat _)

/-- The options of an expression are those of its function. -/
def Expression.options (expression : Expression) : List NamedOption :=
  expression.function.elim [] Function.options

/-- The options of a node, those of the nodes in variants apart. These stand in the message
themselves and are reached through it. -/
def Node.options : Node → List NamedOption
  | .text _ => []
  | .expression content => content.options
  | .markup mark => mark.options
  | .matcher choice => choice.selectors.flatMap Expression.options

/-- No part of the option starts with the ogham space mark. An integer never does, so only textual
values are asked. -/
def NamedOption.Plain (option : NamedOption) : Prop :=
  startsOgham option.name = false ∧ ∀ text ∈ option.value.text?, startsOgham text = false

/-- What the check before rendering does not look at, though the spelling depends on it. Each field
rules out one way in which a spelling can be read as something else. -/
structure Message.Plain (message : Message) : Prop where
  escaped : ∀ value, (Node.text value).StandsIn message → isWellEscaped value = true
  hasVariant : ∀ matcher, (Node.matcher matcher).StandsIn message → matcher.variants ≠ []
  keys : ∀ matcher, (Node.matcher matcher).StandsIn message →
    ∀ variant ∈ matcher.variants, ∀ key ∈ variant.keys, startsOgham key = false
  options : ∀ node : Node, node.StandsIn message → ∀ option ∈ node.options, option.Plain

theorem NamedOption.Passes.readable {option : NamedOption} (passes : option.Passes)
    (plain : option.Plain) : option.Readable :=
  readable_of_check passes plain.1 plain.2

/-- An expression that passes its check is read back if its options are plain. -/
theorem Expression.WellNamed.readable {expression : Expression}
    (named : expression.WellNamed NamedOption.Passes)
    (plain : ∀ option ∈ expression.options, option.Plain) :
    expression.WellNamed NamedOption.Readable := by
  apply named.mono
  intro function present option member passes
  refine NamedOption.Passes.readable passes (plain option ?_)
  rw [Option.mem_def] at present
  simpa [Expression.options, present] using member

/-- A node that passes its check is readable if its text is escaped and its options are plain. -/
theorem Node.WellNamed.readable {node : Node} (named : node.WellNamed NamedOption.Passes)
    (escaped : ∀ value, node = .text value → isWellEscaped value = true)
    (plain : ∀ option ∈ node.options, option.Plain) : node.Readable := by
  cases node with
  | text value => exact escaped value rfl
  | expression content => exact Expression.WellNamed.readable named plain
  | markup mark =>
      apply Markup.WellNamed.mono named
      intro option member passes
      exact NamedOption.Passes.readable passes (plain option member)
  | matcher matcher => exact named

namespace Message

variable {message : Message} {template : String}

/-- Nodes of a plain message that pass their checks are read back, wherever in the message they
stand. -/
theorem Plain.readable (plain : message.Plain) {nodes : List Node}
    (inside : ∀ node ∈ nodes, node.StandsIn message)
    (named : ∀ node ∈ nodes, node.WellNamed NamedOption.Passes) :
    ∀ node ∈ nodes, node.Readable := by
  intro node member
  refine (named node member).readable ?_ (plain.options node (inside node member))
  rintro value rfl
  exact plain.escaped value (inside _ member)

/-- A matcher that is plain and passes its check is read back. That it has variants is part of being
plain, since the check does not ask for them. -/
theorem Plain.readable_matcher {matcher : Matcher} (plain : Plain [.matcher matcher])
    (passes : matcher.Passes) : matcher.Readable := by
  have here : (Node.matcher matcher).StandsIn [.matcher matcher] := .here List.mem_cons_self
  refine ⟨passes.hasSelector, ?_, plain.hasVariant matcher here, ?_, ?_⟩
  · intro selector member
    apply (passes.selectors selector member).readable
    intro option inside
    exact plain.options _ here option (List.mem_flatMap.mpr ⟨selector, member, inside⟩)
  · intro variant member empty
    have arity := passes.arity variant member
    rw [empty, List.length_nil, eq_comm, List.length_eq_zero_iff] at arity
    exact passes.hasSelector arity
  · intro variant member
    apply plain.readable
    · exact fun node inside => .body here member inside
    · exact passes.bodies variant member

/-- A rendered message is read back in normal form, and as itself if it is in normal form. How the
message was made does not matter: it need not come from a template. -/
theorem parse_render (plain : message.Plain) (rendered : message.render = .ok template) :
    parse template = .ok message.normalize ∧
      (message.normalize = message → parse template = .ok message) := by
  obtain ⟨passed, rfl⟩ := render_eq_ok_iff.mp rendered
  have parsed : parse (String.ofList message.spell) = .ok message.normalize := by
    rcases check_eq_ok_iff.mp passed with ⟨matcher, rfl, passes⟩ | ⟨leading, named⟩
    · have here : (Node.matcher matcher).StandsIn [.matcher matcher] := .here List.mem_cons_self
      apply parse_spell_of_matcher (plain.readable_matcher passes)
      intro variant member key inside
      apply keyReads_spellKey
      simp [isSwallowed, plain.keys matcher here variant member key inside]
    · apply parse_spell_of_flat (plain.readable (fun _ => .here) named)
      exact (checkLeading_eq_ok_iff message).mp leading
  exact ⟨parsed, fun normal => by rwa [normal] at parsed⟩

/-- Two texts side by side come back as one, and closing markup comes back without options. -/
theorem parse_render_joined :
    Plain [.text "a", .text "b", .markup ⟨.closing, "i", [⟨"x", .int 1⟩]⟩] ∧
      render [.text "a", .text "b", .markup ⟨.closing, "i", [⟨"x", .int 1⟩]⟩] =
        .ok "\x7bab\x7b-i\x7d\x7d" ∧
      parse "\x7bab\x7b-i\x7d\x7d" = .ok [.text "ab", .markup ⟨.closing, "i", []⟩] := by
  have inside : ∀ node : Node,
      node.StandsIn [.text "a", .text "b", .markup ⟨.closing, "i", [⟨"x", .int 1⟩]⟩] →
        node ∈ [.text "a", .text "b", .markup ⟨.closing, "i", [⟨"x", .int 1⟩]⟩] :=
    fun node stands => stands.mem (by simp)
  have plain : Plain [.text "a", .text "b", .markup ⟨.closing, "i", [⟨"x", .int 1⟩]⟩] := by
    constructor
    · intro value stands
      have member := inside _ stands
      simp only [List.mem_cons, Node.text.injEq, reduceCtorEq, List.not_mem_nil, or_false] at member
      rcases member with rfl | rfl <;> decide
    · exact fun matcher stands => absurd (inside _ stands) (by simp)
    · exact fun matcher stands => absurd (inside _ stands) (by simp)
    · intro node stands option member
      have listed := inside _ stands
      simp only [List.mem_cons, List.not_mem_nil, or_false] at listed
      rcases listed with rfl | rfl | rfl
      · simp [Node.options] at member
      · simp [Node.options] at member
      · obtain rfl := List.mem_singleton.mp member
        exact ⟨by decide, by simp [OptionValue.text?]⟩
  exact ⟨plain, rfl, (parse_render plain rfl).1⟩

end Message

end MessageTemplate
