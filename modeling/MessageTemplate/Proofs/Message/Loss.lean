import MessageTemplate.Proofs.Message.Formatting
import MessageTemplate.Proofs.Message.RoundTrip

/-! # What rendering loses

Of the trees whose texts, keys and options are such as templates have, the check before rendering
lets two kinds pass that no template spells: closing markup with options, and a matcher without
variants. Whatever else passes the check is read back as itself
(`MessageTemplate.Message.parse_eq_ok_iff_of_render`).
-/

namespace MessageTemplate

/-- Every text in the tree could stand there in a template, and neither a key nor an option is
spelled like another one. -/
structure Message.Tidy (message : Message) : Prop where
  texts : ∀ value, (Node.text value).StandsIn message → value ≠ "" ∧ isWellEscaped value = true
  apart : List.IsChain (fun left right => ¬(left.isText = true ∧ right.isText = true)) message
  bodies : ∀ matcher, (Node.matcher matcher).StandsIn message → ∀ variant ∈ matcher.variants,
    variant.body.IsChain fun left right => ¬(left.isText = true ∧ right.isText = true)
  keys : ∀ matcher, (Node.matcher matcher).StandsIn message →
    ∀ variant ∈ matcher.variants, ∀ key ∈ variant.keys, startsOgham key = false
  options : ∀ node : Node, node.StandsIn message → ∀ option ∈ node.options, option.Plain
  numbers : ∀ node : Node, node.StandsIn message → ∀ option ∈ node.options,
    ∀ text ∈ option.value.text?, isDigits text.toList = true →
      Int64.maxValue.toInt < decimalValue text.toList

/-- Nothing stands in the tree that passes the check before rendering without being spelled. Closing
markup with options and matchers without variants are the two things that do. -/
structure Message.Spelled (message : Message) : Prop where
  closing : ∀ mark, (Node.markup mark).StandsIn message → mark.kind = .closing → mark.options = []
  hasVariant : ∀ matcher, (Node.matcher matcher).StandsIn message → matcher.variants ≠ []

/-! ### Options -/

namespace NamedOption

variable {option : NamedOption}

/-- An option that passes its check and is not spelled like another one is canonical. The check
alone leaves digits that would be read as an integer. -/
theorem Passes.canonical (passes : option.Passes) (plain : option.Plain)
    (unfit : ∀ text ∈ option.value.text?, isDigits text.toList = true →
      Int64.maxValue.toInt < decimalValue text.toList) : option.Canonical := by
  obtain ⟨spellable, name⟩ := check_eq_ok_iff.mp passes
  refine ⟨name, plain.1, ?_⟩
  cases same : option.value with
  | int value =>
      have unsigned : 0 ≤ value := by simpa [same, OptionValue.isSpellable] using spellable
      exact unsigned
  | text value =>
      have present : value ∈ option.value.text? := by simp [same, OptionValue.text?]
      rw [same, OptionValue.isSpellable, Bool.or_eq_true] at spellable
      rcases spellable with named | digits
      · exact .inl ⟨named, plain.2 value present⟩
      · exact .inr ⟨digits, unfit value present digits⟩

theorem Canonical.plain_option (canonical : option.Canonical) : option.Plain := by
  refine ⟨canonical.plain, fun text present => ?_⟩
  cases same : option.value with
  | int value => simp [same, OptionValue.text?] at present
  | text value =>
      have shown := canonical.value.startsOgham_display
      simp only [same, OptionValue.text?, Option.mem_def, Option.some.injEq] at present
      rwa [same, OptionValue.display, present] at shown

/-- Digits that are kept as text fit no integer. -/
theorem Canonical.unfit (canonical : option.Canonical) :
    ∀ text ∈ option.value.text?, isDigits text.toList = true →
      Int64.maxValue.toInt < decimalValue text.toList := by
  intro text present digits
  have value := canonical.value
  cases same : option.value with
  | int value => simp [same, OptionValue.text?] at present
  | text other =>
      simp only [same, OptionValue.text?, Option.mem_def, Option.some.injEq] at present
      subst present
      rw [same] at value
      exact value.unfit digits

end NamedOption

theorem Expression.WellNamed.forall_options {fits : NamedOption → Prop} {expression : Expression}
    (named : expression.WellNamed fits) : ∀ option ∈ expression.options, fits option := by
  intro option member
  cases present : expression.function with
  | none => simp [Expression.options, present] at member
  | some function =>
      rw [Expression.options, present] at member
      exact (named.function function present).options option member

theorem Node.WellFormed.forall_options {node : Node} (shape : node.WellFormed) :
    ∀ option ∈ node.options, option.Canonical := by
  cases node with
  | text value => simp [Node.options]
  | expression content => exact Expression.WellNamed.forall_options shape
  | markup mark =>
      intro option member
      cases kind : mark.kind with
      | opening => exact shape.1.options kind option member
      | closing =>
          rw [Node.options, shape.2 kind] at member
          exact absurd member List.not_mem_nil
  | matcher matcher => exact shape.elim

/-! ### What stands in a matcher -/

/-- In a message that is one matcher only this and the nodes of its bodies stand, if these are no
matchers. -/
theorem Node.StandsIn.of_matcher {matcher : Matcher} {node : Node}
    (stands : node.StandsIn [.matcher matcher])
    (flat : ∀ variant ∈ matcher.variants, ∀ inner, Node.matcher inner ∉ variant.body) :
    node = .matcher matcher ∨ ∃ variant ∈ matcher.variants, node ∈ variant.body := by
  generalize whole : [Node.matcher matcher] = nodes at stands
  induction stands with
  | here member =>
      rw [← whole, List.mem_singleton] at member
      exact .inl member
  | @body inner variant node nodes outer member inside ih =>
      rcases ih whole with same | ⟨other, member', nested⟩
      · rw [Node.matcher.injEq] at same
        exact .inr ⟨variant, same ▸ member, inside⟩
      · exact absurd nested (flat other member' inner)

namespace Matcher.WellFormed

variable {matcher : Matcher} (shape : matcher.WellFormed)

include shape

/-- Whatever stands in a matcher that comes from a template is that matcher or a well-formed
node. -/
theorem node_of_standsIn {node : Node} (stands : node.StandsIn [.matcher matcher]) :
    node = .matcher matcher ∨ node.WellFormed := by
  have flat : ∀ variant ∈ matcher.variants, ∀ inner, Node.matcher inner ∉ variant.body :=
    fun variant member inner nested => (shape.bodies variant member).shapes _ nested
  rcases stands.of_matcher flat with same | ⟨variant, member, inside⟩
  · exact .inl same
  · exact .inr ((shape.bodies variant member).shapes node inside)

theorem matcher_of_standsIn {other : Matcher}
    (stands : (Node.matcher other).StandsIn [.matcher matcher]) : other = matcher := by
  rcases shape.node_of_standsIn stands with same | nested
  · exact Node.matcher.inj same
  · exact nested.elim

end Matcher.WellFormed

namespace Message

variable {message : Message} {template : String}

/-- Nothing in a message that comes from a template is lost in its spelling. -/
theorem WellFormed.spelled (shape : message.WellFormed) : message.Spelled := by
  cases shape with
  | flat pattern _ =>
      have inside {node : Node} (stands : node.StandsIn message) : node.WellFormed :=
        pattern.shapes node (stands.mem fun matcher member => pattern.shapes _ member)
      exact ⟨fun mark stands => (inside stands).2, fun matcher stands => (inside stands).elim⟩
  | matcher shape =>
      constructor
      · intro mark stands
        rcases shape.node_of_standsIn stands with same | inside
        · simp at same
        · exact inside.2
      · exact fun other stands => shape.matcher_of_standsIn stands ▸ shape.hasVariant

/-- A message that comes from a template is tidy, if no key starts with the ogham space mark. Keys
between bars may hold that mark, so this has to be asked for. -/
theorem WellFormed.tidy (shape : message.WellFormed)
    (plain : ∀ key ∈ message.keys, startsOgham key = false) : message.Tidy := by
  cases shape with
  | flat pattern _ =>
      have inside {node : Node} (stands : node.StandsIn message) : node.WellFormed :=
        pattern.shapes node (stands.mem fun matcher member => pattern.shapes _ member)
      constructor
      · exact fun value stands => inside stands
      · exact pattern.apart
      · exact fun matcher stands => (inside stands).elim
      · exact fun matcher stands => (inside stands).elim
      · exact fun node stands option member =>
          ((inside stands).forall_options option member).plain_option
      · exact fun node stands option member => ((inside stands).forall_options option member).unfit
  | @matcher matcher shape =>
      have canonical {node : Node} (stands : node.StandsIn [.matcher matcher]) :
          ∀ option ∈ node.options, option.Canonical := by
        rcases shape.node_of_standsIn stands with rfl | inside
        · intro option listed
          obtain ⟨selector, member, inside⟩ := List.mem_flatMap.mp listed
          exact (shape.selectors selector member).forall_options option inside
        · exact inside.forall_options
      constructor
      · intro value stands
        rcases shape.node_of_standsIn stands with same | inside
        · simp at same
        · exact inside
      · exact .singleton _
      · intro other stands variant member
        exact (shape.bodies variant (shape.matcher_of_standsIn stands ▸ member)).apart
      · intro other stands variant member key inside
        have member := shape.matcher_of_standsIn stands ▸ member
        exact plain key (List.mem_flatMap.mpr ⟨variant, member, inside⟩)
      · exact fun node stands option member => (canonical stands option member).plain_option
      · exact fun node stands option member => (canonical stands option member).unfit

/-! ### Tidy messages that pass the check -/

namespace Tidy

variable (tidy : message.Tidy)

include tidy

theorem canonical {node : Node} (stands : node.StandsIn message) :
    ∀ option ∈ node.options, option.Passes → option.Canonical :=
  fun option member passes => NamedOption.Passes.canonical passes
    (tidy.options node stands option member) (tidy.numbers node stands option member)

/-- In a tidy message whose parts are all spelled, nodes that pass the check are well formed. -/
theorem wellFormed_nodes (spelled : message.Spelled) {nodes : List Node}
    (inside : ∀ node ∈ nodes, node.StandsIn message)
    (named : ∀ node ∈ nodes, node.WellNamed NamedOption.Passes) :
    ∀ node ∈ nodes, node.WellFormed := by
  intro node member
  have passes := named node member
  have stands := inside node member
  cases node with
  | text value => exact tidy.texts value stands
  | expression content =>
      refine Expression.WellNamed.mono passes fun function present option listed => ?_
      apply tidy.canonical stands
      rw [Option.mem_def] at present
      simpa [Node.options, Expression.options, present] using listed
  | markup mark =>
      exact ⟨Markup.WellNamed.mono passes (tidy.canonical stands), spelled.closing mark stands⟩
  | matcher matcher => exact passes

/-- What is tidy, spelled and passes the check is such as templates have. The check gives the names
and the number of keys, and the two hypotheses the rest. -/
theorem wellFormed (spelled : message.Spelled) (passed : message.check = .ok ()) :
    message.WellFormed := by
  rcases check_eq_ok_iff.mp passed with ⟨matcher, rfl, passes⟩ | ⟨leading, named⟩
  · have here : (Node.matcher matcher).StandsIn [.matcher matcher] := .here List.mem_cons_self
    refine .matcher ⟨passes.hasSelector, ?_, spelled.hasVariant matcher here, ?_, ?_⟩
    · intro selector member
      refine (passes.selectors selector member).mono fun function present option listed => ?_
      apply tidy.canonical here
      refine List.mem_flatMap.mpr ⟨selector, member, ?_⟩
      rw [Option.mem_def] at present
      simpa [Expression.options, present] using listed
    · intro variant member empty
      have arity := passes.arity variant member
      rw [empty, List.length_nil, eq_comm, List.length_eq_zero_iff] at arity
      exact passes.hasSelector arity
    · intro variant member
      have shapes := tidy.wellFormed_nodes spelled (fun node inside => .body here member inside)
        (passes.bodies variant member)
      exact ⟨shapes, tidy.bodies matcher here variant member⟩
  · have pattern : WellFormedPattern message :=
      ⟨tidy.wellFormed_nodes spelled (fun _ => .here) named, tidy.apart⟩
    refine .flat pattern ?_
    rwa [checkLeading_eq_ok_iff, pattern.joinTexts_eq] at leading

/-- In a tidy message no key is swallowed, since none starts with the ogham space mark. -/
theorem kept : ∀ key ∈ message.keys, isSwallowed key = false := by
  intro key member
  unfold Message.keys at member
  split at member
  · rename_i matcher
    obtain ⟨variant, listed, inside⟩ := List.mem_flatMap.mp member
    have plain := tidy.keys matcher (.here List.mem_cons_self) variant listed key inside
    simp [isSwallowed, plain]
  · simp at member

end Tidy

/-- A tidy message that is rendered is read back as itself exactly if its closing markup has no
options and its matcher, if it is one, has a variant. -/
theorem parse_eq_ok_iff_of_render (tidy : message.Tidy) (rendered : message.render = .ok template) :
    parse template = .ok message ↔
      (∀ mark, (Node.markup mark).StandsIn message → mark.kind = .closing → mark.options = []) ∧
        ∀ matcher, (Node.matcher matcher).StandsIn message → matcher.variants ≠ [] := by
  obtain ⟨passed, rfl⟩ := render_eq_ok_iff.mp rendered
  constructor
  · intro parsed
    have spelled := (wellFormed_of_parse parsed).spelled
    exact ⟨spelled.closing, spelled.hasVariant⟩
  · rintro ⟨closing, hasVariant⟩
    exact parse_spell_of_kept (tidy.wellFormed ⟨closing, hasVariant⟩ passed) tidy.kept

/-- A matcher with markup in its variant, and digits that are kept as text. -/
theorem parse_render_marked_variant :
    Tidy [.matcher ⟨[⟨some (.variable "n"), some ⟨"f", [⟨"x", .text "9223372036854775808"⟩]⟩⟩],
        [⟨["*"], [.text "a", .markup ⟨.closing, "b", []⟩]⟩]⟩] ∧
      parse "match \x7b$n :f x=9223372036854775808\x7d when * \x7ba\x7b-b\x7d\x7d" =
        .ok [.matcher
          ⟨[⟨some (.variable "n"), some ⟨"f", [⟨"x", .text "9223372036854775808"⟩]⟩⟩],
            [⟨["*"], [.text "a", .markup ⟨.closing, "b", []⟩]⟩]⟩] := by
  have parsed :
      parse "match\x7b$n :f x=9223372036854775808\x7d when |*|\x7ba\x7b-b\x7d\x7d" =
        .ok [.matcher
          ⟨[⟨some (.variable "n"), some ⟨"f", [⟨"x", .text "9223372036854775808"⟩]⟩⟩],
            [⟨["*"], [.text "a", .markup ⟨.closing, "b", []⟩]⟩]⟩] := by decide +kernel
  have shape := wellFormed_of_parse parsed
  have tidy := shape.tidy (by decide)
  have spelled := shape.spelled
  exact ⟨tidy, (parse_eq_ok_iff_of_render tidy (by rfl)).mpr ⟨spelled.closing, spelled.hasVariant⟩⟩

/-- Closing markup comes back without its options, and a matcher without variants is rendered as
what no message is read from. -/
theorem exists_lost_of_render :
    (∃ message template, Tidy message ∧ message.render = .ok template ∧
      ∃ other, parse template = .ok other ∧ other ≠ message) ∧
    ∃ message template, Tidy message ∧ message.render = .ok template ∧
      ∃ error, parse template = .error error := by
  refine ⟨⟨[.markup ⟨.closing, "b", [⟨"x", .int 1⟩]⟩], "\x7b\x7b-b\x7d\x7d", ?_, rfl,
    [.markup ⟨.closing, "b", []⟩], by decide +kernel, by simp⟩,
    [.matcher ⟨[⟨some (.variable "a"), none⟩], []⟩], "match \x7b$a\x7d", ?_, rfl,
    .parse 10 (.unexpected .variant ⟨.eof, "", 10, 0⟩), by decide +kernel⟩
  · have inside {node : Node}
        (stands : node.StandsIn [.markup ⟨.closing, "b", [⟨"x", .int 1⟩]⟩]) :
        node = .markup ⟨.closing, "b", [⟨"x", .int 1⟩]⟩ :=
      List.mem_singleton.mp (stands.mem (by simp))
    constructor
    · exact fun value stands => absurd (inside stands) (by simp)
    · exact .singleton _
    · exact fun matcher stands => absurd (inside stands) (by simp)
    · exact fun matcher stands => absurd (inside stands) (by simp)
    · intro node stands option member
      rw [inside stands] at member
      obtain rfl := List.mem_singleton.mp member
      exact ⟨by decide, by simp [OptionValue.text?]⟩
    · intro node stands option member
      rw [inside stands] at member
      obtain rfl := List.mem_singleton.mp member
      simp [OptionValue.text?]
  · have inside {node : Node}
        (stands : node.StandsIn [.matcher ⟨[⟨some (.variable "a"), none⟩], []⟩]) :
        node = .matcher ⟨[⟨some (.variable "a"), none⟩], []⟩ := by
      simpa using stands.of_matcher (by simp)
    constructor
    · exact fun value stands => absurd (inside stands) (by simp)
    · exact .singleton _
    · intro matcher stands variant member
      rw [Node.matcher.inj (inside stands)] at member
      simp at member
    · intro matcher stands variant member
      rw [Node.matcher.inj (inside stands)] at member
      simp at member
    · intro node stands option member
      rw [inside stands] at member
      simp [Node.options, Expression.options] at member
    · intro node stands option member
      rw [inside stands] at member
      simp [Node.options, Expression.options] at member

end Message

end MessageTemplate
