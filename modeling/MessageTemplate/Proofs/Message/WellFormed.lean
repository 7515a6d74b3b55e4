import Mathlib.Data.List.Chain
import MessageTemplate.Message.Reading
import MessageTemplate.Proofs.Message.Option
import MessageTemplate.Proofs.Text.Escaped

/-! # Well-formed messages

What the check before rendering asks of a tree, and what every tree that comes from a template
has, differ in what they ask of options and texts. Both are stated here over the same predicates on
expressions and markup, which take what is asked of an option as a parameter.
-/

namespace MessageTemplate

/-! ### Names and options -/

/-- A variable has a name; of a literal nothing is asked. -/
def Operand.WellNamed : Operand → Prop
  | .variable name => isName name = true
  | .literal _ => True

section WellNamed

variable (fits : NamedOption → Prop)

/-- A function has a name, and its options fit what is asked of them. -/
structure Function.WellNamed (function : Function) : Prop where
  name : isName function.name = true
  options : ∀ option ∈ function.options, fits option

/-- An expression has an operand or a function, its names are names, and its options fit. It is the
common part of what is checked and what templates have. -/
structure Expression.WellNamed (expression : Expression) : Prop where
  filled : expression.isEmpty = false
  operand : ∀ operand ∈ expression.operand, operand.WellNamed
  function : ∀ function ∈ expression.function, function.WellNamed fits

/-- Nothing is asked of the options of closing markup, which are not spelled. Those of opening
markup have to fit. -/
structure Markup.WellNamed (markup : Markup) : Prop where
  name : isName markup.name = true
  options : markup.kind = .opening → ∀ option ∈ markup.options, fits option

/-- A node that a pattern can hold, whatever its texts. What is asked of an option is a parameter:
that it passes its check, that it is canonical, or that it is read back. -/
def Node.WellNamed : Node → Prop
  | .text _ => True
  | .expression content => content.WellNamed fits
  | .markup mark => mark.WellNamed fits
  | .matcher _ => False

end WellNamed

section Mono

variable {fits fits' : NamedOption → Prop}

/-- What is asked of options can be weakened. -/
theorem Expression.WellNamed.mono {expression : Expression}
    (named : expression.WellNamed fits)
    (weaker : ∀ function ∈ expression.function, ∀ option ∈ function.options,
      fits option → fits' option) : expression.WellNamed fits' where
  filled := named.filled
  operand := named.operand
  function function present := by
    obtain ⟨name, options⟩ := named.function function present
    exact ⟨name, fun option member => weaker function present option member (options option member)⟩

theorem Markup.WellNamed.mono {markup : Markup} (named : markup.WellNamed fits)
    (weaker : ∀ option ∈ markup.options, fits option → fits' option) : markup.WellNamed fits' where
  name := named.name
  options opening option member := weaker option member (named.options opening option member)

end Mono

/-! ### The check before rendering -/

/-- The check of an option, as a predicate. -/
def NamedOption.Passes (option : NamedOption) : Prop := option.check = .ok ()

theorem Verdict.bind_eq_ok {first second : Verdict} :
    (first >>= fun _ => second) = .ok () ↔ first = .ok () ∧ second = .ok () := by
  cases first <;> simp [bind, Except.bind]

theorem Verdict.bind_eq_error_iff {first second : Verdict} {defect : Defect} :
    (first >>= fun _ => second) = .error defect ↔
      first = .error defect ∨ first = .ok () ∧ second = .error defect := by
  cases first <;> simp [bind, Except.bind]

/-- A list passes when each element does, whatever its index. -/
theorem checkAll_eq_ok_iff {α : Type} {check : Nat → α → Verdict} {holds : α → Prop}
    (each : ∀ index item, check index item = .ok () ↔ holds item) (index : Nat) (items : List α) :
    checkAll check index items = .ok () ↔ ∀ item ∈ items, holds item := by
  induction items generalizing index with
  | nil => simp [checkAll]
  | cons item items ih =>
      rw [checkAll, Verdict.bind_eq_ok, each, ih, List.forall_mem_cons]

/-- A list fails with the defect of its first element that fails. The elements in front of it have
all passed. -/
theorem checkAll_eq_error_iff {α : Type} {check : Nat → α → Verdict} {index : Nat} {items : List α}
    {defect : Defect} :
    checkAll check index items = .error defect ↔
      ∃ front item back, items = front ++ item :: back ∧ checkAll check index front = .ok () ∧
        check (index + front.length) item = .error defect := by
  induction items generalizing index with
  | nil => simp [checkAll]
  | cons first items ih =>
      rw [checkAll, Verdict.bind_eq_error_iff, ih]
      constructor
      · rintro (failed | ⟨passed, front, item, back, rfl, passed', failed⟩)
        · exact ⟨[], first, items, rfl, rfl, failed⟩
        · refine ⟨first :: front, item, back, rfl, ?_, ?_⟩
          · exact Verdict.bind_eq_ok.mpr ⟨passed, passed'⟩
          · rwa [List.length_cons, Nat.add_comm front.length, ← Nat.add_assoc]
      · rintro ⟨front, item, back, split, passed, failed⟩
        cases front with
        | nil =>
            cases split
            exact .inl failed
        | cons other front =>
            cases split
            obtain ⟨passed, passed'⟩ := Verdict.bind_eq_ok.mp passed
            refine .inr ⟨passed, front, item, back, rfl, passed', ?_⟩
            rwa [List.length_cons, Nat.add_comm front.length, ← Nat.add_assoc] at failed

theorem checkName_eq_ok_iff {location : Location} {name : String} :
    checkName location name = .ok () ↔ isName name = true := by
  rw [checkName]
  split <;> simp_all

theorem checkOptions_eq_ok_iff {options : List NamedOption} :
    checkOptions options = .ok () ↔ ∀ option ∈ options, option.Passes :=
  @checkAll_eq_ok_iff _ _ NamedOption.Passes (fun _ _ => Iff.rfl) 0 options

theorem Function.check_eq_ok_iff {location : Location} {function : Function} :
    function.check location = .ok () ↔ function.WellNamed NamedOption.Passes := by
  rw [check, Verdict.bind_eq_ok, checkName_eq_ok_iff, checkOptions_eq_ok_iff]
  exact ⟨fun both => ⟨both.1, both.2⟩, fun named => ⟨named.name, named.options⟩⟩

theorem Operand.check_eq_ok_iff {location : Location} {operand : Operand} :
    operand.check location = .ok () ↔ operand.WellNamed := by
  cases operand with
  | «variable» name => exact checkName_eq_ok_iff
  | literal value => exact iff_of_true rfl trivial

/-- The parts of an expression are checked as far as they are there. The check is written with
conditionals on the parts, and this form is easier to take apart. -/
theorem Expression.check_eq (location : Location) (expression : Expression) :
    expression.check location = (do
      if expression.isEmpty then throw (.emptyExpression location)
      expression.operand.elim (.ok ()) (Operand.check location)
      expression.function.elim (.ok ()) (Function.check location)) := by
  obtain ⟨operand, function⟩ := expression
  cases operand <;> cases function <;> rfl

theorem Verdict.elim_eq_ok_iff {α : Type} {check : α → Verdict} {part : Option α} :
    part.elim (.ok ()) check = .ok () ↔ ∀ item ∈ part, check item = .ok () := by
  cases part <;> simp

/-- An expression passes when it is filled and its parts pass. The location is only for the
error. -/
theorem Expression.check_eq_ok_iff {location : Location} {expression : Expression} :
    expression.check location = .ok () ↔ expression.WellNamed NamedOption.Passes := by
  rw [check_eq]
  by_cases empty : expression.isEmpty = true
  · rw [if_pos empty]
    refine iff_of_false (fun passed => ?_) fun named => ?_
    · exact Reading.throw_ne_ok (Verdict.bind_eq_ok.mp passed).1
    · exact Bool.false_ne_true (named.filled.symm.trans empty)
  · rw [if_neg empty]
    refine Verdict.bind_eq_ok.trans ?_
    simp only [Verdict.elim_eq_ok_iff, Operand.check_eq_ok_iff, Function.check_eq_ok_iff]
    rw [Bool.not_eq_true] at empty
    exact ⟨fun both => ⟨empty, both.1, both.2⟩, fun named => ⟨named.operand, named.function⟩⟩

/-- Markup passes when it has a name and, if it is opening markup, its options pass. -/
theorem Markup.check_eq_ok_iff {location : Location} {markup : Markup} :
    markup.check location = .ok () ↔ markup.WellNamed NamedOption.Passes := by
  rw [check, Verdict.bind_eq_ok, checkName_eq_ok_iff]
  by_cases opening : markup.kind = .opening
  · rw [if_pos opening, checkOptions_eq_ok_iff]
    exact ⟨fun both => ⟨both.1, fun _ => both.2⟩, fun named => ⟨named.name, named.options opening⟩⟩
  · rw [if_neg opening]
    exact ⟨fun both => ⟨both.1, fun same => absurd same opening⟩, fun named => ⟨named.name, rfl⟩⟩

/-- A node passes when it is no matcher and what it holds passes. -/
theorem Node.check_eq_ok_iff {location : Location} {node : Node} :
    node.check location = .ok () ↔ node.WellNamed NamedOption.Passes := by
  cases node with
  | text value => exact iff_of_true rfl trivial
  | expression content => exact Expression.check_eq_ok_iff
  | markup mark => exact Markup.check_eq_ok_iff
  | matcher matcher => simp [check, WellNamed]

/-- What the check asks of a matcher. It does not ask for a variant, and of the texts it asks
nothing. -/
structure Matcher.Passes (matcher : Matcher) : Prop where
  hasSelector : matcher.selectors ≠ []
  selectors : ∀ selector ∈ matcher.selectors, selector.WellNamed NamedOption.Passes
  arity : ∀ variant ∈ matcher.variants, variant.keys.length = matcher.selectors.length
  bodies : ∀ variant ∈ matcher.variants, ∀ node ∈ variant.body, node.WellNamed NamedOption.Passes

/-- A variant passes when its keys are as many as the selectors and the nodes of its body pass. -/
theorem Variant.check_eq_ok_iff {arity index : Nat} {variant : Variant} :
    variant.check arity index = .ok () ↔
      variant.keys.length = arity ∧ ∀ node ∈ variant.body, node.WellNamed NamedOption.Passes := by
  have body := checkAll_eq_ok_iff
    (fun node item => @Node.check_eq_ok_iff (.variantNode index node) item) 0 variant.body
  unfold check
  by_cases arity : variant.keys.length = arity
  · rw [← body]
    simp [arity]
  · refine iff_of_false ?_ fun both => arity both.1
    rw [if_pos arity]
    exact fun passed => Reading.throw_ne_ok (Verdict.bind_eq_ok.mp passed).1

theorem checkSelectors_eq_ok_iff {selectors : List Expression} :
    checkAll (fun index => Expression.check (.selector index)) 0 selectors = .ok () ↔
      ∀ selector ∈ selectors, selector.WellNamed NamedOption.Passes :=
  checkAll_eq_ok_iff (fun index item => @Expression.check_eq_ok_iff (.selector index) item) 0
    selectors

theorem checkVariants_eq_ok_iff {arity : Nat} {variants : List Variant} :
    checkAll (Variant.check arity) 0 variants = .ok () ↔
      ∀ variant ∈ variants, variant.keys.length = arity ∧
        ∀ node ∈ variant.body, node.WellNamed NamedOption.Passes :=
  checkAll_eq_ok_iff (fun index item => @Variant.check_eq_ok_iff arity index item) 0 variants

/-- A matcher passes when its selectors and variants do, and there is a selector. -/
theorem Matcher.check_eq_ok_iff {matcher : Matcher} :
    matcher.check = .ok () ↔ matcher.Passes := by
  unfold check
  by_cases empty : matcher.selectors = []
  · refine iff_of_false ?_ fun passes => passes.hasSelector empty
    rw [if_pos (List.isEmpty_iff.mpr empty)]
    exact fun passed => Reading.throw_ne_ok (Verdict.bind_eq_ok.mp passed).1
  · rw [if_neg (by rwa [List.isEmpty_iff])]
    have split := (@Verdict.bind_eq_ok (checkAll (fun index => Expression.check (.selector index)) 0
      matcher.selectors) (checkAll (Variant.check matcher.selectors.length) 0 matcher.variants))
    rw [checkSelectors_eq_ok_iff, checkVariants_eq_ok_iff] at split
    refine Iff.trans split ⟨fun both => ?_, fun passes => ?_⟩
    · exact ⟨empty, both.1, fun variant member => (both.2 variant member).1,
        fun variant member => (both.2 variant member).2⟩
    · exact ⟨passes.selectors, fun variant member =>
        ⟨passes.arity variant member, passes.bodies variant member⟩⟩

namespace Message

/-- A message passes its check as a matcher or node by node. In the second case its first character
is looked at too. -/
theorem check_eq_ok_iff {message : Message} :
    message.check = .ok () ↔ (∃ matcher : Matcher, message = [.matcher matcher] ∧ matcher.Passes) ∨
      checkLeading message = .ok () ∧ ∀ node ∈ message, node.WellNamed NamedOption.Passes := by
  have nodes := checkAll_eq_ok_iff
    (fun index item => @Node.check_eq_ok_iff (.node index) item) 0 message
  unfold check
  split
  · rename_i matcher
    rw [Matcher.check_eq_ok_iff]
    simp [Node.WellNamed]
  · rename_i expression
    rw [Expression.check_eq_ok_iff]
    simp [Node.WellNamed, checkLeading, leadingChar?]
  · rename_i notMatcher _
    rw [Verdict.bind_eq_ok, nodes]
    refine ⟨.inr, Or.rec ?_ id⟩
    rintro ⟨matcher, same, _⟩
    exact absurd same (notMatcher matcher)

theorem render_eq_ok_iff {message : Message} {template : String} :
    message.render = .ok template ↔
      message.check = .ok () ∧ template = String.ofList message.spell := by
  rw [render]
  split
  · rename_i passed
    simp [passed, eq_comm]
  · rename_i failed
    simp [failed]

theorem render_eq_error_iff {message : Message} {error : Error} :
    message.render = .error error ↔
      ∃ defect, message.check = .error defect ∧ error = .render defect := by
  rw [render]
  split
  · rename_i passed
    simp [passed]
  · rename_i defect failed
    simp [failed, eq_comm]

end Message

/-! ### Messages that come from templates -/

/-- Whether the node is a text. -/
def Node.isText : Node → Bool
  | .text _ => true
  | _ => false

/-- A node of a pattern that comes from a template. Texts are neither empty nor badly escaped, and
options are canonical. -/
def Node.WellFormed : Node → Prop
  | .text value => value ≠ "" ∧ isWellEscaped value = true
  | .expression content => content.WellNamed NamedOption.Canonical
  | .markup mark =>
    mark.WellNamed NamedOption.Canonical ∧ (mark.kind = .closing → mark.options = [])
  | .matcher _ => False

/-- The nodes of a pattern that comes from a template: no text stands behind another, since the
lexer would have taken both as one. -/
structure WellFormedPattern (nodes : List Node) : Prop where
  shapes : ∀ node ∈ nodes, node.WellFormed
  apart : nodes.IsChain fun left right => ¬(left.isText = true ∧ right.isText = true)

/-- A matcher that comes from a template. The number of keys need not be the number of
selectors. -/
structure Matcher.WellFormed (matcher : Matcher) : Prop where
  hasSelector : matcher.selectors ≠ []
  selectors : ∀ selector ∈ matcher.selectors, selector.WellNamed NamedOption.Canonical
  hasVariant : matcher.variants ≠ []
  hasKey : ∀ variant ∈ matcher.variants, variant.keys ≠ []
  bodies : ∀ variant ∈ matcher.variants, WellFormedPattern variant.body

/-- A leading text starts with a sign that opens an expression. Such a pattern has no template of
its own unless it stands in a variant. -/
def startsLikeExpression : List Node → Bool
  | .text value :: _ => value.toList.head?.any isExpressionSign
  | _ => false

/-- The messages that come from templates. A single expression is a flat message here, as a pattern
that holds one is. -/
inductive Message.WellFormed : Message → Prop
  | flat {nodes : List Node} (pattern : WellFormedPattern nodes)
      (plain : startsLikeExpression nodes = false) : WellFormed nodes
  | matcher {matcher : Matcher} (shape : matcher.WellFormed) : WellFormed [.matcher matcher]

theorem Node.WellFormed.passes {node : Node} (shape : node.WellFormed) :
    node.WellNamed NamedOption.Passes := by
  cases node with
  | text value => trivial
  | expression content =>
      exact Expression.WellNamed.mono shape fun _ _ _ _ => NamedOption.Canonical.check
  | markup mark => exact Markup.WellNamed.mono shape.1 fun _ _ => NamedOption.Canonical.check
  | matcher matcher => exact shape

/-! ### Messages whose spelling is read back -/

/-- A node of a pattern whose spelling is read back. Here a text may be empty, and closing markup
may have options. -/
def Node.Readable : Node → Prop
  | .text value => isWellEscaped value = true
  | .expression content => content.WellNamed NamedOption.Readable
  | .markup mark => mark.WellNamed NamedOption.Readable
  | .matcher _ => False

/-- A matcher whose spelling is read back, as far as its keys are. The keys are left to the way in
which they are spelled. -/
structure Matcher.Readable (matcher : Matcher) : Prop where
  hasSelector : matcher.selectors ≠ []
  selectors : ∀ selector ∈ matcher.selectors, selector.WellNamed NamedOption.Readable
  hasVariant : matcher.variants ≠ []
  hasKey : ∀ variant ∈ matcher.variants, variant.keys ≠ []
  bodies : ∀ variant ∈ matcher.variants, ∀ node ∈ variant.body, node.Readable

theorem Node.WellFormed.readable {node : Node} (shape : node.WellFormed) : node.Readable := by
  cases node with
  | text value => exact shape.2
  | expression content =>
      exact Expression.WellNamed.mono shape fun _ _ _ _ => NamedOption.Canonical.readable
  | markup mark => exact Markup.WellNamed.mono shape.1 fun _ _ => NamedOption.Canonical.readable
  | matcher matcher => exact shape

theorem Matcher.WellFormed.readable {matcher : Matcher} (shape : matcher.WellFormed) :
    matcher.Readable where
  hasSelector := shape.hasSelector
  selectors selector member :=
    (shape.selectors selector member).mono fun _ _ _ _ => NamedOption.Canonical.readable
  hasVariant := shape.hasVariant
  hasKey := shape.hasKey
  bodies variant member node inside :=
    ((shape.bodies variant member).shapes node inside).readable

end MessageTemplate
