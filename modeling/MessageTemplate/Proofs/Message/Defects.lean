import MessageTemplate.Proofs.Message.WellFormed

/-! # The defects of a message in document order

Each defect of a tree has a site, the path that leads to it. The numbers of a path follow the order
in which the parts are spelled, so the lexicographic order of the sites is document order. What the
defects of a tree are is said by relations between a tree, a site and a defect, one for each kind of
tree; they do not say which check finds which defect. A message has a template exactly if it has no
defect, and is refused for the defect at the first site otherwise
(`MessageTemplate.Message.render_refuses_first`).
-/

namespace MessageTemplate

/-- The path to a place in a tree, in document order. Paths are compared lexicographically, and a
place stands in front of all that is inside it. -/
abbrev Site := List Nat

/-! ### Reports -/

/-- A verdict reports the defects of a tree if it is passed where there are none, and otherwise is
the defect in front of all others. -/
inductive Verdict.Reports (defects : Site → Defect → Prop) : Verdict → Prop
  | passed (sound : ∀ site defect, ¬defects site defect) : Reports defects (.ok ())
  | refused {site : Site} {defect : Defect} (found : defects site defect)
      (first : ∀ other defect', defects other defect' →
        site < other ∨ site = other ∧ defect = defect') : Reports defects (.error defect)

/-- The defects of a part, at their sites in the whole. The number of the part tells where it stands
among the others. -/
def Within (part : Nat) (defects : Site → Defect → Prop) (site : Site) (defect : Defect) : Prop :=
  ∃ inner, site = part :: inner ∧ defects inner defect

/-- Pass exactly what is valid. The checks of the renderer are put together from this and from going
through lists. -/
def Verdict.require (valid : Bool) (defect : Defect) : Verdict :=
  if valid then .ok () else .error defect

/-- A single defect, which is there under a condition. Its site is empty, since the parts around it
say where it stands. -/
def OnlyIf (present : Prop) (only : Defect) (site : Site) (defect : Defect) : Prop :=
  present ∧ site = [] ∧ defect = only

/-- What is in an earlier part stands in front of what is in a later one, wherever it is inside. -/
theorem Within.lt {part part' : Nat} {defects defects' : Site → Defect → Prop} {site site' : Site}
    {defect defect' : Defect} (inside : Within part defects site defect)
    (inside' : Within part' defects' site' defect') (before : part < part') : site < site' := by
  obtain ⟨inner, rfl, _⟩ := inside
  obtain ⟨inner', rfl, _⟩ := inside'
  exact List.cons_lt_cons_iff.mpr (.inl before)

theorem Within.guard_lt {part : Nat} {defects : Site → Defect → Prop} {site : Site}
    {defect : Defect} (inside : Within part defects site defect) (before : 0 < part) :
    [0] < site := by
  obtain ⟨inner, rfl, _⟩ := inside
  exact List.cons_lt_cons_iff.mpr (.inl before)

namespace Verdict.Reports

variable {verdict first second : Verdict} {defects defects' : Site → Defect → Prop}

/-- Only the defects count, not the relation that describes them. The relations of trees are matched
with the checks by this. -/
theorem congr (reports : verdict.Reports defects)
    (same : ∀ site defect, defects site defect ↔ defects' site defect) :
    verdict.Reports defects' := by
  cases reports with
  | passed sound => exact .passed fun site defect found => sound site defect ((same _ _).mpr found)
  | refused found first =>
      exact .refused ((same _ _).mp found) fun other defect found' =>
        first other defect ((same _ _).mpr found')

/-- A report about a part is one about the whole, with the part put in front of each site. -/
theorem within (reports : verdict.Reports defects) (part : Nat) :
    verdict.Reports (Within part defects) := by
  cases reports with
  | passed sound =>
      apply passed
      rintro site defect ⟨inner, rfl, found⟩
      exact sound inner defect found
  | @refused site defect found first =>
      apply refused ⟨site, rfl, found⟩
      rintro _ defect' ⟨inner, rfl, found'⟩
      rcases first inner defect' found' with before | ⟨rfl, rfl⟩
      · exact .inl (List.cons_lt_cons_iff.mpr (.inr ⟨rfl, before⟩))
      · exact .inr ⟨rfl, rfl⟩

/-- Two checks in a row report the defects of both if those of the first stand in front. Every other
lemma about reports comes down to this one. -/
theorem bind (reports : first.Reports defects) (reports' : second.Reports defects')
    (before : ∀ {site defect site' defect'}, defects site defect → defects' site' defect' →
      site < site') :
    Verdict.Reports (fun site defect => defects site defect ∨ defects' site defect)
      (first >>= fun _ => second) := by
  cases reports with
  | passed sound =>
      -- The first part has no defect, so those of the second are all there are.
      refine reports'.congr fun site defect => ⟨.inr, fun found => ?_⟩
      exact found.resolve_left (sound site defect)
  | refused found least =>
      refine refused (.inl found) fun other defect' found' => ?_
      rcases found' with found' | found'
      · exact least other defect' found'
      · exact .inl (before found found')

/-- Two checks in a row report the defects of two parts that stand in this order. Sites in different
parts are compared by the numbers of the parts alone. -/
theorem inParts (reports : first.Reports defects) (reports' : second.Reports defects')
    {part part' : Nat} (before : part < part') :
    Verdict.Reports
      (fun site defect => Within part defects site defect ∨ Within part' defects' site defect)
      (first >>= fun _ => second) :=
  (reports.within part).bind (reports'.within part') fun inside inside' => inside.lt inside' before

/-- Checking what is there, if anything is, reports its defects. An expression checks both its parts
in this way. -/
theorem elim {α : Type} {check : α → Verdict} {defects : α → Site → Defect → Prop}
    (each : ∀ item, (check item).Reports (defects item)) (part : Option α) :
    Verdict.Reports (fun site defect => ∃ item, part = some item ∧ defects item site defect)
      (part.elim (.ok ()) check) := by
  cases part with
  | none => exact .passed (by simp)
  | some item => exact (each item).congr (by simp)

/-- A check of one condition reports one defect. -/
theorem require (valid : Bool) (defect : Defect) :
    (Verdict.require valid defect).Reports (OnlyIf (valid = false) defect) := by
  cases valid with
  | true => exact .passed fun site defect found => Bool.noConfusion found.1
  | false =>
      apply refused ⟨rfl, rfl, rfl⟩
      rintro site defect ⟨_, rfl, rfl⟩
      exact .inr ⟨rfl, rfl⟩

/-- A check behind a guard reports what the guard refuses as well, in front. An empty expression and
a matcher without selectors are guarded like this. -/
theorem guarded (reports : verdict.Reports defects) (bad : Prop) [Decidable bad] (defect : Defect)
    (before : ∀ {site defect}, defects site defect → [0] < site) :
    Verdict.Reports
      (fun site found => Within 0 (OnlyIf bad defect) site found ∨ defects site found)
      (do
        if bad then throw defect
        verdict) := by
  by_cases refuses : bad
  · rw [if_pos refuses]
    apply refused (.inl ⟨[], rfl, refuses, rfl, rfl⟩)
    rintro site found (⟨_, rfl, _, rfl, rfl⟩ | inside)
    · exact .inr ⟨rfl, rfl⟩
    · exact .inl (before inside)
  · rw [if_neg refuses]
    refine reports.congr fun site found => ⟨.inr, fun inside => ?_⟩
    exact inside.resolve_left fun ⟨_, _, holds, _⟩ => refuses holds

end Verdict.Reports

section CheckAll

variable {α : Type} {check : Nat → α → Verdict} {defects : Nat → α → Site → Defect → Prop}

/-- Going through a list from some index on reports the defects of its elements. The induction is on
the list, with the index free. -/
theorem reports_checkAll_from
    (each : ∀ index item, (check index item).Reports (defects index item)) (index : Nat)
    (items : List α) :
    Verdict.Reports
      (fun site defect => ∃ place item, items[place]? = some item ∧
        Within (index + place) (defects (index + place) item) site defect)
      (checkAll check index items) := by
  induction items generalizing index with
  | nil => exact .passed (by simp)
  | cons first items ih =>
      have inRow := ((each index first).within index).bind (ih (index + 1))
        fun inside ⟨place, _, _, inside'⟩ => inside.lt inside' (by omega)
      refine inRow.congr fun site defect => ?_
      constructor
      · rintro (inside | ⟨place, item, there, inside⟩)
        · exact ⟨0, first, rfl, inside⟩
        · refine ⟨place + 1, item, there, ?_⟩
          rwa [Nat.add_right_comm] at inside
      · rintro ⟨place, item, there, inside⟩
        cases place with
        | zero =>
            cases there
            exact .inl inside
        | succ place =>
            refine .inr ⟨place, item, there, ?_⟩
            rwa [Nat.add_right_comm]

/-- Going through a list reports the defects of its elements, each under its index. -/
theorem reports_checkAll (each : ∀ index item, (check index item).Reports (defects index item))
    (items : List α) :
    Verdict.Reports
      (fun site defect => ∃ index item, items[index]? = some item ∧
        Within index (defects index item) site defect)
      (checkAll check 0 items) :=
  (reports_checkAll_from each 0 items).congr (by simp)

end CheckAll

/-! ### Options, expressions and markup -/

/-- What is wrong with an option. Its value is judged before its name, although both are reported in
the same way. -/
inductive NamedOption.HasDefect (option : NamedOption) : Site → Defect → Prop
  | negative {value : Int64} (stated : option.value = .int value) (sign : value < 0) :
      HasDefect option [0] (.unsupportedOption option)
  | unspellable {value : String} (stated : option.value = .text value)
      (notName : isName value = false) (notDigits : isDigits value.toList = false) :
      HasDefect option [0] (.unsupportedOption option)
  | name (invalid : isName option.name = false) :
      HasDefect option [1] (.unsupportedOption option)

/-- What is wrong with a function. Its name comes before its options. -/
inductive Function.HasDefect (location : Location) (function : Function) : Site → Defect → Prop
  | name (invalid : isName function.name = false) :
      HasDefect location function [0] (.invalidName function.name location)
  | option {index : Nat} {option : NamedOption} {site : Site} {defect : Defect}
      (there : function.options[index]? = some option) (inside : option.HasDefect site defect) :
      HasDefect location function (1 :: index :: site) defect

/-- What is wrong with an expression: it is empty, or one of its parts has a defect. A literal has
none. -/
inductive Expression.HasDefect (location : Location) (expression : Expression) :
    Site → Defect → Prop
  | empty (noOperand : expression.operand = none) (noFunction : expression.function = none) :
      HasDefect location expression [0] (.emptyExpression location)
  | operand {name : String} (present : expression.operand = some (.variable name))
      (invalid : isName name = false) :
      HasDefect location expression [1] (.invalidName name location)
  | function {function : Function} {site : Site} {defect : Defect}
      (present : expression.function = some function)
      (inside : function.HasDefect location site defect) :
      HasDefect location expression (2 :: site) defect

/-- The options of closing markup are not spelled, so nothing is wrong with them. Those of opening
markup come behind its name. -/
inductive Markup.HasDefect (location : Location) (markup : Markup) : Site → Defect → Prop
  | name (invalid : isName markup.name = false) :
      HasDefect location markup [0] (.invalidName markup.name location)
  | option {index : Nat} {option : NamedOption} {site : Site} {defect : Defect}
      (opening : markup.kind = .opening) (there : markup.options[index]? = some option)
      (inside : option.HasDefect site defect) :
      HasDefect location markup (1 :: index :: site) defect

/-- The values that cannot be written: negative integers, and texts that are neither names nor
digits. -/
theorem OptionValue.isSpellable_eq_false_iff {value : OptionValue} :
    value.isSpellable = false ↔
      (∃ number : Int64, value = .int number ∧ number < 0) ∨
        ∃ text, value = .text text ∧ isName text = false ∧ isDigits text.toList = false := by
  cases value with
  | int number => simp [isSpellable, Int64.not_le]
  | text text => simp [isSpellable]

/-- The check of an option reports what is wrong with it. Value and name are one condition in the
check, and one defect in the report. -/
theorem NamedOption.reports_check (option : NamedOption) :
    option.check.Reports option.HasDefect := by
  have steps : option.check = (do
      Verdict.require option.value.isSpellable (.unsupportedOption option)
      Verdict.require (isName option.name) (.unsupportedOption option)) := by
    cases spellable : option.value.isSpellable <;>
      simp [check, Verdict.require, spellable, Bind.bind, Except.bind]
  rw [steps]
  have value := Verdict.Reports.require option.value.isSpellable (.unsupportedOption option)
  have name := Verdict.Reports.require (isName option.name) (.unsupportedOption option)
  refine (value.inParts name Nat.one_pos).congr fun site defect => ?_
  rw [OptionValue.isSpellable_eq_false_iff]
  constructor
  · rintro (⟨_, rfl, unspellable, rfl, rfl⟩ | ⟨_, rfl, invalid, rfl, rfl⟩)
    · rcases unspellable with ⟨number, stated, sign⟩ | ⟨text, stated, notName, notDigits⟩
      · exact .negative stated sign
      · exact .unspellable stated notName notDigits
    · exact .name invalid
  · intro found
    cases found with
    | negative stated sign => exact .inl ⟨[], rfl, .inl ⟨_, stated, sign⟩, rfl, rfl⟩
    | unspellable stated notName notDigits =>
        exact .inl ⟨[], rfl, .inr ⟨_, stated, notName, notDigits⟩, rfl, rfl⟩
    | name invalid => exact .inr ⟨[], rfl, invalid, rfl, rfl⟩

theorem reports_checkOptions (options : List NamedOption) :
    Verdict.Reports
      (fun site defect => ∃ index option, options[index]? = some option ∧
        Within index option.HasDefect site defect)
      (checkOptions options) :=
  @reports_checkAll _ _ (fun _ => NamedOption.HasDefect) (fun _ => NamedOption.reports_check)
    options

variable (location : Location)

theorem reports_checkName (name : String) :
    (checkName location name).Reports (OnlyIf (isName name = false) (.invalidName name location)) :=
  .require (isName name) _

theorem Function.reports_check (function : Function) :
    (function.check location).Reports (function.HasDefect location) := by
  refine ((reports_checkName location function.name).inParts
    (reports_checkOptions function.options) Nat.one_pos).congr fun site defect => ?_
  constructor
  · rintro (⟨_, rfl, invalid, rfl, rfl⟩ | ⟨_, rfl, index, option, there, _, rfl, inside⟩)
    · exact .name invalid
    · exact .option there inside
  · intro found
    cases found with
    | name invalid => exact .inl ⟨[], rfl, invalid, rfl, rfl⟩
    | option there inside => exact .inr ⟨_, rfl, _, _, there, _, rfl, inside⟩

/-- The check of an operand reports a variable without a name. -/
theorem Operand.reports_check (operand : Operand) :
    Verdict.Reports
      (fun site defect => ∃ name, operand = .variable name ∧
        OnlyIf (isName name = false) (.invalidName name location) site defect)
      (operand.check location) := by
  cases operand with
  | «variable» name => exact (reports_checkName location name).congr (by simp)
  | literal value => exact .passed (by simp)

/-- The check of markup reports what is wrong with it. For closing markup the options are left out
on both sides. -/
theorem Markup.reports_check (markup : Markup) :
    (markup.check location).Reports (markup.HasDefect location) := by
  have options : Verdict.Reports
      (fun site defect => markup.kind = .opening ∧ ∃ index option,
        markup.options[index]? = some option ∧ Within index option.HasDefect site defect)
      (if markup.kind = .opening then checkOptions markup.options else pure ()) := by
    by_cases opening : markup.kind = .opening
    · rw [if_pos opening]
      exact (reports_checkOptions markup.options).congr (by simp [opening])
    · rw [if_neg opening]
      exact .passed (by simp [opening])
  refine ((reports_checkName location markup.name).inParts options Nat.one_pos).congr
    fun site defect => ?_
  constructor
  · rintro (⟨_, rfl, invalid, rfl, rfl⟩ | ⟨_, rfl, opening, index, option, there, _, rfl, inside⟩)
    · exact .name invalid
    · exact .option opening there inside
  · intro found
    cases found with
    | name invalid => exact .inl ⟨[], rfl, invalid, rfl, rfl⟩
    | option opening there inside => exact .inr ⟨_, rfl, opening, _, _, there, _, rfl, inside⟩

theorem Expression.isEmpty_iff {expression : Expression} :
    expression.isEmpty = true ↔ expression.operand = none ∧ expression.function = none := by
  simp [isEmpty]

/-- The check of an expression reports what is wrong with it, the guard against an empty one in
front. -/
theorem Expression.reports_check (expression : Expression) :
    (expression.check location).Reports (expression.HasDefect location) := by
  rw [check_eq]
  have operand := Verdict.Reports.elim (Operand.reports_check location) expression.operand
  have function := Verdict.Reports.elim (Function.reports_check location) expression.function
  have content := operand.inParts function (Nat.lt_succ_self 1)
  refine (content.guarded (expression.isEmpty = true) (.emptyExpression location)
    fun inside => ?_).congr fun site defect => ?_
  · rcases inside with inside | inside
    · exact inside.guard_lt Nat.one_pos
    · exact inside.guard_lt Nat.two_pos
  · rw [isEmpty_iff]
    constructor
    · rintro (⟨_, rfl, ⟨noOperand, noFunction⟩, rfl, rfl⟩ |
        ⟨_, rfl, _, present, name, rfl, invalid, rfl, rfl⟩ | ⟨_, rfl, function, present, inside⟩)
      · exact .empty noOperand noFunction
      · exact .operand present invalid
      · exact .function present inside
    · intro found
      cases found with
      | empty noOperand noFunction =>
          exact .inl ⟨[], rfl, ⟨noOperand, noFunction⟩, rfl, rfl⟩
      | operand present invalid =>
          exact .inr (.inl ⟨[], rfl, _, present, _, rfl, invalid, rfl, rfl⟩)
      | function present inside => exact .inr (.inr ⟨_, rfl, _, present, inside⟩)

/-! ### Nodes, matchers and messages -/

mutual

/-- What is wrong with a node of a pattern. A matcher has no place there, whatever it holds; what is
wrong inside it comes behind that. -/
inductive Node.HasDefect : Location → Node → Site → Defect → Prop
  | expression {location : Location} {content : Expression} {site : Site} {defect : Defect}
      (inside : content.HasDefect location site defect) :
      Node.HasDefect location (.expression content) site defect
  | markup {location : Location} {mark : Markup} {site : Site} {defect : Defect}
      (inside : mark.HasDefect location site defect) :
      Node.HasDefect location (.markup mark) site defect
  | misplaced {location : Location} {matcher : Matcher} :
      Node.HasDefect location (.matcher matcher) [] (.misplacedMatcher location)
  | nested {location : Location} {matcher : Matcher} {site : Site} {defect : Defect}
      (inside : Matcher.HasDefect matcher site defect) :
      Node.HasDefect location (.matcher matcher) (0 :: site) defect

/-- What is wrong with a matcher. The keys of a variant come before its body, and all selectors
before all variants. -/
inductive Matcher.HasDefect : Matcher → Site → Defect → Prop
  | noSelectors {matcher : Matcher} (empty : matcher.selectors = []) :
      Matcher.HasDefect matcher [0] .noSelectors
  | selector {matcher : Matcher} {index : Nat} {selector : Expression} {site : Site}
      {defect : Defect} (there : matcher.selectors[index]? = some selector)
      (inside : selector.HasDefect (.selector index) site defect) :
      Matcher.HasDefect matcher (1 :: index :: site) defect
  | arity {matcher : Matcher} {index : Nat} {variant : Variant}
      (there : matcher.variants[index]? = some variant)
      (misfit : variant.keys.length ≠ matcher.selectors.length) :
      Matcher.HasDefect matcher [2, index, 0]
        (.variantArity index matcher.selectors.length variant.keys.length)
  | body {matcher : Matcher} {index place : Nat} {variant : Variant} {node : Node} {site : Site}
      {defect : Defect} (there : matcher.variants[index]? = some variant)
      (inner : variant.body[place]? = some node)
      (inside : Node.HasDefect (.variantNode index place) node site defect) :
      Matcher.HasDefect matcher (2 :: index :: 1 :: place :: site) defect

end

/-- What is wrong with a message. A message that is not a single matcher must not start like an
expression, which is seen before anything else is; empty texts in front do not count. -/
inductive Message.HasDefect (message : Message) : Site → Defect → Prop
  | matcher {matcher : Matcher} {site : Site} {defect : Defect}
      (sole : message = [.matcher matcher]) (inside : matcher.HasDefect site defect) :
      HasDefect message site defect
  | leading {front back : List Node} {value : String} {c : Char}
      (split : message = front ++ .text value :: back) (empty : ∀ node ∈ front, node = .text "")
      (first : value.toList.head? = some c) (sign : isExpressionSign c = true) :
      HasDefect message [0] (.ambiguousText c (.node front.length))
  | node {index : Nat} {node : Node} {site : Site} {defect : Defect}
      (flat : ∀ matcher, message ≠ [.matcher matcher]) (there : message[index]? = some node)
      (inside : node.HasDefect (.node index) site defect) :
      HasDefect message (1 :: index :: site) defect

/-- The check of a node reports what is wrong with it. A misplaced matcher is reported as such, in
front of the defects inside it, which the check does not look for. -/
theorem Node.reports_check (node : Node) :
    (node.check location).Reports (node.HasDefect location) := by
  cases node with
  | text value =>
      apply Verdict.Reports.passed
      intro site defect found
      cases found
  | expression content =>
      refine (content.reports_check location).congr fun site defect => ⟨.expression, ?_⟩
      intro found
      cases found with
      | expression inside => exact inside
  | markup mark =>
      refine (mark.reports_check location).congr fun site defect => ⟨.markup, ?_⟩
      intro found
      cases found with
      | markup inside => exact inside
  | matcher matcher =>
      apply Verdict.Reports.refused .misplaced
      intro site defect found
      cases found with
      | misplaced => exact .inr ⟨rfl, rfl⟩
      | nested inside => exact .inl (List.nil_lt_cons _ _)

/-- The check of a variant reports a number of keys that does not fit, and then the defects of its
body. -/
theorem Variant.reports_check (arity index : Nat) (variant : Variant) :
    Verdict.Reports
      (fun site defect =>
        Within 0 (OnlyIf (variant.keys.length ≠ arity)
          (.variantArity index arity variant.keys.length)) site defect ∨
        Within 1 (fun site defect => ∃ place node, variant.body[place]? = some node ∧
          Within place (node.HasDefect (.variantNode index place)) site defect) site defect)
      (variant.check arity index) := by
  have body := reports_checkAll (fun place => Node.reports_check (.variantNode index place))
    variant.body
  exact (body.within 1).guarded (variant.keys.length ≠ arity) _
    fun inside => inside.guard_lt Nat.one_pos

/-- The check of a matcher reports what is wrong with it: no selectors, then the selectors, then the
variants, one after the other. -/
theorem Matcher.reports_check (matcher : Matcher) : matcher.check.Reports matcher.HasDefect := by
  have selectors := reports_checkAll (fun index => Expression.reports_check (.selector index))
    matcher.selectors
  have variants := reports_checkAll (Variant.reports_check matcher.selectors.length)
    matcher.variants
  have parts := selectors.inParts variants (Nat.lt_succ_self 1)
  refine (parts.guarded (matcher.selectors.isEmpty = true) .noSelectors
    fun inside => ?_).congr fun site defect => ?_
  · rcases inside with inside | inside
    · exact inside.guard_lt Nat.one_pos
    · exact inside.guard_lt Nat.two_pos
  · rw [List.isEmpty_iff]
    constructor
    · rintro (⟨_, rfl, empty, rfl, rfl⟩ | ⟨_, rfl, index, selector, there, _, rfl, inside⟩ |
        ⟨_, rfl, index, variant, there, _, rfl, ⟨_, rfl, misfit, rfl, rfl⟩ |
          ⟨_, rfl, place, node, inner, _, rfl, inside⟩⟩)
      · exact .noSelectors empty
      · exact .selector there inside
      · exact .arity there misfit
      · exact .body there inner inside
    · intro found
      cases found with
      | noSelectors empty => exact .inl ⟨[], rfl, empty, rfl, rfl⟩
      | selector there inside => exact .inr (.inl ⟨_, rfl, _, _, there, _, rfl, inside⟩)
      | arity there misfit =>
          exact .inr (.inr ⟨_, rfl, _, _, there, _, rfl, .inl ⟨[], rfl, misfit, rfl, rfl⟩⟩)
      | body there inner inside =>
          exact .inr (.inr ⟨_, rfl, _, _, there, _, rfl,
            .inr ⟨_, rfl, _, _, inner, _, rfl, inside⟩⟩)

/-- The leading character of a pattern is that of a text with only empty texts in front of it. The
index counts these texts. -/
theorem leadingChar?_eq_some_iff {nodes : List Node} {index place : Nat} {c : Char} :
    leadingChar? index nodes = some (place, c) ↔
      ∃ front value back, nodes = front ++ .text value :: back ∧
        (∀ node ∈ front, node = .text "") ∧ value.toList.head? = some c ∧
        place = index + front.length := by
  constructor
  · intro leading
    fun_induction leadingChar? index nodes with
    | case1 index value nodes spelled ih =>
        obtain ⟨front, other, back, rfl, empty, first, rfl⟩ := ih leading
        have nothing : value = "" := String.toList_eq_nil_iff.mp spelled
        refine ⟨.text value :: front, other, back, rfl, ?_, first, ?_⟩
        · exact List.forall_mem_cons.mpr ⟨congrArg _ nothing, empty⟩
        · rw [List.length_cons, Nat.add_right_comm, Nat.add_assoc]
    | case2 index value nodes c' cs spelled =>
        cases leading
        exact ⟨[], value, nodes, rfl, by simp, by rw [spelled, List.head?_cons], rfl⟩
    | case3 => cases leading
  · rintro ⟨front, value, back, rfl, empty, first, rfl⟩
    obtain ⟨cs, spelled⟩ := List.head?_eq_some_iff.mp first
    induction front generalizing index with
    | nil => simp [leadingChar?, spelled]
    | cons node front ih =>
        obtain ⟨rfl, empty'⟩ := List.forall_mem_cons.mp empty
        rw [List.length_cons, Nat.add_comm front.length, ← Nat.add_assoc, ← ih empty']
        simp [leadingChar?]

/-- The check of the start of a pattern reports a text that would be read as an expression. -/
theorem reports_checkLeading (nodes : List Node) :
    Verdict.Reports
      (fun site defect => ∃ place c, leadingChar? 0 nodes = some (place, c) ∧
        OnlyIf (isExpressionSign c = true) (.ambiguousText c (.node place)) site defect)
      (checkLeading nodes) := by
  unfold checkLeading
  cases leadingChar? 0 nodes with
  | none => exact .passed (by simp)
  | some leading =>
      obtain ⟨place, c⟩ := leading
      by_cases sign : isExpressionSign c = true
      · simp only [if_pos sign]
        apply Verdict.Reports.refused ⟨place, c, rfl, sign, rfl, rfl⟩
        rintro site defect ⟨_, _, ⟨⟩, _, rfl, rfl⟩
        exact .inr ⟨rfl, rfl⟩
      · simp only [if_neg sign]
        apply Verdict.Reports.passed
        rintro site defect ⟨_, _, ⟨⟩, sign', _⟩
        exact sign sign'

namespace Message

/-- A message that is not a single matcher is checked as a pattern that stands alone. A single
expression is checked on its own by the definition, which comes to the same. -/
theorem check_eq_of_flat {message : Message}
    (flat : ∀ matcher, message ≠ [.matcher matcher]) :
    message.check = (do
      checkLeading message
      checkAll (fun index => Node.check (.node index)) 0 message) := by
  unfold check
  split
  · rename_i matcher
    exact absurd rfl (flat matcher)
  · -- A lone expression does not start with a text.
    rename_i expression
    cases passed : expression.check (.node 0) <;>
      simp [checkLeading, leadingChar?, checkAll, Node.check, passed, Bind.bind, Except.bind]
  · rfl

/-- A message that is a single matcher has the defects of the matcher and no others. -/
theorem HasDefect.of_matcher {matcher : Matcher} {site : Site} {defect : Defect}
    (found : HasDefect [.matcher matcher] site defect) : matcher.HasDefect site defect := by
  cases found with
  | matcher sole inside =>
      cases sole
      exact inside
  | @leading front _ _ _ split =>
      cases front with
      | nil => cases split
      | cons node front => simp at split
  | node flat there inside => exact absurd rfl (flat matcher)

/-- The check of a message reports what is wrong with it, by the three forms that a message can
have. -/
theorem reports_check (message : Message) : message.check.Reports message.HasDefect := by
  by_cases sole : ∃ matcher : Matcher, message = [.matcher matcher]
  · obtain ⟨matcher, rfl⟩ := sole
    exact matcher.reports_check.congr fun site defect => ⟨.matcher rfl, HasDefect.of_matcher⟩
  · rw [not_exists] at sole
    rw [check_eq_of_flat sole]
    have nodes := reports_checkAll (fun index => Node.reports_check (.node index)) message
    refine ((reports_checkLeading message).inParts nodes Nat.one_pos).congr fun site defect => ?_
    constructor
    · rintro (⟨_, rfl, place, c, leading, sign, rfl, rfl⟩ |
        ⟨_, rfl, index, node, there, _, rfl, inside⟩)
      · obtain ⟨front, value, back, split, empty, first, rfl⟩ := leadingChar?_eq_some_iff.mp leading
        rw [Nat.zero_add]
        exact .leading split empty first sign
      · exact .node sole there inside
    · intro found
      cases found with
      | matcher same inside => exact absurd same (sole _)
      | @leading front back value c split empty first sign =>
          have leading : leadingChar? 0 message = some (front.length, c) :=
            leadingChar?_eq_some_iff.mpr
              ⟨front, value, back, split, empty, first, (Nat.zero_add _).symm⟩
          exact .inl ⟨[], rfl, _, _, leading, sign, rfl, rfl⟩
      | node flat there inside => exact .inr ⟨_, rfl, _, _, there, _, rfl, inside⟩

end Message

/-! ### Rendering -/

namespace Verdict.Reports

variable {verdict : Verdict} {defects : Site → Defect → Prop}

theorem eq_ok_iff (reports : verdict.Reports defects) :
    verdict = .ok () ↔ ∀ site defect, ¬defects site defect := by
  cases reports with
  | passed sound => exact iff_of_true rfl sound
  | @refused site defect found => exact iff_of_false (by simp) fun sound => sound site defect found

/-- A verdict that reports the defects of a tree names the one that no other stands in front of.
Where two defects share the first site, they are the same. -/
theorem eq_error_iff (reports : verdict.Reports defects) {defect : Defect} :
    verdict = .error defect ↔
      ∃ site, defects site defect ∧ ∀ other defect', defects other defect' → ¬other < site := by
  cases reports with
  | passed sound => exact iff_of_false (by simp) fun ⟨site, found, _⟩ => sound site defect found
  | @refused site reported found first =>
      constructor
      · intro same
        cases same
        refine ⟨site, found, fun other defect' found' before => ?_⟩
        rcases first other defect' found' with behind | ⟨rfl, _⟩
        · exact List.lt_asymm behind before
        · exact List.lt_irrefl site before
      · rintro ⟨other, found', least⟩
        rcases first other defect found' with before | ⟨_, rfl⟩
        · exact absurd before (least site reported found)
        · rfl

end Verdict.Reports

/-- A message has a template exactly if it has no defect, and is refused for the first of its
defects in document order otherwise. -/
theorem Message.render_refuses_first (message : Message) :
    ((∃ template, message.render = .ok template) ↔
        ∀ site defect, ¬message.HasDefect site defect) ∧
      ∀ error, message.render = .error error ↔
        ∃ site defect, message.HasDefect site defect ∧
          (∀ other defect', message.HasDefect other defect' → ¬other < site) ∧
          error = .render defect := by
  have reports := message.reports_check
  constructor
  · rw [← reports.eq_ok_iff]
    simp [render_eq_ok_iff]
  · intro error
    rw [render_eq_error_iff]
    constructor
    · rintro ⟨defect, refused, rfl⟩
      obtain ⟨site, found, first⟩ := reports.eq_error_iff.mp refused
      exact ⟨site, defect, found, first, rfl⟩
    · rintro ⟨site, defect, found, first, rfl⟩
      exact ⟨defect, reports.eq_error_iff.mpr ⟨site, found, first⟩, rfl⟩

/-- The option in the body of the first variant is named, although the second variant has no key. -/
theorem Message.render_refuses_first_body :
    ∃ site defect,
      HasDefect [.matcher ⟨[⟨some (.variable "a"), none⟩],
        [⟨["x"], [.text "", .expression ⟨none, some ⟨"f", [⟨"o", .text "?"⟩]⟩⟩]⟩, ⟨[], []⟩]⟩]
        site defect ∧
      (∀ other defect', HasDefect [.matcher ⟨[⟨some (.variable "a"), none⟩],
        [⟨["x"], [.text "", .expression ⟨none, some ⟨"f", [⟨"o", .text "?"⟩]⟩⟩]⟩, ⟨[], []⟩]⟩]
        other defect' → ¬other < site) ∧
      Error.render (.unsupportedOption ⟨"o", .text "?"⟩) = .render defect :=
  ((render_refuses_first _).2 _).mp (by decide +kernel)

end MessageTemplate
