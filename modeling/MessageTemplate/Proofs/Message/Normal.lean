import MessageTemplate.Proofs.Message.WellFormed

/-! # The normal form of a message

Trees that differ in how texts are cut, in the options of closing markup or in how the value of an
option is typed can have one spelling. The normal form (`MessageTemplate.Message.normalize`) is the
tree among them that comes from the spelling; the well-formed messages are in normal form
(`MessageTemplate.Message.WellFormed.normalize_eq`).
-/

namespace MessageTemplate

/-- Put a node in front of a pattern. An empty text is dropped, and a text joins the text that it
comes to stand before. Patterns are normalized from their ends by this step. -/
def consNode : Node → List Node → List Node
  | .text value, nodes =>
    if value = "" then nodes
    else match nodes with
      | .text next :: rest => .text (value ++ next) :: rest
      | _ => .text value :: nodes
  | node, nodes => node :: nodes

/-- Join the texts of a pattern that stand side by side, and drop the empty ones. This is what the
lexer does to a pattern that is spelled. -/
def joinTexts (nodes : List Node) : List Node := nodes.foldr consNode []

/-- A function with its options in normal form. -/
def Function.normalize (function : Function) : Function :=
  { function with options := function.options.map NamedOption.normalize }

/-- An expression with its function in normal form. An operand is always read back as it is. -/
def Expression.normalize (expression : Expression) : Expression :=
  { expression with function := expression.function.map Function.normalize }

/-- Opening markup with its options in normal form; closing markup without options, since they are
not spelled. -/
def Markup.normalize (markup : Markup) : Markup :=
  match markup.kind with
  | .opening => { markup with options := markup.options.map NamedOption.normalize }
  | .closing => { markup with options := [] }

mutual

/-- A node in normal form. Texts are left alone here and joined in the pattern. -/
def Node.normalize : Node → Node
  | .text value => .text value
  | .expression content => .expression content.normalize
  | .markup mark => .markup mark.normalize
  | .matcher matcher => .matcher matcher.normalize

/-- A matcher with its selectors and its variants in normal form. -/
def Matcher.normalize : Matcher → Matcher
  | ⟨selectors, variants⟩ => ⟨selectors.map Expression.normalize, normalizeVariants variants⟩

/-- A variant with its body in normal form. Keys are read back as they are, if they are read
back. -/
def Variant.normalize : Variant → Variant
  | ⟨keys, body⟩ => ⟨keys, normalizePattern body⟩

/-- Variants in normal form, one by one. -/
def normalizeVariants : List Variant → List Variant
  | [] => []
  | variant :: variants => variant.normalize :: normalizeVariants variants

/-- A pattern in normal form: its nodes in normal form, with neighbouring texts joined. -/
def normalizePattern : List Node → List Node
  | [] => []
  | node :: nodes => consNode node.normalize (normalizePattern nodes)

end

/-- The tree that the spelling of a message is read back as. It is defined for every tree, also for
those that are refused. -/
def Message.normalize (message : Message) : Message := normalizePattern message

/-- Variants are normalized one by one. The recursion through the tree is written out in the
definition. -/
theorem normalizeVariants_eq_map (variants : List Variant) :
    normalizeVariants variants = variants.map Variant.normalize := by
  induction variants with
  | nil => rfl
  | cons variant variants ih => rw [normalizeVariants, ih, List.map_cons]

/-! ### Joined texts -/

variable {nodes : List Node}

theorem consNode_of_not_isText {node : Node} (other : node.isText = false) (nodes : List Node) :
    consNode node nodes = node :: nodes := by
  cases node with
  | text value => simp [Node.isText] at other
  | _ => rfl

theorem consNode_empty (nodes : List Node) : consNode (.text "") nodes = nodes := rfl

theorem consNode_text_text {value : String} (nonempty : value ≠ "") (next : String)
    (nodes : List Node) :
    consNode (.text value) (.text next :: nodes) = .text (value ++ next) :: nodes := by
  rw [consNode, if_neg nonempty]

theorem consNode_text_of_head {value : String} (nonempty : value ≠ "")
    (other : ∀ node ∈ nodes.head?, node.isText = false) :
    consNode (.text value) nodes = .text value :: nodes := by
  rw [consNode, if_neg nonempty]
  rintro next rest rfl
  exact absurd (other _ rfl) (by simp [Node.isText])

/-- The ways to put a node in front of a pattern: it is dropped, it joins a text, or it is put
there. -/
theorem consNode_cases (node : Node) (nodes : List Node) :
    node = .text "" ∧ consNode node nodes = nodes ∨
      (∃ value next rest, value ≠ "" ∧ node = .text value ∧ nodes = .text next :: rest ∧
        consNode node nodes = .text (value ++ next) :: rest) ∨
      node ≠ .text "" ∧ (∀ next ∈ nodes.head?, ¬(node.isText = true ∧ next.isText = true)) ∧
        consNode node nodes = node :: nodes := by
  cases kind : node.isText with
  | false =>
      refine .inr (.inr ⟨?_, by simp, consNode_of_not_isText kind nodes⟩)
      rintro rfl
      simp [Node.isText] at kind
  | true =>
      obtain ⟨value, rfl⟩ : ∃ value, node = .text value := by
        cases node with
        | text value => exact ⟨value, rfl⟩
        | _ => simp [Node.isText] at kind
      by_cases empty : value = ""
      · exact .inl ⟨by rw [empty], by rw [empty, consNode_empty]⟩
      · by_cases other : ∀ next ∈ nodes.head?, next.isText = false
        · refine .inr (.inr ⟨by simpa using empty, ?_, consNode_text_of_head empty other⟩)
          intro next first both
          exact Bool.false_ne_true ((other next first).symm.trans both.2)
        · cases nodes with
          | nil => simp at other
          | cons next rest =>
              cases next with
              | text next =>
                  exact .inr (.inl ⟨value, next, rest, empty, rfl, rfl,
                    consNode_text_text empty next rest⟩)
              | _ => simp [Node.isText] at other

/-- Joining a text to the next one does not change the characters. -/
theorem flatMap_spell_consNode (node : Node) (nodes : List Node) :
    (consNode node nodes).flatMap Node.spell = node.spell ++ nodes.flatMap Node.spell := by
  rcases consNode_cases node nodes with
    ⟨rfl, same⟩ | ⟨value, next, rest, _, rfl, rfl, same⟩ | ⟨_, _, same⟩
  · rw [same]
    rfl
  · rw [same]
    simp [Node.spell]
  · rw [same, List.flatMap_cons]

/-- Joining texts does not change what a pattern spells. A pattern can therefore be laid out in
joined form from the start. -/
theorem flatMap_spell_joinTexts (nodes : List Node) :
    (joinTexts nodes).flatMap Node.spell = nodes.flatMap Node.spell := by
  induction nodes with
  | nil => rfl
  | cons node nodes ih =>
      rw [joinTexts, List.foldr_cons, ← joinTexts, flatMap_spell_consNode, ih, List.flatMap_cons]

/-- Behind a joined text there is no other, as in what the lexer finds: it takes a text up to a
brace. -/
theorem isChain_joinTexts (nodes : List Node) :
    (joinTexts nodes).IsChain fun left right => ¬(left.isText = true ∧ right.isText = true) := by
  induction nodes with
  | nil => exact .nil
  | cons node nodes ih =>
      rw [joinTexts, List.foldr_cons, ← joinTexts]
      rcases consNode_cases node (joinTexts nodes) with
        ⟨_, same⟩ | ⟨value, next, rest, _, _, joined, same⟩ | ⟨_, apart, same⟩
      · rwa [same]
      · rw [joined, List.isChain_cons] at ih
        rw [same, List.isChain_cons]
        exact ⟨fun other first => ih.1 other first, ih.2⟩
      · rw [same, List.isChain_cons]
        exact ⟨apart, ih⟩

/-- A property of nodes that concatenation of texts preserves holds of joined nodes, none of which
is an empty text. -/
theorem forall_mem_joinTexts {holds : Node → Prop} (each : ∀ node ∈ nodes, holds node)
    (append : ∀ front back, holds (.text front) → holds (.text back) →
      holds (.text (front ++ back))) :
    ∀ node ∈ joinTexts nodes, holds node ∧ node ≠ .text "" := by
  induction nodes with
  | nil => simp [joinTexts]
  | cons node nodes ih =>
      have others := ih fun node member => each node (List.mem_cons_of_mem _ member)
      have first := each node List.mem_cons_self
      rw [joinTexts, List.foldr_cons, ← joinTexts]
      rcases consNode_cases node (joinTexts nodes) with
        ⟨_, same⟩ | ⟨value, next, rest, nonempty, rfl, joined, same⟩ | ⟨nonempty, _, same⟩
      · rwa [same]
      · rw [joined, List.forall_mem_cons] at others
        rw [same, List.forall_mem_cons]
        refine ⟨⟨append value next first others.1.1, ?_⟩, others.2⟩
        simp [nonempty]
      · rw [same, List.forall_mem_cons]
        exact ⟨⟨first, nonempty⟩, others⟩

theorem joinTexts_eq_self (nonempty : ∀ node ∈ nodes, node ≠ .text "")
    (apart : nodes.IsChain fun left right => ¬(left.isText = true ∧ right.isText = true)) :
    joinTexts nodes = nodes := by
  induction nodes with
  | nil => rfl
  | cons node nodes ih =>
      rw [List.isChain_cons] at apart
      rw [List.forall_mem_cons] at nonempty
      rw [joinTexts, List.foldr_cons, ← joinTexts, ih nonempty.2 apart.2]
      rcases consNode_cases node nodes with
        ⟨empty, _⟩ | ⟨value, next, rest, _, rfl, rfl, _⟩ | ⟨_, _, same⟩
      · exact absurd empty nonempty.1
      · exact absurd ⟨rfl, rfl⟩ (apart.1 (.text next) rfl)
      · exact same

/-- A pattern passes the check of its first character unless its joined nodes start like an
expression. -/
theorem checkLeading_eq_ok_iff (nodes : List Node) :
    checkLeading nodes = .ok () ↔ startsLikeExpression (joinTexts nodes) = false := by
  have leading (index : Nat) : startsLikeExpression (joinTexts nodes) =
      (leadingChar? index nodes).any fun found => isExpressionSign found.2 := by
    induction nodes generalizing index with
    | nil => rfl
    | cons node nodes ih =>
        rw [joinTexts, List.foldr_cons, ← joinTexts]
        rcases consNode_cases node (joinTexts nodes) with
          ⟨rfl, same⟩ | ⟨value, next, rest, nonempty, rfl, joined, same⟩ | ⟨nonempty, apart, same⟩
        · rw [same, ih (index + 1)]
          rfl
        · obtain ⟨c, cs, spelled⟩ := List.exists_cons_of_ne_nil
            (mt String.toList_eq_nil_iff.mp nonempty)
          simp [same, startsLikeExpression, leadingChar?, spelled]
        · cases node with
          | text value =>
              have nonempty : value ≠ "" := by simpa using nonempty
              obtain ⟨c, cs, spelled⟩ := List.exists_cons_of_ne_nil
                (mt String.toList_eq_nil_iff.mp nonempty)
              simp [same, startsLikeExpression, leadingChar?, spelled]
          | _ => simp [same, startsLikeExpression, leadingChar?]
  rw [leading 0, checkLeading]
  split
  · rename_i index c found
    simp [found]
  · rename_i found
    simp [found]

/-! ### Normal forms -/

/-- Joining texts and normalizing nodes can be done in either order, since a node in normal form is
a text exactly when it was one. -/
theorem consNode_map (node : Node) (nodes : List Node) :
    consNode node.normalize (nodes.map Node.normalize) =
      (consNode node nodes).map Node.normalize := by
  have isText_normalize (node : Node) : node.normalize.isText = node.isText := by
    cases node <;> rfl
  rcases consNode_cases node nodes with
    ⟨rfl, same⟩ | ⟨value, next, rest, nonempty, rfl, rfl, same⟩ | ⟨nonempty, apart, same⟩
  · rw [same]
    rfl
  · rw [same]
    exact consNode_text_text nonempty next _
  · rw [same, List.map_cons]
    cases node with
    | text value =>
        apply consNode_text_of_head (by simpa using nonempty)
        intro next first
        rw [List.head?_map, Option.mem_def, Option.map_eq_some_iff] at first
        obtain ⟨other, first, rfl⟩ := first
        rw [isText_normalize, ← Bool.not_eq_true]
        exact fun text => apart other first ⟨rfl, text⟩
    | _ => rfl

/-- A pattern is normalized by joining its texts and normalizing its nodes. The definition does both
at once, as the recursion through the tree requires. -/
theorem normalizePattern_eq (nodes : List Node) :
    normalizePattern nodes = (joinTexts nodes).map Node.normalize := by
  induction nodes with
  | nil => rfl
  | cons node nodes ih => rw [normalizePattern, ih, consNode_map, joinTexts, joinTexts,
      List.foldr_cons]

theorem map_normalize_eq {options : List NamedOption}
    (canonical : ∀ option ∈ options, option.Canonical) :
    options.map NamedOption.normalize = options := by
  conv => rhs; rw [← List.map_id options]
  exact List.map_congr_left fun option member => (canonical option member).normalize_eq

theorem Expression.WellNamed.normalize_eq {expression : Expression}
    (named : expression.WellNamed NamedOption.Canonical) : expression.normalize = expression := by
  obtain ⟨operand, function⟩ := expression
  cases function with
  | none => rfl
  | some function =>
      have options := map_normalize_eq (named.function function rfl).options
      simp [normalize, Function.normalize, options]

/-- A well-formed node is in normal form. Closing markup has no options to lose. -/
theorem Node.WellFormed.normalize_eq {node : Node} (shape : node.WellFormed) :
    node.normalize = node := by
  cases node with
  | text value => rfl
  | expression content => rw [Node.normalize, Expression.WellNamed.normalize_eq shape]
  | markup mark =>
      obtain ⟨kind, name, options⟩ := mark
      cases kind with
      | opening =>
          simp [Node.normalize, Markup.normalize, map_normalize_eq (shape.1.options rfl)]
      | closing =>
          have none : options = [] := shape.2 rfl
          simp [Node.normalize, Markup.normalize, none]
  | matcher matcher => exact absurd shape (by simp [Node.WellFormed])

theorem WellFormedPattern.joinTexts_eq (pattern : WellFormedPattern nodes) :
    joinTexts nodes = nodes := by
  refine joinTexts_eq_self ?_ pattern.apart
  rintro node member rfl
  exact (pattern.shapes _ member).1 rfl

theorem WellFormedPattern.normalize_eq (pattern : WellFormedPattern nodes) :
    normalizePattern nodes = nodes := by
  rw [normalizePattern_eq, pattern.joinTexts_eq]
  conv => rhs; rw [← List.map_id nodes]
  exact List.map_congr_left fun node member => (pattern.shapes node member).normalize_eq

theorem Matcher.WellFormed.normalize_eq {matcher : Matcher} (shape : matcher.WellFormed) :
    matcher.normalize = matcher := by
  obtain ⟨selectors, variants⟩ := matcher
  rw [normalize, normalizeVariants_eq_map, Matcher.mk.injEq]
  constructor
  · conv => rhs; rw [← List.map_id selectors]
    exact List.map_congr_left fun selector member => (shape.selectors selector member).normalize_eq
  · conv => rhs; rw [← List.map_id variants]
    apply List.map_congr_left
    intro variant member
    obtain ⟨keys, body⟩ := variant
    rw [Variant.normalize, (shape.bodies _ member).normalize_eq, id]

/-- A well-formed message is in normal form. So what comes from a template is not changed by being
rendered and read back, its keys apart. -/
theorem Message.WellFormed.normalize_eq {message : Message} (shape : message.WellFormed) :
    message.normalize = message := by
  cases shape with
  | flat pattern _ => exact pattern.normalize_eq
  | matcher shape =>
      rw [normalize, normalizePattern, normalizePattern, Node.normalize, shape.normalize_eq]
      rfl

end MessageTemplate
