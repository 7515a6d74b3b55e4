import MessageTemplate.Proofs.Message.Cut
import MessageTemplate.Proofs.Message.Spacing

/-! # Matchers out of separate texts

A selector means the same alone and in a matcher, and so does the body of a variant. Texts that are
parsed to expressions and texts that are parsed to patterns are put together to the text of a
matcher, which is parsed to the matcher of these expressions and patterns
(`MessageTemplate.parse_assemble`).

A text leaves nothing behind that the next one could notice: the brace that closes it leads back
outside all braces, in the mode that the words around it have announced.
-/

namespace MessageTemplate

/-- Behind the first brace of a text stands the sign of an expression. In a text that is parsed
alone, at most blanks stand in front of that brace. -/
def opensExpression (text : String) : Bool :=
  ((text.toList.dropWhile (· != '{')).drop 1).head?.any isExpressionSign

/-- A text that is an expression in braces. That its first brace opens one keeps out texts of
patterns that hold a single expression. -/
structure SelectorText where
  text : String
  expression : Expression
  opens : opensExpression text = true
  parsed : Message.parse text = .ok [.expression expression]

/-- The keys of a variant, and a text that is a pattern in braces. A text that is a matcher is kept
out, since no variant can hold it. -/
structure VariantText where
  keys : List String
  text : String
  body : Message
  hasKey : keys ≠ []
  plain : opensExpression text = false
  flat : body.matcher? = none
  parsed : Message.parse text = .ok body

/-- A selector behind the word `match` or another selector. -/
def SelectorText.chars (selector : SelectorText) : List Char := ' ' :: selector.text.toList

/-- A variant behind the selectors or another variant, with its keys between bars. -/
def VariantText.chars (variant : VariantText) : List Char :=
  ' ' :: whenWord.toList ++ variant.keys.flatMap (fun key => ' ' :: quoteLiteral key) ++
    ' ' :: variant.text.toList

/-- The variant that the keys and the text stand for. -/
def VariantText.variant (variant : VariantText) : Variant := ⟨variant.keys, variant.body⟩

/-- The text of a matcher with the given selectors and variants. The texts are put in as they are,
with whatever blanks they have around their braces. -/
def assemble (selectors : List SelectorText) (variants : List VariantText) : String :=
  String.ofList (matchWord.toList ++ selectors.flatMap SelectorText.chars ++
    variants.flatMap VariantText.chars)

/-- Behind blanks and the first brace, what opens is decided by the next character. -/
theorem opensExpression_eq {text : String} {gap following : List Char}
    (split : text.toList = gap ++ '{' :: following) (blank : ∀ c ∈ gap, isBlank c = true) :
    opensExpression text = following.head?.any isExpressionSign := by
  have passed : ∀ c ∈ gap, (c != '{') = true := fun c member =>
    bne_iff_ne.mpr (ne_of_kind (blank c member) (by decide))
  rw [opensExpression, split, dropWhile_append_of_endsRun passed (endsRun_cons.mpr (by decide))]
  rfl

namespace Context

open Grammar

variable {next : Context} {chars spelling rest : List Char} {terminal : Terminal}
  {terminals others : List Terminal} {mode last : Mode}

/-- Outside all braces an opening brace is yielded where blanks and a brace are next. -/
theorem Yields.exists_openBrace
    (yields : Yields ⟨.outside, mode⟩ chars (.openBrace :: others) last) :
    ∃ gap following, chars = gap ++ '{' :: following ∧ (∀ c ∈ gap, isBlank c = true) ∧
      (opened mode following).Yields following others last := by
  obtain ⟨gap, spelling, rest, next, rfl, skips, spells, yields⟩ := yields.uncons
  rw [skips_iff (by simp)] at skips
  generalize opens : Terminal.openBrace = terminal at spells
  cases spells with
  | openOutside => exact ⟨gap, rest, by simp, skips.1, yields⟩
  | signed inside => simp [isExpression] at inside
  | _ => simp at opens

/-- Between the braces of an expression outside a pattern stands no other brace. The mode is
kept, and does not matter. -/
theorem Spells.of_loneExpression
    (spells : Spells ⟨.loneExpression, mode⟩ spelling rest terminal next) (mode' : Mode) :
    (terminal = .closeBrace ∧ next = ⟨.outside, mode⟩ ∨
        terminal ≠ .openBrace ∧ next = ⟨.loneExpression, mode⟩) ∧
      Spells ⟨.loneExpression, mode'⟩ spelling rest terminal ⟨next.region, mode'⟩ := by
  cases spells with
  | closeExpression inside => exact ⟨.inl ⟨rfl, rfl⟩, .closeExpression rfl⟩
  | number _ start taken => exact ⟨.inr ⟨by simp, rfl⟩, .number rfl start taken⟩
  | quoted _ hidden => exact ⟨.inr ⟨by simp, rfl⟩, .quoted rfl hidden⟩
  | signed _ signs shape ends =>
      refine ⟨.inr ⟨?_, rfl⟩, .signed rfl signs shape ends⟩
      rcases terminal_of_sign signs with rfl | rfl | rfl | rfl <;> simp
  | option _ shape nameEnds blank blank' gapEnds valueShape ends =>
      exact ⟨.inr ⟨by simp, rfl⟩,
        .option rfl shape nameEnds blank blank' gapEnds valueShape ends⟩

/-- The terminals of an expression up to its closing brace are yielded in every mode. The mode has a
part in what is read outside all braces only. -/
theorem Yields.of_loneExpression {inside : List Terminal}
    (yields : Yields ⟨.loneExpression, mode⟩ chars (inside ++ [.closeBrace]) last)
    (unclosed : .closeBrace ∉ inside) (mode' : Mode) :
    Yields ⟨.loneExpression, mode'⟩ chars (inside ++ [.closeBrace]) mode' := by
  -- the mode is what the context had when the first brace closes, and that is the last terminal
  generalize here : Context.mk .loneExpression mode = context at yields
  generalize same : inside ++ [.closeBrace] = terminals at yields ⊢
  induction yields generalizing inside with
  | blank => cases here
  | @cons context next gap spelling rest terminal terminals last skips spells yields ih =>
      subst here
      obtain ⟨steps, spells'⟩ := spells.of_loneExpression mode'
      cases inside with
      | nil =>
          obtain ⟨rfl, rfl⟩ := List.cons.inj same
          cases yields with
          | blank blank => exact .cons skips spells' (.blank blank)
      | cons first inside =>
          obtain ⟨rfl, rfl⟩ := List.cons.inj same
          rw [List.mem_cons, not_or] at unclosed
          obtain ⟨closes, _⟩ | ⟨_, rfl⟩ := steps
          · exact absurd closes.symm unclosed.1
          · exact .cons skips spells' (ih unclosed.2 rfl rfl)

/-- In a pattern a text or a brace is next. Nothing that starts an expression is among these, which
is how a pattern is told from one. -/
theorem Spells.of_pattern (spells : Spells ⟨.pattern, mode⟩ spelling rest terminal next) :
    terminal = .openBrace ∨ terminal = .closeBrace ∨ ∃ value, terminal = .text value := by
  cases spells with
  | openInside => exact .inl rfl
  | closePattern => exact .inr (.inl rfl)
  | closeExpression => exact .inr (.inl rfl)
  | text => exact .inr (.inr ⟨_, rfl⟩)
  | number literals => simp [readsLiterals, isExpression] at literals
  | quoted literals => simp [readsLiterals, isExpression] at literals
  | signed inside => simp [isExpression] at inside
  | option inside => simp [isExpression] at inside

/-- In an expression no brace opens. -/
theorem head_ne_openBrace (yields : Yields ⟨.loneExpression, mode⟩ chars terminals last) :
    terminals.head? ≠ some .openBrace := by
  intro opens
  obtain ⟨others, rfl⟩ := List.head?_eq_some_iff.mp opens
  obtain ⟨_, _, _, _, _, _, spells, _⟩ := yields.uncons
  obtain ⟨⟨closes, _⟩ | ⟨other, _⟩, _⟩ := spells.of_loneExpression mode
  · cases closes
  · exact other rfl

/-- In a pattern no operand and no function is next, so a pattern is told from an expression by its
first token. -/
theorem notOperand_of_pattern
    (yields : Yields ⟨.pattern, mode⟩ chars (terminal :: others) last) :
    Reading.startsExpression terminal.kind = false := by
  obtain ⟨_, _, _, _, _, _, spells, _⟩ := yields.uncons
  obtain rfl | rfl | ⟨value, rfl⟩ := spells.of_pattern <;> rfl

end Context

namespace Grammar

variable {terminals : List Terminal}

/-- No brace closes inside an expression, so the first closing brace is its own. -/
theorem DerivesExpression.closeBrace_not_mem {expression : Expression}
    (derives : DerivesExpression terminals expression) : .closeBrace ∉ terminals := by
  have options {terminals : List Terminal} {options : List NamedOption}
      (derives : Sequence DerivesOption terminals options) :
      ∀ terminal ∈ terminals, terminal ≠ .closeBrace := by
    refine derives.forall_mem fun front option first => ?_
    obtain ⟨source⟩ := first
    simp
  obtain ⟨⟨⟩⟩ | ⟨_, derives⟩ | ⟨⟨⟩, ⟨_, derives⟩⟩ := derives
  · simp
  · simp
  · simpa using fun member => options derives _ member rfl
  · simpa using fun member => options derives _ member rfl
  · simpa using fun member => options derives _ member rfl

/-- What a braced expression is derived from starts with a brace and what starts an expression. -/
theorem DerivesBraced.exists_cons {expression : Expression}
    (derives : DerivesBraced terminals expression) :
    ∃ first others, terminals = .openBrace :: first :: others ∧
      Reading.startsExpression first.kind = true := by
  obtain ⟨derives⟩ := derives
  obtain ⟨first, others, rfl, starts⟩ := derives.exists_cons
  exact ⟨first, others ++ [.closeBrace], rfl, starts⟩

/-- A message other than a matcher is derived from an opening brace and more. The matcher is the
only message that starts with a word. -/
theorem DerivesMessage.exists_openBrace {message : Message}
    (derives : DerivesMessage terminals message) (flat : message.matcher? = none) :
    ∃ first others, terminals = .openBrace :: first :: others := by
  cases derives with
  | expression derives =>
      obtain ⟨first, others, rfl, _⟩ := derives.exists_cons
      exact ⟨first, others, rfl⟩
  | pattern derives =>
      obtain @⟨inside, _, _⟩ := derives
      cases inside <;> exact ⟨_, _, rfl⟩
  | matcher => cases flat

/-- Where no second brace follows the first, a message that is one expression is derived as such and
not as a pattern that holds it. -/
theorem DerivesMessage.braced {expression : Expression} {others : List Terminal}
    (derives : DerivesMessage (.openBrace :: others) [.expression expression])
    (notBrace : others.head? ≠ some .openBrace) :
    DerivesBraced (.openBrace :: others) expression := by
  generalize same : Terminal.openBrace :: others = terminals at derives
  cases derives with
  | expression derives => exact derives
  | pattern derives =>
      -- a pattern that holds only an expression starts with two braces
      obtain ⟨derives⟩ := derives
      obtain ⟨_, rfl⟩ := List.cons.inj same
      cases derives with
      | cons first _ =>
          cases first with
          | expression derives =>
              obtain ⟨first, others, rfl, _⟩ := derives.exists_cons
              simp at notBrace

/-- A flat message behind a brace that opens no expression is derived as a pattern. -/
theorem DerivesMessage.pattern_of_flat {body : Message} {first : Terminal} {others : List Terminal}
    (derives : DerivesMessage (.openBrace :: first :: others) body) (flat : body.matcher? = none)
    (notOperand : Reading.startsExpression first.kind = false) :
    DerivesPattern (.openBrace :: first :: others) body := by
  generalize same : Terminal.openBrace :: first :: others = terminals at derives
  cases derives with
  | expression derives =>
      obtain ⟨first', others', rfl, starts⟩ := derives.exists_cons
      obtain rfl := (List.cons.inj (List.cons.inj same).2).1
      rw [starts] at notOperand
      cases notOperand
  | pattern derives => exact derives
  | matcher => cases flat

end Grammar

open Context Grammar

/-- A selector is read in a matcher as it is read alone. Alone it is read in the mode of messages,
in a matcher in that of selectors, and an expression does not notice. -/
theorem SelectorText.exists_yields (selector : SelectorText) :
    ∃ terminals, DerivesBraced terminals selector.expression ∧
      Yields ⟨.outside, .selectors⟩ selector.chars terminals .selectors := by
  obtain ⟨terminals, mode, yields, derives⟩ := Message.parse_eq_ok_iff_yields.mp selector.parsed
  obtain ⟨first, others, rfl⟩ := derives.exists_openBrace rfl
  obtain ⟨gap, following, split, blank, inner⟩ := yields.exists_openBrace
  have lone : opened .message following = ⟨.loneExpression, .message⟩ := by
    rw [opened, ← opensExpression_eq split blank, selector.opens]
    rfl
  rw [lone] at inner
  have braced := derives.braced (head_ne_openBrace inner)
  refine ⟨_, braced, ?_⟩
  generalize first :: others = behind at braced inner ⊢
  obtain ⟨derives⟩ := braced
  have shifted := inner.of_loneExpression derives.closeBrace_not_mem .selectors
  have opening : Reads ⟨.outside, .selectors⟩ ⟨' ' :: gap, ['{'], .openBrace⟩ following
      ⟨.loneExpression, .selectors⟩ :=
    reads_openOutside (List.forall_mem_cons.mpr ⟨by decide, blank⟩)
  have whole := Yields.cons opening.skips opening.spells shifted
  rw [SelectorText.chars, split]
  simpa using whole

/-- A pattern is read in a variant as it is read alone. Behind keys every brace opens a pattern;
alone this one does because its text does not start like an expression. -/
theorem VariantText.exists_yields (variant : VariantText) :
    ∃ terminals, DerivesVariant terminals variant.variant ∧
      ∀ mode, ∃ last, Yields ⟨.outside, mode⟩ variant.chars terminals last := by
  obtain ⟨terminals, last, yields, derives⟩ := Message.parse_eq_ok_iff_yields.mp variant.parsed
  obtain ⟨first, others, rfl⟩ := derives.exists_openBrace variant.flat
  obtain ⟨gap, following, split, blank, inner⟩ := yields.exists_openBrace
  have pattern : opened .message following = ⟨.pattern, .message⟩ := by
    rw [opened, ← opensExpression_eq split blank, variant.plain]
    rfl
  rw [pattern] at inner
  have derives := derives.pattern_of_flat variant.flat (notOperand_of_pattern inner)
  refine ⟨_, .keyed variant.hasKey derives, fun mode => ⟨last, ?_⟩⟩
  have opening : Reads amongKeys ⟨' ' :: gap, ['{'], .openBrace⟩ following ⟨.pattern, .message⟩ :=
    reads_openOutside (List.forall_mem_cons.mpr ⟨by decide, blank⟩)
  have body := Yields.cons opening.skips opening.spells inner
  have keys : Lexes ⟨.outside, mode⟩ (⟨[' '], whenWord.toList, .keyword whenWord⟩ ::
      variant.keys.map (keySegment quoteLiteral)) (' ' :: variant.text.toList) amongKeys :=
    lexes_whenKeys (fun key _ => keyReads_quoteLiteral key) _
  have whole := keys.yields (by simpa [split] using body)
  simpa [source_keys, VariantText.chars, keySegment, Function.comp_def] using whole

/-- Texts that all start with a space start so together, which ends whatever stands before them. -/
theorem head_of_chars {α : Type} {chars : α → List Char} {items : List α}
    (spaced : ∀ item ∈ items, ∃ tail, chars item = ' ' :: tail) :
    ∀ c ∈ (items.flatMap chars).head?, isBlank c = true ∧ c ≠ oghamSpace := by
  cases items with
  | nil => simp
  | cons item items =>
      obtain ⟨tail, starts⟩ := spaced item List.mem_cons_self
      rw [List.flatMap_cons, starts]
      intro c next
      obtain rfl : ' ' = c := by simpa using next
      exact ⟨by decide, by decide⟩

/-- The selectors are read one after the other, by induction on their number. -/
theorem exists_yields_selectors (selectors : List SelectorText) :
    ∃ terminals, Sequence DerivesBraced terminals (selectors.map (·.expression)) ∧
      Yields ⟨.outside, .selectors⟩ (selectors.flatMap SelectorText.chars) terminals
        .selectors := by
  induction selectors with
  | nil => exact ⟨[], .nil, .blank (by simp)⟩
  | cons selector selectors ih =>
      obtain ⟨front, derives, yields⟩ := selector.exists_yields
      obtain ⟨back, derives', yields'⟩ := ih
      refine ⟨front ++ back, .cons derives derives', ?_⟩
      exact yields.append (head_of_chars fun item _ => ⟨_, rfl⟩) yields'

/-- The variants are read one after the other, whatever the mode is in which they start. -/
theorem exists_yields_variants (variants : List VariantText) :
    ∃ terminals, Sequence DerivesVariant terminals (variants.map VariantText.variant) ∧
      ∀ mode, ∃ last, Yields ⟨.outside, mode⟩ (variants.flatMap VariantText.chars) terminals
        last := by
  induction variants with
  | nil => exact ⟨[], .nil, fun mode => ⟨mode, .blank (by simp)⟩⟩
  | cons variant variants ih =>
      obtain ⟨front, derives, yields⟩ := variant.exists_yields
      obtain ⟨back, derives', yields'⟩ := ih
      refine ⟨front ++ back, .cons derives derives', fun mode => ?_⟩
      obtain ⟨middle, first⟩ := yields mode
      obtain ⟨last, others⟩ := yields' middle
      exact ⟨last, first.append (head_of_chars fun item _ => ⟨_, rfl⟩) others⟩

/-- Texts of selectors and variants, put together to the text of a matcher, are parsed to the
matcher of what they are parsed to alone. -/
theorem parse_assemble {selectors : List SelectorText} {variants : List VariantText}
    (hasSelector : selectors ≠ []) (hasVariant : variants ≠ []) :
    Message.parse (assemble selectors variants) =
      .ok [.matcher ⟨selectors.map (·.expression), variants.map VariantText.variant⟩] := by
  obtain ⟨front, derives, yields⟩ := exists_yields_selectors selectors
  obtain ⟨back, derives', yields'⟩ := exists_yields_variants variants
  obtain ⟨last, others⟩ := yields' .selectors
  have both := yields.append (head_of_chars fun item _ => ⟨_, rfl⟩) others
  have ends : EndsRun isNameChar (selectors.flatMap SelectorText.chars ++
      variants.flatMap VariantText.chars) := by
    obtain ⟨selector, selectors, rfl⟩ := List.exists_cons_of_ne_nil hasSelector
    exact endsRun_space _
  have opening := reads_matchWord ends
  have whole := Yields.cons opening.skips opening.spells both
  refine Message.parse_eq_ok_iff_yields.mpr ⟨.keyword matchWord :: (front ++ back), last, ?_,
    .matcher (.choice (by simpa using hasSelector) derives (by simpa using hasVariant) derives')⟩
  simpa [assemble] using whole

/-- Two selectors, a text that looks like the words around it, and an empty one with a blank
behind it. -/
theorem parse_assemble_two_selectors :
    ∃ selectors variants,
      assemble selectors variants =
        "match \x7b$n\x7d \x7b|a| \x7d when |one| |\\|| \x7bwhen *\x7d when |*| |*| \x7b\x7d " ∧
      Message.parse (assemble selectors variants) =
        .ok [.matcher
          ⟨[⟨some (.variable "n"), none⟩, ⟨some (.literal "a"), none⟩],
            [⟨["one", "|"], [.text "when *"]⟩, ⟨["*", "*"], []⟩]⟩] := by
  refine ⟨[⟨"\x7b$n\x7d", ⟨some (.variable "n"), none⟩, ?_, ?_⟩,
      ⟨"\x7b|a| \x7d", ⟨some (.literal "a"), none⟩, ?_, ?_⟩],
    [⟨["one", "|"], "\x7bwhen *\x7d", [.text "when *"], ?_, ?_, ?_, ?_⟩,
      ⟨["*", "*"], "\x7b\x7d ", [], ?_, ?_, ?_, ?_⟩], ?_, parse_assemble ?_ ?_⟩ <;>
    decide +kernel

end MessageTemplate
