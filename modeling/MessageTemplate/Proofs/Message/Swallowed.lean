import MessageTemplate.Proofs.Message.Image

/-! # Swallowed keys

A variant key that is a name and starts with the ogham space mark is written without bars, and the
lexer skips its first character. Up to the first such key the spelling of a matcher is cut where it
was laid out (`MessageTemplate.exists_swallowed`). There the lexer finds something else than the
key (`MessageTemplate.terminal_ne_of_swallowed`), behind a gap that no layout has
(`MessageTemplate.not_isTight_of_swallowed`).
-/

namespace MessageTemplate

/-! ### Terminals up to the sources of options -/

/-- A terminal without the source of an option, which the option does not determine: digits with
leading zeros give the same integer. -/
def Terminal.shape : Terminal → Terminal
  | .option _ => .option ""
  | terminal => terminal

/-- The terminals of a function, with the sources of its options left out. -/
def Function.shape (function : Function) : List Terminal :=
  .function function.name :: function.options.map fun _ => .option ""

/-- The terminal of an operand. -/
def Operand.shape : Operand → Terminal
  | .variable name => .variable name
  | .literal value => .literal value

/-- The terminals of an expression in braces. -/
def Expression.shape (expression : Expression) : List Terminal :=
  .openBrace :: (expression.operand.toList.map Operand.shape ++
    (expression.function.elim [] Function.shape ++ [.closeBrace]))

/-- The terminals of a node, with the sources of options left out. -/
def Node.shape : Node → List Terminal
  | .text value => [.text value]
  | .expression content => content.shape
  | .markup ⟨.opening, name, options⟩ =>
    .openBrace :: .markupOpen name :: (options.map (fun _ => .option "") ++ [.closeBrace])
  | .markup ⟨.closing, name, _⟩ => [.openBrace, .markupClose name, .closeBrace]
  | .matcher _ => []

/-- The terminals of a variant. -/
def Variant.shape (variant : Variant) : List Terminal :=
  .keyword whenWord :: (variant.keys.map .literal ++
    .openBrace :: (variant.body.flatMap Node.shape ++ [.closeBrace]))

/-- The terminals of a matcher. Its keys are among them, which is what the comparison is about. -/
def Matcher.shape (matcher : Matcher) : List Terminal :=
  .keyword matchWord :: (matcher.selectors.flatMap Expression.shape ++
    matcher.variants.flatMap Variant.shape)

section Shapes

open Grammar

variable {terminals : List Terminal}

/-- What is derived item by item has the terminals of the items. -/
theorem map_shape_of_sequence {α : Type} {derives : List Terminal → α → Prop}
    {shape : α → List Terminal} {items : List α} (sequence : Sequence derives terminals items)
    (each : ∀ front item, derives front item → front.map Terminal.shape = shape item) :
    terminals.map Terminal.shape = items.flatMap shape := by
  induction sequence with
  | nil => rfl
  | cons first _ ih => rw [List.map_append, each _ _ first, ih, List.flatMap_cons]

theorem map_shape_of_options {options : List NamedOption}
    (derives : Sequence DerivesOption terminals options) :
    terminals.map Terminal.shape = options.map fun _ => .option "" := by
  rw [@List.map_eq_flatMap _ _ _ options]
  apply map_shape_of_sequence derives
  intro front option first
  obtain ⟨source⟩ := first
  rfl

theorem map_shape_of_operand {operand : Operand} (derives : DerivesOperand terminals operand) :
    terminals.map Terminal.shape = [operand.shape] := by
  obtain name | value := derives <;> rfl

theorem map_shape_of_function {function : Function}
    (derives : DerivesFunction terminals function) :
    terminals.map Terminal.shape = function.shape := by
  obtain ⟨name, derives⟩ := derives
  rw [List.map_cons, map_shape_of_options derives]
  rfl

/-- An expression determines its terminals, by cases on which parts are there. -/
theorem map_shape_of_braced {expression : Expression}
    (derives : DerivesBraced terminals expression) :
    terminals.map Terminal.shape = expression.shape := by
  obtain ⟨derives⟩ := derives
  rw [List.map_cons, List.map_append]
  obtain derives | derives | ⟨derives, derives'⟩ := derives
  · rw [map_shape_of_operand derives]
    rfl
  · rw [map_shape_of_function derives]
    rfl
  · rw [List.map_append, map_shape_of_operand derives, map_shape_of_function derives']
    rfl

theorem map_shape_of_element {node : Node} (derives : DerivesElement terminals node) :
    terminals.map Terminal.shape = node.shape := by
  obtain value | derives | ⟨name, derives⟩ | name := derives
  · rfl
  · exact map_shape_of_braced derives
  · rw [List.map_cons, List.map_cons, List.map_append, map_shape_of_options derives]
    rfl
  · rfl

theorem map_shape_of_variant {variant : Variant} (derives : DerivesVariant terminals variant) :
    terminals.map Terminal.shape = variant.shape := by
  obtain ⟨_, ⟨derives⟩⟩ := derives
  have body := map_shape_of_sequence derives fun _ _ => map_shape_of_element
  rw [List.map_cons, List.map_append, List.map_cons, List.map_append, body, List.map_map]
  rfl

/-- A matcher determines the terminals that derive it, up to the sources of options. So two cuts of
one spelling that derive it have the same key at the same place. -/
theorem map_shape_of_matcher {matcher : Matcher} (derives : DerivesMatcher terminals matcher) :
    terminals.map Terminal.shape = matcher.shape := by
  obtain ⟨_, selectors, _, variants⟩ := derives
  rw [List.map_cons, List.map_append,
    map_shape_of_sequence selectors fun _ _ => map_shape_of_braced,
    map_shape_of_sequence variants fun _ _ => map_shape_of_variant]
  rfl

/-- A matcher is derived as a message only by its own terminals. -/
theorem derivesMatcher_of_message {matcher : Matcher}
    (derives : DerivesMessage terminals [.matcher matcher]) :
    DerivesMatcher terminals matcher := by
  generalize same : [Node.matcher matcher] = message at derives
  obtain _ | ⟨⟨derives⟩⟩ | derives := derives
  · simp at same
  · subst same
    cases derives with
    | cons first _ => nomatch first
  · obtain ⟨⟩ := same
    exact derives

end Shapes

/-! ### Swallowed keys -/

theorem startsOgham_of_isSwallowed {key : String} (swallowed : isSwallowed key = true) :
    isName key = true ∧ ∃ cs, key.toList = oghamSpace :: cs := by
  rw [isSwallowed, Bool.and_eq_true] at swallowed
  refine ⟨swallowed.1, ?_⟩
  obtain ⟨c, cs, spelled, _⟩ := exists_cons_of_isNameChars swallowed.1
  have first : c = oghamSpace := by simpa [startsOgham, spelled] using swallowed.2
  exact ⟨cs, first ▸ spelled⟩

theorem spellKey_of_isSwallowed {key : String} (swallowed : isSwallowed key = true) :
    spellKey key = key.toList := by
  obtain ⟨name, cs, spelled⟩ := startsOgham_of_isSwallowed swallowed
  have notMatch : key ≠ matchWord := by
    rintro rfl
    exact absurd (List.cons.inj spelled).1 (by decide)
  have notWhen : key ≠ whenWord := by
    rintro rfl
    exact absurd (List.cons.inj spelled).1 (by decide)
  rw [spellKey, if_pos]
  simp [isBareKey, name, notMatch, notWhen]

section Swallowed

variable {segment : Segment} {rest : List Char} {next : Context} {key : String}

theorem endsRun_of_reads (reads : Context.amongKeys.Reads segment rest next) :
    (∀ c ∈ segment.gap, isBlank c = true) ∧ EndsRun isBlank segment.spelling :=
  (Context.skips_iff (by decide)).mp reads.skips

/-- Among keys a swallowed key is read only from between bars, since a bare word that is read there
does not start with a blank. -/
theorem head_of_isSwallowed (reads : Context.amongKeys.Reads segment rest next)
    (literal : segment.terminal = .literal key) (swallowed : isSwallowed key = true) :
    segment.spelling.head? = some '|' := by
  have ends := (endsRun_of_reads reads).2
  obtain ⟨name, cs, spelled⟩ := startsOgham_of_isSwallowed swallowed
  obtain ⟨gap, spelling, terminal⟩ := segment
  have spells := reads.spells
  simp only at spells literal ends
  -- what is spelled bare starts with the character that it is spelled with
  have bare (same : spelling = key.toList) : spelling.head? = some '|' := by
    rw [same, spelled, endsRun_cons] at ends
    exact absurd ends (by decide)
  generalize same : Context.amongKeys = context at spells
  cases spells with
  | catchAll => exact bare (by rw [← Terminal.literal.inj literal, String.toList_ofList])
  | bareKey => exact bare (by rw [← Terminal.literal.inj literal, String.toList_ofList])
  | number => exact bare (by rw [← Terminal.literal.inj literal, String.toList_ofList])
  | quoted => rfl
  | signed inside =>
      subst same
      exact absurd inside (by decide)
  | _ => simp at literal

/-- Without its blanks a swallowed key is nothing or starts with a name character. -/
theorem dropWhile_of_isSwallowed (swallowed : isSwallowed key = true) (tail : List Char) :
    (key.toList ++ tail).dropWhile isBlank = tail.dropWhile isBlank ∨
      ((key.toList ++ tail).dropWhile isBlank).head? ≠ some '|' := by
  cases dropped : key.toList.dropWhile isBlank with
  | nil => exact .inl (List.dropWhile_append_of_pos (List.dropWhile_eq_nil_iff.mp dropped))
  | cons c cs =>
      right
      have letter : isNameChar c = true := by
        apply all_isNameChar_of_isNameChars (startsOgham_of_isSwallowed swallowed).1
        apply (List.dropWhile_sublist isBlank).mem
        rw [dropped]
        exact List.mem_cons_self
      rw [List.dropWhile_append, dropped]
      intro bar
      exact ne_of_kind letter (by decide) (Option.some_inj.mp bar)

/-- Where a key that is not swallowed is spelled, it is what is read. Behind skipped characters the
lexer is in step with the layout again. -/
theorem terminal_eq_of_kept (reads : Context.amongKeys.Reads segment rest next)
    (kept : isSwallowed key = false) {tail : List Char} (tailEnds : EndsRun isNameChar tail)
    (ahead : segment.spelling ++ rest = (spellKey key ++ tail).dropWhile isBlank) :
    segment.terminal = .literal key := by
  have known := keyReads_spellKey kept tail tailEnds
  have keyEnds := (endsRun_of_reads known).2
  rw [keySegment] at keyEnds known
  rw [dropWhile_of_endsRun ((endsRun_append known.spells.ne_nil).mpr keyEnds)] at ahead
  have shifted :
      Context.amongKeys.Reads ⟨[' '], segment.spelling, segment.terminal⟩ rest next :=
    ⟨Context.skips_of_ends (by decide) isBlank_space (endsRun_of_reads reads).2, reads.spells⟩
  obtain ⟨same, _⟩ := shifted.unique known (by simp [ahead])
  exact congrArg Segment.terminal same

/-- Whatever is read behind the spelling of keys, blanks apart, is no swallowed key. The induction
is on the keys, as a swallowed one may vanish altogether. -/
theorem not_isSwallowed_of_reads {keys : List String} {tail : List Char}
    (reads : Context.amongKeys.Reads segment rest next)
    (ahead : segment.spelling ++ rest =
      (source (keys.map (keySegment spellKey)) ++ ' ' :: '{' :: tail).dropWhile isBlank)
    (literal : segment.terminal = .literal key) : isSwallowed key = false := by
  rw [Bool.eq_false_iff]
  intro swallowed
  have first : (segment.spelling ++ rest).head? = some '|' := by
    rw [List.head?_append_of_ne_nil _ reads.spells.ne_nil]
    exact head_of_isSwallowed reads literal swallowed
  -- keys that leave nothing but blanks are passed over; the first one that does not decides
  induction keys with
  | nil =>
      rw [ahead] at first
      simp [isBlank, CharClass.contains, CharClass.blank] at first
  | cons other keys ih =>
      rw [List.map_cons, source_cons, keySegment, List.append_assoc, List.append_assoc,
        List.dropWhile_append_of_pos isBlank_space] at ahead
      by_cases kept : isSwallowed other = false
      · have same := terminal_eq_of_kept reads kept (endsRun_keys keys ('{' :: tail)) ahead
        rw [literal, Terminal.literal.injEq] at same
        rw [same, kept] at swallowed
        exact Bool.false_ne_true swallowed
      · rw [Bool.not_eq_false] at kept
        rw [spellKey_of_isSwallowed kept] at ahead
        rcases dropWhile_of_isSwallowed kept
          (source (keys.map (keySegment spellKey)) ++ ' ' :: '{' :: tail) with gone | letter
        · exact ih (ahead.trans gone)
        · rw [ahead] at first
          exact letter first

end Swallowed

/-- The first item of a kind splits a list that has one. -/
theorem exists_first {α : Type} {holds : α → Bool} {items : List α}
    (found : ∃ item ∈ items, holds item = true) :
    ∃ front item back, items = front ++ item :: back ∧ holds item = true ∧
      ∀ other ∈ front, holds other = false := by
  obtain ⟨item, first⟩ := Option.isSome_iff_exists.mp (List.find?_isSome.mpr found)
  obtain ⟨held, front, back, split, others⟩ := List.find?_eq_some_iff_append.mp first
  exact ⟨front, item, back, split, held, fun other member => by simpa using others other member⟩

/-- The first variant with a swallowed key, split at the first such key. All keys before it are read
back. -/
theorem exists_first_swallowed {variants : List Variant}
    (swallowed : ∃ variant ∈ variants, ∃ key ∈ variant.keys, isSwallowed key = true) :
    ∃ before keysBefore key keys body after,
      variants = before ++ ⟨keysBefore ++ key :: keys, body⟩ :: after ∧ isSwallowed key = true ∧
        (∀ other ∈ keysBefore, KeyReads spellKey other) ∧
          ∀ variant ∈ before, ∀ other ∈ variant.keys, KeyReads spellKey other := by
  have found : ∃ variant ∈ variants, variant.keys.any isSwallowed = true := by
    simpa using swallowed
  obtain ⟨before, ⟨all, body⟩, after, split, some, kept⟩ := exists_first found
  obtain ⟨keysBefore, key, keys, rfl, held, keptKeys⟩ := exists_first (List.any_eq_true.mp some)
  refine ⟨before, keysBefore, key, keys, body, after, split, held, ?_, ?_⟩
  · intro other inside
    exact keyReads_spellKey (keptKeys other inside)
  · intro variant member other inside
    have none := kept variant member
    rw [List.any_eq_false] at none
    exact keyReads_spellKey (Bool.not_eq_true _ ▸ none other inside)

/-- The spelling of a matcher is cut where it was laid out, up to its first swallowed key. The
matcher is split there, and what stands before is read as the layout has it. -/
theorem exists_swallowed {matcher : Matcher} (readable : matcher.Readable)
    (swallowed : ∃ variant ∈ matcher.variants, ∃ key ∈ variant.keys, isSwallowed key = true) :
    ∃ front key keys tail, isSwallowed key = true ∧
      matcher.segments spellKey = ⟨[], matchWord.toList, .keyword matchWord⟩ ::
        (front ++ ((key :: keys).map (keySegment spellKey) ++ ⟨[' '], ['{'], .openBrace⟩ :: tail)) ∧
      Lexes {} (⟨[], matchWord.toList, .keyword matchWord⟩ :: front)
        (source ((key :: keys).map (keySegment spellKey) ++ ⟨[' '], ['{'], .openBrace⟩ :: tail))
        .amongKeys := by
  obtain ⟨before, keysBefore, key, keys, body, after, split, held, readsKeys, readsBefore⟩ :=
    exists_first_swallowed swallowed
  have readableBefore : ∀ variant ∈ before, ∀ node ∈ variant.body, node.Readable := by
    intro variant member
    apply readable.bodies
    rw [split]
    exact List.mem_append_left _ member
  let selectors := matcher.selectors.flatMap fun selector =>
    bracedSegments [' '] selector.segments
  let variants := before.flatMap (Variant.segments spellKey)
  let opening := ⟨[' '], whenWord.toList, .keyword whenWord⟩ :: keysBefore.map (keySegment spellKey)
  let tail := (joinTexts body).flatMap Node.segments ++ ⟨[], ['}'], .closeBrace⟩ ::
    after.flatMap (Variant.segments spellKey)
  let back := (key :: keys).map (keySegment spellKey) ++ ⟨[' '], ['{'], .openBrace⟩ :: tail
  refine ⟨selectors ++ (variants ++ opening), key, keys, tail, held, ?_, ?_⟩
  · rw [Matcher.segments, split, List.flatMap_append, List.flatMap_cons, Variant.segments]
    simp [patternSegments, bracedSegments, selectors, variants, opening, tail]
  · obtain ⟨mode, ofVariants⟩ :=
      @lexes_variants (source opening ++ source back) _ _ readsBefore readableBefore .selectors
    have ofOpening : Lexes ⟨.outside, mode⟩ opening (source back) .amongKeys :=
      lexes_whenKeys readsKeys _
    have ofSelectors := @lexes_selectors (source (variants ++ opening) ++ source back)
      matcher.selectors readable.selectors
    refine .cons (reads_matchWord ?_) (Lexes.append ofSelectors (Lexes.append ofVariants ofOpening))
    rw [source_append, List.append_assoc]
    exact endsRun_selectors readable.hasSelector _

theorem shape_eq_literal_iff {terminal : Terminal} {key : String} :
    terminal.shape = .literal key ↔ terminal = .literal key := by
  cases terminal <;> simp [Terminal.shape]

/-- Where the layout has a swallowed key, the lexer does not find that key. It may find another key
or the body of the variant. -/
theorem terminal_ne_of_swallowed {segment : Segment} {segments : List Segment} {last : Context}
    {gap : List Char} {keys : List String} {tail : List Segment} {key : String}
    (lexes : Lexes .amongKeys (segment :: segments) gap last)
    (ahead : source (keys.map (keySegment spellKey) ++ ⟨[' '], ['{'], .openBrace⟩ :: tail) =
      source (segment :: segments) ++ gap)
    (swallowed : isSwallowed key = true) : segment.terminal ≠ .literal key := by
  intro literal
  cases lexes with
  | cons reads _ =>
      obtain ⟨blank, ends⟩ := endsRun_of_reads reads
      have behind : segment.spelling ++ (source segments ++ gap) =
          (source (keys.map (keySegment spellKey)) ++ ' ' :: '{' :: source tail).dropWhile
            isBlank := by
        rw [source_append, source_cons] at ahead
        simp only [List.cons_append, List.nil_append, source_cons, List.append_assoc] at ahead
        have ends : EndsRun isBlank (segment.spelling ++ (source segments ++ gap)) :=
          (endsRun_append reads.spells.ne_nil).mpr ends
        rw [ahead, dropWhile_append_of_endsRun blank ends]
      have kept := not_isSwallowed_of_reads reads behind literal
      exact Bool.false_ne_true (kept.symm.trans swallowed)

/-! ### Gaps -/

/-- The gaps of a layout: nothing or one space. A spelling in which a key was swallowed is cut with
a wider gap, so it is no layout of anything. -/
def Segment.IsTight (segment : Segment) : Prop := segment.gap = [] ∨ segment.gap = [' ']

theorem isTight_options (options : List NamedOption) :
    ∀ segment ∈ options.map NamedOption.segment, segment.IsTight :=
  List.forall_mem_map.mpr fun _ _ => .inr rfl

theorem isTight_function (function : Function) :
    ∀ segment ∈ function.segments [] ++ function.segments [' '], segment.IsTight := by
  have options := isTight_options function.options
  rw [List.forall_mem_append]
  constructor
  · exact List.forall_mem_cons.mpr ⟨.inl rfl, options⟩
  · exact List.forall_mem_cons.mpr ⟨.inr rfl, options⟩

theorem isTight_expression (expression : Expression) :
    ∀ segment ∈ expression.segments, segment.IsTight := by
  obtain ⟨operand, function⟩ := expression
  have first (operand : Operand) : operand.segment.IsTight := .inl (source_operand operand).1
  cases operand with
  | none =>
      cases function with
      | none => simp [Expression.segments]
      | some function => exact (List.forall_mem_append.mp (isTight_function function)).1
  | some operand =>
      cases function with
      | none => exact List.forall_mem_singleton.mpr (first operand)
      | some function =>
          have second := (List.forall_mem_append.mp (isTight_function function)).2
          exact List.forall_mem_cons.mpr ⟨first operand, second⟩

theorem isTight_braced {gap : List Char} {inside : List Segment} (tight : gap = [] ∨ gap = [' '])
    (each : ∀ segment ∈ inside, segment.IsTight) :
    ∀ segment ∈ bracedSegments gap inside, segment.IsTight := by
  rw [bracedSegments, List.forall_mem_cons, List.forall_mem_append, List.forall_mem_singleton]
  exact ⟨tight, each, .inl rfl⟩

theorem isTight_node (node : Node) : ∀ segment ∈ node.segments, segment.IsTight := by
  cases node with
  | text value => exact List.forall_mem_singleton.mpr (.inl rfl)
  | expression content => exact isTight_braced (.inl rfl) (isTight_expression content)
  | markup mark =>
      obtain ⟨kind, name, options⟩ := mark
      apply isTight_braced (.inl rfl)
      cases kind with
      | opening => exact List.forall_mem_cons.mpr ⟨.inl rfl, isTight_options options⟩
      | closing => exact List.forall_mem_singleton.mpr (.inl rfl)
  | matcher matcher => simp [Node.segments]

theorem isTight_variant (spell : String → List Char) (variant : Variant) :
    ∀ segment ∈ variant.segments spell, segment.IsTight := by
  rw [Variant.segments, List.forall_mem_cons, List.forall_mem_append, List.forall_mem_map]
  refine ⟨.inr rfl, fun _ _ => .inr rfl, isTight_braced (.inr rfl) ?_⟩
  intro segment member
  obtain ⟨node, _, inside⟩ := List.mem_flatMap.mp member
  exact isTight_node node segment inside

theorem isTight_matcher (spell : String → List Char) (matcher : Matcher) :
    ∀ segment ∈ matcher.segments spell, segment.IsTight := by
  rw [Matcher.segments, List.forall_mem_cons, List.forall_mem_append]
  refine ⟨.inl rfl, ?_, ?_⟩
  · intro segment member
    obtain ⟨selector, _, inside⟩ := List.mem_flatMap.mp member
    exact isTight_braced (.inr rfl) (isTight_expression selector) segment inside
  · intro segment member
    obtain ⟨variant, _, inside⟩ := List.mem_flatMap.mp member
    exact isTight_variant spell variant segment inside

/-- The blanks in front of a swallowed key and its first character make no tight gap. This is the
trace that a swallowed key leaves in every cut of its spelling. -/
theorem not_isTight_of_swallowed {segment : Segment} {segments : List Segment} {last : Context}
    {gap rest : List Char} {key : String} (lexes : Lexes .amongKeys (segment :: segments) gap last)
    (ahead : ' ' :: key.toList ++ rest = source (segment :: segments) ++ gap)
    (swallowed : isSwallowed key = true) : ¬segment.IsTight := by
  obtain ⟨_, cs, spelled⟩ := startsOgham_of_isSwallowed swallowed
  cases lexes with
  | cons reads _ =>
      have ends := (endsRun_of_reads reads).2
      obtain ⟨c, spelling, shown⟩ := List.exists_cons_of_ne_nil reads.spells.ne_nil
      rw [shown, endsRun_cons] at ends
      rw [spelled, source_cons, shown] at ahead
      rintro (none | space)
      · rw [none] at ahead
        obtain ⟨rfl, _⟩ := List.cons.inj ahead
        exact absurd ends (by decide)
      · rw [space] at ahead
        obtain ⟨rfl, _⟩ := List.cons.inj (List.cons.inj ahead).2
        exact absurd ends (by decide)

end MessageTemplate
