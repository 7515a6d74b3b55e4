import MessageTemplate.Placeholder.Extractor
import MessageTemplate.Proofs.Message.Image
import MessageTemplate.Proofs.Placeholder.Binding
import MessageTemplate.Proofs.Placeholder.Piece

/-! # Extracted messages

Every message that an extractor makes is well formed, so it is rendered and read back as itself.
What carries this from one string to the next is that every binding has a name that is a name and a
function that template text can state (`MessageTemplate.Placeholder.Extractor.Valid`).
-/

namespace MessageTemplate

namespace Placeholder

/-! ### Names of bindings -/

/-- Name characters behind a name make a name. So does the suffix that sets a name apart from those
that are taken. -/
theorem isName_append {base suffix : String} (name : isName base = true)
    (inside : ∀ c ∈ suffix.toList, isNameChar c = true) : isName (base ++ suffix) = true := by
  obtain ⟨c, cs, spelled, start⟩ := exists_cons_of_isNameChars name
  have all := all_isNameChar_of_isNameChars name
  rw [spelled, List.forall_mem_cons] at all
  rw [isName, String.toList_append, spelled, List.cons_append, isNameChars, start, Bool.true_and,
    List.all_eq_true, List.forall_mem_append]
  exact ⟨all.2, inside⟩

/-- The digits of a number are name characters, so a number can stand behind a name. -/
theorem isNameChar_toString (number : Nat) :
    ∀ c ∈ (toString number).toList, isNameChar c = true := by
  intro c member
  have digits : (toString number).toList = Nat.toDigits 10 number := Nat.toList_repr
  rw [digits] at member
  exact isNameChar_of_isDigit (Nat.isDigit_of_mem_toDigits (by decide) (by decide) member)

theorem isName_nameCandidate {base : String} (name : isName base = true) (index : Nat) :
    isName (nameCandidate base index) = true := by
  cases index with
  | zero => exact name
  | succ index =>
      have underscore : ∀ c ∈ "_".toList, isNameChar c = true :=
        List.forall_mem_singleton.mpr (by decide)
      exact isName_append (isName_append name underscore) (isNameChar_toString (index + 2))

theorem isName_freshName {base : String} (name : isName base = true) (taken : List String) :
    isName (freshName taken base) = true := by
  obtain ⟨chosen, same, _⟩ := freshName_spec taken base
  rw [same]
  exact isName_nameCandidate name chosen

theorem all_isNameChar_of_isOptionValue {cs : List Char}
    (shape : Lexeme.isOptionValue cs = true) : ∀ c ∈ cs, isNameChar c = true := by
  rw [Lexeme.isOptionValue, Bool.or_eq_true] at shape
  rcases shape with name | digits
  · exact all_isNameChar_of_isNameChars name
  · exact fun c member => isNameChar_of_isDigit (all_isDigit_of_isDigits digits c member)

/-- The name that a placeholder asks for is a name. An argument of digits is made one by the prefix,
and a placeholder without an argument has a name of its own. -/
theorem isName_baseName {argument : Option String}
    (shape : ∀ captured ∈ argument, IsArgument captured) (count : Nat) :
    isName (baseName count argument) = true := by
  cases argument with
  | none => exact isName_append (by decide) (isNameChar_toString count)
  | some captured =>
      rw [baseName]
      split
      · assumption
      · exact isName_append (by decide) (all_isNameChar_of_isOptionValue (shape captured rfl).shape)

/-! ### Bindings -/

theorem canonical_text {name value : String} (isNamed : isName name = true)
    (plain : startsOgham name = false) (isValue : isName value = true)
    (plainValue : startsOgham value = false) : NamedOption.Canonical ⟨name, .text value⟩ :=
  ⟨isNamed, plain, .inl ⟨isValue, plainValue⟩⟩

/-- Template text can state the function of a placeholder. Its options are the format, the argument
and the type, each of them a word or digits. -/
theorem wellNamed_function {placeholder : Placeholder} (shape : placeholder.WellFormed) :
    placeholder.function.WellNamed NamedOption.Canonical := by
  obtain ⟨format, argument, valueType⟩ := placeholder
  have named : isName functionName = true := by decide
  refine ⟨named, ?_⟩
  have formatOption : NamedOption.Canonical ⟨"format", .text format.name⟩ := by
    cases format <;> exact canonical_text (by decide) (by decide) (by decide) (by decide)
  have argumentOption : ∀ option ∈ (argument.map fun captured =>
      NamedOption.ofTexts "name" captured).toList, option.Canonical := by
    intro option member
    obtain ⟨captured, present, rfl⟩ := Option.map_eq_some_iff.mp (Option.mem_toList.mp member)
    have captured := shape captured present
    have named : isName "name" = true ∧ startsOgham "name" = false := by decide
    exact ⟨named.1, named.2, OptionValue.canonical_ofText captured.shape captured.plain⟩
  have typeOption : ∀ option ∈ (valueType.map fun type : ValueType =>
      (⟨"type", .text type.name⟩ : NamedOption)).toList, option.Canonical := by
    intro option member
    obtain ⟨type, _, rfl⟩ := Option.map_eq_some_iff.mp (Option.mem_toList.mp member)
    cases type <;> exact canonical_text (by decide) (by decide) (by decide) (by decide)
  exact List.forall_mem_cons.mpr ⟨formatOption,
    List.forall_mem_append.mpr ⟨argumentOption, typeOption⟩⟩

/-- A binding whose variable has a name and whose function template text can state, so that its
expression is read back as it was written. -/
structure Binding.WellFormed (binding : Binding) : Prop where
  name : isName binding.name = true
  function : binding.function.WellNamed NamedOption.Canonical

/-- The expression that refers to such a binding can stand in a template. It is never empty, and
both its parts can be read. -/
theorem Binding.WellFormed.expression {binding : Binding} (shape : binding.WellFormed) :
    binding.expression.WellNamed NamedOption.Canonical where
  filled := rfl
  operand operand present := by
    obtain rfl := Option.some_inj.mp present
    exact shape.name
  function function present := by
    obtain rfl := Option.some_inj.mp present
    exact shape.function

/-- Every binding made so far is well formed. This is the invariant of an extractor: a new binding
keeps it, and an old one is never changed. -/
def Bindings.Valid (bindings : Bindings) : Prop := ∀ binding ∈ bindings, binding.WellFormed

/-- Binding a placeholder keeps the bindings well formed, and what is bound is well formed too. -/
theorem Bindings.Valid.bind {bindings : Bindings} (valid : bindings.Valid)
    {placeholder : Placeholder} (shape : placeholder.WellFormed) (earlier : Nat) :
    (bindings.bind placeholder earlier).1.WellFormed ∧
      (bindings.bind placeholder earlier).2.Valid := by
  rcases bind_cases bindings placeholder earlier with ⟨binding, found, same⟩ | ⟨_, same⟩
  · have member : binding ∈ bindings := List.mem_of_mem_filter (List.mem_of_getElem? found)
    rw [same]
    exact ⟨valid binding member, valid⟩
  · have added : (bindings.made placeholder).WellFormed :=
      ⟨isName_freshName (isName_baseName shape bindings.length) _, wellNamed_function shape⟩
    rw [same]
    exact ⟨added, List.forall_mem_append.mpr ⟨valid, List.forall_mem_singleton.mpr added⟩⟩

/-! ### Nodes -/

/-- A plain piece becomes a well-formed text, as all reserved characters in it are escaped. -/
theorem wellFormed_textNode {chars : List Char} (nonempty : chars ≠ []) (leading : Bool) :
    (textNode leading chars).WellFormed := by
  have hidden : hides isBrace (escapeWhere isReserved chars) = true :=
    hides_escapeWhere (by decide) (fun c brace => by
      simp only [isBrace, Bool.or_eq_true, decide_eq_true_eq] at brace
      rcases brace with rfl | rfl <;> decide) chars
  obtain ⟨c, cs, escaped⟩ : ∃ c cs, escapeWhere isReserved chars = c :: cs := by
    cases chars with
    | nil => exact absurd rfl nonempty
    | cons d ds =>
        rw [escapeWhere]
        split <;> exact ⟨_, _, rfl⟩
  rw [escaped] at hidden
  simp only [textNode, escaped]
  split
  · rename_i sign
    have sign : isExpressionSign c = true := by simpa using (Bool.and_eq_true_iff.mp sign).2
    have plain : c ≠ '\\' := ne_of_kind sign (by decide)
    rw [hides_cons_of_ne plain, Bool.and_eq_true] at hidden
    refine ⟨by simp, ?_⟩
    rw [isWellEscaped, String.toList_ofList, hides]
    exact hidden.2
  · refine ⟨by simp, ?_⟩
    rw [isWellEscaped, String.toList_ofList]
    exact hidden

/-- A text at the start of a message does not start like an expression, since a sign there is
escaped. -/
theorem startsLikeExpression_textNode (chars : List Char) (nodes : List Node) :
    startsLikeExpression (textNode true chars :: nodes) = false := by
  simp only [textNode, startsLikeExpression, String.toList_ofList, Bool.true_and]
  split
  · rfl
  · rename_i plain
    exact Bool.not_eq_true _ ▸ plain

/-- Only a plain piece in front makes a text in front. This carries over that no two texts are
neighbours. -/
theorem isText_head_bindPieces {bindings : Bindings} {met : List Function} {leading : Bool}
    {pieces : List Piece} {node : Node}
    (first : node ∈ (bindPieces bindings met leading pieces).1.head?) (text : node.isText = true) :
    ∃ piece ∈ pieces.head?, piece.isPlaceholder = false := by
  cases pieces with
  | nil => simp [bindPieces] at first
  | cons piece pieces =>
      cases piece with
      | text chars => exact ⟨.text chars, rfl, rfl⟩
      | placeholder found =>
          obtain rfl := Option.some_inj.mp first
          simp [Node.isText] at text

/-- The nodes of well-formed pieces are a well-formed pattern, by induction on the pieces with the
bindings free. -/
theorem wellFormed_bindPieces {pieces : List Piece} (shape : WellFormedPieces pieces)
    {bindings : Bindings} (valid : bindings.Valid) (met : List Function) (leading : Bool) :
    WellFormedPattern (bindPieces bindings met leading pieces).1 ∧
      (bindPieces bindings met leading pieces).2.Valid := by
  induction pieces generalizing bindings met leading with
  | nil => exact ⟨⟨by simp [bindPieces], .nil⟩, valid⟩
  | cons piece pieces ih =>
      obtain ⟨each, apart⟩ := shape
      rw [List.forall_mem_cons] at each
      rw [List.isChain_cons] at apart
      cases piece with
      | text chars =>
          obtain ⟨⟨shapes, chain⟩, valid'⟩ := ih ⟨each.2, apart.2⟩ valid met false
          refine ⟨⟨?_, ?_⟩, valid'⟩
          · exact List.forall_mem_cons.mpr ⟨wellFormed_textNode each.1 leading, shapes⟩
          · refine List.isChain_cons.mpr ⟨?_, chain⟩
            rintro node first ⟨_, text⟩
            obtain ⟨other, second, plain⟩ := isText_head_bindPieces first text
            rcases apart.1 other second with placed | placed
            · exact Bool.false_ne_true placed
            · exact Bool.false_ne_true (plain.symm.trans placed)
      | placeholder found =>
          obtain ⟨binding, valid'⟩ := valid.bind each.1 (met.count found.function)
          obtain ⟨⟨shapes, chain⟩, valid''⟩ :=
            ih ⟨each.2, apart.2⟩ valid' (found.function :: met) false
          refine ⟨⟨?_, ?_⟩, valid''⟩
          · exact List.forall_mem_cons.mpr ⟨binding.expression, shapes⟩
          · refine List.isChain_cons.mpr ⟨?_, chain⟩
            rintro node _ ⟨text, _⟩
            simp [Node.isText] at text

/-- A message does not start like an expression: its first node is no text, or one that was escaped
for this place. -/
theorem startsLikeExpression_bindPieces (bindings : Bindings) (met : List Function)
    (pieces : List Piece) :
    startsLikeExpression (bindPieces bindings met true pieces).1 = false := by
  cases pieces with
  | nil => rfl
  | cons piece pieces =>
      cases piece with
      | text chars => exact startsLikeExpression_textNode chars _
      | placeholder found => rfl

/-! ### Extractors -/

namespace Extractor

variable {extractor : Extractor}

/-- A message that is made holds the nodes of the pieces, and its flag tells whether there is a
placeholder among them. -/
theorem eq_of_extract_eq_ok {text : String} {extraction : Extraction}
    (extracted : (extractor.extract text).1 = .ok extraction) :
    extraction =
      ⟨(bindPieces extractor.bindings [] true
          (pieces extractor.settings.formats text.toList)).1,
        (pieces extractor.settings.formats text.toList).any Piece.isPlaceholder⟩ := by
  simp only [extract] at extracted
  split at extracted
  · simp at extracted
  · exact (Except.ok.inj extracted).symm

theorem any_isPlaceholder_of_extract_eq_error {text : String} {error : Error}
    (refused : (extractor.extract text).1 = .error error) :
    (pieces extractor.settings.formats text.toList).any Piece.isPlaceholder = false := by
  simp only [extract] at refused
  split at refused
  · assumption
  · simp at refused

/-- Every binding that the extractor has made is well formed. -/
def Valid (extractor : Extractor) : Prop := extractor.bindings.Valid

/-- Extract strings one after the other. A run of an extractor is such a sequence of strings,
refused ones included. -/
def extractAll (extractor : Extractor) : List String → List (Except Error Extraction) × Extractor
  | [] => ([], extractor)
  | text :: texts =>
    let (result, next) := extractor.extract text
    let (results, last) := next.extractAll texts
    (result :: results, last)

theorem Valid.extract (valid : extractor.Valid) (text : String) :
    (extractor.extract text).2.Valid :=
  (wellFormed_bindPieces (wellFormed_pieces _ _) valid [] true).2

/-- A message made by a valid extractor is a pattern that does not start like an expression. These
are the two conditions under which a message without a matcher is read back. -/
theorem Valid.pattern (valid : extractor.Valid) {text : String} {extraction : Extraction}
    (extracted : (extractor.extract text).1 = .ok extraction) :
    WellFormedPattern extraction.message ∧ startsLikeExpression extraction.message = false := by
  rw [eq_of_extract_eq_ok extracted]
  exact ⟨(wellFormed_bindPieces (wellFormed_pieces _ _) valid [] true).1,
    startsLikeExpression_bindPieces _ [] _⟩

/-- Every message in a run of an extractor is such a pattern, whatever came before it. -/
theorem Valid.pattern_of_mem {texts : List String} (valid : extractor.Valid)
    {extraction : Extraction} (member : .ok extraction ∈ (extractor.extractAll texts).1) :
    WellFormedPattern extraction.message ∧ startsLikeExpression extraction.message = false := by
  induction texts generalizing extractor with
  | nil => simp [extractAll] at member
  | cons text texts ih =>
      rcases List.mem_cons.mp member with first | later
      · exact valid.pattern first.symm
      · exact ih (valid.extract text) later

theorem valid_fresh (settings : Settings) : Valid { settings } := by
  simp [Valid, Bindings.Valid]

/-- A message made by a valid extractor is rendered and read back as itself, wherever in a run of
strings it is made. -/
theorem Valid.readBack_of_mem {texts : List String} (valid : extractor.Valid)
    {extraction : Extraction} (member : .ok extraction ∈ (extractor.extractAll texts).1) :
    ∃ template, extraction.message.render = .ok template ∧
      Message.parse template = .ok extraction.message := by
  obtain ⟨pattern, plain⟩ := valid.pattern_of_mem member
  exact ⟨_, Message.render_of_wellFormed pattern plain,
    Message.parse_spell_of_wellFormed pattern plain⟩

/-- Extraction stays inside the template language: every message that an extractor makes, after
whatever strings, is rendered and read back as itself. -/
theorem readBack_extractAll (settings : Settings) (texts : List String) (extraction : Extraction)
    (member : .ok extraction ∈ (extractAll { settings } texts).1) :
    ∃ template, extraction.message.render = .ok template ∧
      Message.parse template = .ok extraction.message := by
  exact (valid_fresh settings).readBack_of_mem member

/-- A sign that would open an expression at the start of a string, and a captured argument. -/
theorem readBack_dollar_sign :
    .ok ⟨[.text "\\$5 for ", .expression ⟨some (.variable "x"), some
        ⟨"Placeholder", [⟨"format", .text "bracketVar"⟩, ⟨"name", .text "x"⟩]⟩⟩], true⟩ ∈
        (extractAll { settings := {} } ["$5 for \x7bx\x7d"]).1 ∧
      ∃ template, Message.render [.text "\\$5 for ", .expression ⟨some (.variable "x"), some
          ⟨"Placeholder", [⟨"format", .text "bracketVar"⟩, ⟨"name", .text "x"⟩]⟩⟩] = .ok template ∧
        Message.parse template = .ok [.text "\\$5 for ", .expression ⟨some (.variable "x"), some
          ⟨"Placeholder", [⟨"format", .text "bracketVar"⟩, ⟨"name", .text "x"⟩]⟩⟩] := by
  have member : .ok ⟨[.text "\\$5 for ", .expression ⟨some (.variable "x"), some
      ⟨"Placeholder", [⟨"format", .text "bracketVar"⟩, ⟨"name", .text "x"⟩]⟩⟩], true⟩ ∈
      (extractAll { settings := {} } ["$5 for \x7bx\x7d"]).1 := by decide +kernel
  exact ⟨member, readBack_extractAll {} ["$5 for \x7bx\x7d"] _ member⟩

end Extractor

end Placeholder

end MessageTemplate
