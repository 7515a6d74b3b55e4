import Mathlib.Data.List.Infix
import MessageTemplate.Proofs.Placeholder.Sharing

/-! # What a message tells of its text

A message shows the plain pieces of the text that it was made from, and of each placeholder its
function. How the placeholder was spelled beyond that is lost: two texts have the same message as
soon as their pieces are alike, and a text is told by its message only together with the spellings
of its placeholders (`MessageTemplate.Placeholder.Extractor.text_eq_iff_of_extract`).
-/

namespace MessageTemplate

namespace Placeholder

/-- Pieces that are the same but for what a function leaves open of its placeholder. Where a
function has not been met before, its placeholders also name the same argument. -/
inductive Alike : (met : List Function) → List Piece → List Piece → Prop
  | nil {met : List Function} : Alike met [] []
  | text {met : List Function} {chars : List Char} {pieces others : List Piece}
      (alike : Alike met pieces others) : Alike met (.text chars :: pieces) (.text chars :: others)
  | placeholder {met : List Function} {placeholder other : Placeholder}
      {pieces others : List Piece} (same : placeholder.function = other.function)
      (named : placeholder.function ∉ met → placeholder.argument = other.argument)
      (alike : Alike (placeholder.function :: met) pieces others) :
      Alike met (.placeholder placeholder :: pieces) (.placeholder other :: others)

/-! ### Names and arguments -/

/-- A base name without an underscore is what stands before the underscore of a candidate, or the
whole of it. -/
theorem takeWhile_nameCandidate {base : String} (plain : '_' ∉ base.toList) (index : Nat) :
    (nameCandidate base index).toList.takeWhile (· ≠ '_') = base.toList := by
  have all : ∀ c ∈ base.toList, decide (c ≠ '_') = true :=
    fun c member => decide_eq_true fun same => plain (same ▸ member)
  cases index with
  | zero => exact List.takeWhile_eq_self_iff.mpr all
  | succ index =>
      have underscore : "_".toList = ['_'] := rfl
      rw [nameCandidate, numberedName, String.toList_append, String.toList_append, underscore,
        List.append_assoc, List.takeWhile_append_of_pos all]
      simp

/-- A fresh name tells its base name if this has no underscore. A suffix is set apart by one, so it
can be cut off again. -/
theorem eq_of_freshName_eq {taken : List String} {base other : String}
    (plain : '_' ∉ base.toList) (plain' : '_' ∉ other.toList)
    (same : freshName taken base = freshName taken other) : base = other := by
  obtain ⟨chosen, found, _⟩ := freshName_spec taken base
  obtain ⟨chosen', found', _⟩ := freshName_spec taken other
  rw [found, found'] at same
  have fronts := congrArg (fun name => name.toList.takeWhile (· ≠ '_')) same
  simp only [takeWhile_nameCandidate plain, takeWhile_nameCandidate plain'] at fronts
  exact String.toList_inj.mp fronts

/-- Different texts with one value are runs of digits, such as `1` and `01`. All other texts can be
told from the values they become. -/
theorem eq_or_isDigits_of_ofText_eq {text other : String}
    (same : OptionValue.ofText text = .ofText other) :
    text = other ∨ isDigits text.toList = true ∧ isDigits other.toList = true := by
  cases read : OptionValue.ofText other with
  | int value =>
      rw [read, OptionValue.ofText_eq_int_iff] at same
      exact .inr ⟨same.1, (OptionValue.ofText_eq_int_iff.mp read).1⟩
  | text value =>
      rw [read, OptionValue.ofText_eq_text_iff] at same
      exact .inl (same.1.symm.trans (OptionValue.ofText_eq_text_iff.mp read).1)

theorem argument_of_function (placeholder : Placeholder) :
    placeholder.function.option? "name" = placeholder.argument.map OptionValue.ofText := by
  obtain ⟨format, argument, valueType⟩ := placeholder
  cases argument <;> cases valueType <;> simp [Function.option?, function, NamedOption.ofTexts]

theorem baseName_of_isDigits {argument : String} (digits : isDigits argument.toList = true)
    (count : Nat) : baseName count (some argument) = "arg" ++ argument := by
  rw [baseName, isName, isNameChars_eq_false_of_isDigits digits, if_neg (by simp)]

theorem underscore_not_mem_of_isDigits {argument : String}
    (digits : isDigits argument.toList = true) : '_' ∉ ("arg" ++ argument).toList := by
  rw [String.toList_append, List.mem_append]
  rintro (letter | digit)
  · exact absurd letter (by decide)
  · exact absurd (all_isDigit_of_isDigits digits _ digit) (by decide)

/-- Placeholders with one function that get the same new name also name the same argument. Only
digits can differ in text and agree in value, and their base names keep the difference. -/
theorem argument_eq_of_made {bindings : Bindings} {placeholder other : Placeholder}
    (same : placeholder.function = other.function)
    (names : (bindings.made placeholder).name = (bindings.made other).name) :
    placeholder.argument = other.argument := by
  have values := argument_of_function other
  rw [← same, argument_of_function] at values
  cases first : placeholder.argument with
  | none =>
      rw [first] at values
      exact (Option.map_eq_none_iff.mp values.symm).symm
  | some argument =>
      rw [first] at values
      obtain ⟨argument', second, value⟩ := Option.map_eq_some_iff.mp values.symm
      rw [second]
      rcases eq_or_isDigits_of_ofText_eq value with rfl | ⟨digits', digits⟩
      · rfl
      · simp only [Bindings.made, first, second, baseName_of_isDigits digits,
          baseName_of_isDigits digits'] at names
        have bases := eq_of_freshName_eq (underscore_not_mem_of_isDigits digits)
          (underscore_not_mem_of_isDigits digits') names
        rw [(String.append_right_inj _).mp bases]

/-! ### Bindings of a fresh extractor -/

/-- The functions met in a text are those that there are bindings for. This holds throughout the
first text of an extractor. -/
def Bindings.Meets (bindings : Bindings) (met : List Function) : Prop :=
  ∀ function, function ∈ met ↔ bindings.forFunction function ≠ []

namespace Bindings

variable {bindings : Bindings} {met : List Function} {placeholder other : Placeholder}

/-- A placeholder that is bound has been met, and no other one has. This keeps the invariant from
one piece to the next. -/
theorem Meets.bind (meets : bindings.Meets met) (earlier : Nat) :
    (bindings.bind placeholder earlier).2.Meets (placeholder.function :: met) := by
  intro function
  rcases bind_cases bindings placeholder earlier with ⟨binding, found, same⟩ | ⟨_, same⟩
  · rw [same, List.mem_cons, meets function]
    refine ⟨?_, .inr⟩
    rintro (rfl | there)
    · exact List.ne_nil_of_mem (List.mem_of_getElem? found)
    · exact there
  · rw [same, List.mem_cons, meets function, forFunction_append]
    by_cases own : placeholder.function = function
    · simp [own, forFunction, made]
    · simp [Ne.symm own, own, forFunction, made]

/-- A function that has not been met gets a new binding. -/
theorem Meets.bind_of_not_mem (meets : bindings.Meets met) (fresh : placeholder.function ∉ met)
    (earlier : Nat) :
    bindings.bind placeholder earlier =
      (bindings.made placeholder, bindings ++ [bindings.made placeholder]) := by
  rcases bind_cases bindings placeholder earlier with ⟨binding, found, _⟩ | ⟨_, made⟩
  · have held := List.ne_nil_of_mem (List.mem_of_getElem? found)
    exact absurd ((meets _).mpr held) fresh
  · exact made

/-- Placeholders whose bindings are referred to by the same expression are alike. The expression has
the function, and the name of a new binding tells the argument. -/
theorem alike_of_bind (meets : bindings.Meets met) {earlier earlier' : Nat}
    (same : (bindings.bind placeholder earlier).1.expression =
      (bindings.bind other earlier').1.expression) :
    placeholder.function = other.function ∧
      (placeholder.function ∉ met → placeholder.argument = other.argument) := by
  rw [bind_expression, bind_expression, Expression.mk.injEq, Option.some_inj, Option.some_inj,
    Operand.variable.injEq] at same
  obtain ⟨names, functions⟩ := same
  refine ⟨functions, fun fresh => ?_⟩
  rw [meets.bind_of_not_mem fresh, meets.bind_of_not_mem (functions ▸ fresh)] at names
  exact argument_eq_of_made functions names

/-- Placeholders that are alike get the same binding. The argument counts only where a new name is
made of it. -/
theorem bind_eq_of_alike (meets : bindings.Meets met)
    (same : placeholder.function = other.function)
    (named : placeholder.function ∉ met → placeholder.argument = other.argument) (earlier : Nat) :
    bindings.bind placeholder earlier = bindings.bind other earlier := by
  by_cases argument : placeholder.argument = other.argument
  · simp only [bind, same, argument]
  -- a function that names its argument has one binding, whose name was chosen before
  have held : bindings.forFunction placeholder.function ≠ [] :=
    (meets _).mp (not_not.mp fun fresh => argument (named fresh))
  have present : other.argument.isSome = placeholder.argument.isSome := by
    rw [← namesArgument_function, ← namesArgument_function, same]
  have some : placeholder.argument.isSome = true := by
    rw [Option.isSome_iff_ne_none]
    intro none
    rw [none, Option.isSome_none, Option.isSome_eq_false_iff, Option.isNone_iff_eq_none] at present
    exact argument (none.trans present.symm)
  obtain ⟨binding, rest, found⟩ := List.exists_cons_of_ne_nil held
  simp only [bind, present, some, ← same, found, if_true, List.getElem?_cons_zero]

end Bindings

/-! ### Nodes -/

theorem textNode_inj {leading : Bool} {chars others : List Char}
    (same : textNode leading chars = textNode leading others) : chars = others := by
  obtain ⟨value, made, shown⟩ := exists_textNode leading chars
  obtain ⟨value', made', shown'⟩ := exists_textNode leading others
  rw [made, made', Node.text.injEq] at same
  rw [← shown, same, shown']

theorem textNode_ne_expression (leading : Bool) (chars : List Char) (expression : Expression) :
    textNode leading chars ≠ .expression expression := by
  obtain ⟨value, made, _⟩ := exists_textNode leading chars
  rw [made]
  simp

/-- Pieces that are alike make the same message with the same bindings. This is the easy direction:
nothing else of a piece is looked at. -/
theorem bindPieces_eq_of_alike {met : List Function} {pieces others : List Piece}
    (alike : Alike met pieces others) {bindings : Bindings} (meets : bindings.Meets met)
    (leading : Bool) :
    bindPieces bindings met leading pieces = bindPieces bindings met leading others := by
  induction alike generalizing bindings leading with
  | nil => rfl
  | text alike ih => rw [bindPieces, bindPieces, ih meets]
  | @placeholder met placeholder other pieces others same named alike ih =>
      have bound := Bindings.bind_eq_of_alike meets same named (met.count placeholder.function)
      have rest := ih (meets.bind (met.count placeholder.function)) false
      rw [bound] at rest
      simp only [bindPieces, ← same, bound, rest]

/-- Pieces that make the same message are alike. The induction is on both lists of pieces, which the
message tells apart node by node. -/
theorem alike_of_bindPieces_eq {pieces others : List Piece} {bindings : Bindings}
    {met : List Function} (meets : bindings.Meets met) {leading : Bool}
    (same : (bindPieces bindings met leading pieces).1 =
      (bindPieces bindings met leading others).1) : Alike met pieces others := by
  induction pieces generalizing bindings met leading others with
  | nil =>
      cases others with
      | nil => exact .nil
      | cons other others => cases other <;> simp [bindPieces] at same
  | cons piece pieces ih =>
      cases others with
      | nil => cases piece <;> simp [bindPieces] at same
      | cons other others =>
          cases piece with
          | text chars =>
              cases other with
              | text chars' =>
                  simp only [bindPieces, List.cons.injEq] at same
                  obtain rfl := textNode_inj same.1
                  exact .text (ih meets same.2)
              | placeholder other =>
                  simp only [bindPieces, List.cons.injEq] at same
                  exact absurd same.1 (textNode_ne_expression _ _ _)
          | placeholder placeholder =>
              cases other with
              | text chars =>
                  simp only [bindPieces, List.cons.injEq] at same
                  exact absurd same.1.symm (textNode_ne_expression _ _ _)
              | placeholder other =>
                  simp only [bindPieces, List.cons.injEq, Node.expression.injEq] at same
                  obtain ⟨first, rest⟩ := same
                  obtain ⟨functions, argument⟩ := Bindings.alike_of_bind meets first
                  have bound := Bindings.bind_eq_of_alike meets functions argument
                  rw [← functions, ← bound] at rest
                  exact .placeholder functions argument (ih (meets.bind _) rest)

/-! ### Texts -/

/-- The spellings of the placeholders selected in a text, from left to right. They are what a
message does not keep of its text. -/
def spellingsIn (formats : List Format) (text : List Char) : List (List Char) :=
  (placeholdersIn formats text).map (·.source)

/-- A text without two percent signs side by side is shown as it is, since none of its signs is
dropped. -/
theorem halvePercents_of_single {formats : List Format} {text : List Char}
    (single : ¬['%', '%'] <:+: text) : halvePercents formats text = text := by
  refine halveAt_of_le fun place member => ?_
  have doubled := (isPrefix_of_mem_percentsIn member).isInfix
  exact absurd (doubled.trans (List.drop_suffix place text).isInfix) single

/-- Pieces that are alike spell the same characters if their placeholders do. The plain pieces
between them are the same. -/
theorem Alike.spell_inj {met : List Function} {pieces others : List Piece}
    (alike : Alike met pieces others) {placeholders placeholders' : List (Occurrence Placeholder)}
    {chars chars' : List Char} (spell : Piece.Spell pieces placeholders chars)
    (spell' : Piece.Spell others placeholders' chars')
    (same : placeholders.map (·.source) = placeholders'.map (·.source)) : chars = chars' := by
  induction alike generalizing placeholders placeholders' chars chars' with
  | nil =>
      cases spell
      cases spell'
      rfl
  | text alike ih =>
      cases spell with
      | text _ spell =>
          cases spell' with
          | text _ spell' => rw [ih spell spell' same]
  | placeholder _ _ alike ih =>
      cases spell with
      | placeholder occurrence spell =>
          cases spell' with
          | placeholder occurrence' spell' =>
              simp only [List.map_cons, List.cons.injEq] at same
              rw [ih spell spell' same.2, same.1]

namespace Extractor

/-- What two messages made by fresh extractors tell of their texts, where no percent signs are
doubled: the messages are the same exactly if the pieces of the texts are alike, and the texts are
the same exactly if moreover their placeholders are spelled the same. -/
theorem text_eq_iff_of_extract {settings : Settings} {text other : String}
    {first second : Extraction} (single : ¬['%', '%'] <:+: text.toList)
    (single' : ¬['%', '%'] <:+: other.toList)
    (extracted : (extract { settings } text).1 = .ok first)
    (extracted' : (extract { settings } other).1 = .ok second) :
    (first.message = second.message ↔
        Alike [] (pieces settings.formats text.toList) (pieces settings.formats other.toList)) ∧
      (text = other ↔ first.message = second.message ∧
        spellingsIn settings.formats text.toList = spellingsIn settings.formats other.toList) := by
  have meets : Bindings.Meets [] [] := by simp [Bindings.Meets, Bindings.forFunction]
  have messages : first.message = second.message ↔
      Alike [] (pieces settings.formats text.toList) (pieces settings.formats other.toList) := by
    rw [eq_of_extract_eq_ok extracted, eq_of_extract_eq_ok extracted']
    exact ⟨alike_of_bindPieces_eq meets,
      fun alike => congrArg Prod.fst (bindPieces_eq_of_alike alike meets true)⟩
  refine ⟨messages, ?_, ?_⟩
  · rintro rfl
    rw [extracted, Except.ok.injEq] at extracted'
    exact ⟨congrArg _ extracted', rfl⟩
  · rintro ⟨same, spellings⟩
    have spell := spell_pieces settings.formats text.toList
    have spell' := spell_pieces settings.formats other.toList
    rw [halvePercents_of_single single] at spell
    rw [halvePercents_of_single single'] at spell'
    exact String.toList_inj.mp ((messages.mp same).spell_inj spell spell' spellings)

/-- A zero in front of a position that has occurred before is lost from the message. -/
theorem text_ne_leading_zero :
    ∃ extraction, (extract {} "{1}{1}").1 = .ok extraction ∧
      (extract {} "{1}{01}").1 = .ok extraction ∧
        spellingsIn Format.all "{1}{1}".toList ≠
          spellingsIn Format.all "{1}{01}".toList := by
  have extracted : (extract {} "{1}{1}").1 =
      .ok ⟨[.expression ⟨some (.variable "arg1"), some
          ⟨"Placeholder", [⟨"format", .text "bracketVar"⟩, ⟨"name", .int 1⟩]⟩⟩,
        .expression ⟨some (.variable "arg1"), some
          ⟨"Placeholder", [⟨"format", .text "bracketVar"⟩, ⟨"name", .int 1⟩]⟩⟩], true⟩ := by cbv
  have extracted' : (extract {} "{1}{01}").1 =
      .ok ⟨[.expression ⟨some (.variable "arg1"), some
          ⟨"Placeholder", [⟨"format", .text "bracketVar"⟩, ⟨"name", .int 1⟩]⟩⟩,
        .expression ⟨some (.variable "arg1"), some
          ⟨"Placeholder", [⟨"format", .text "bracketVar"⟩, ⟨"name", .int 1⟩]⟩⟩], true⟩ := by cbv
  have exact := (text_eq_iff_of_extract (by decide) (by decide) extracted extracted').2
  refine ⟨_, extracted, extracted', fun spellings => ?_⟩
  exact absurd (exact.mpr ⟨rfl, spellings⟩) (by decide)

/-- The width of a conversion is lost from the message. -/
theorem exists_message_eq_of_ne :
    ∃ (text other : String) (first second : Extraction),
      ¬['%', '%'] <:+: text.toList ∧ ¬['%', '%'] <:+: other.toList ∧
        (extract {} text).1 = .ok first ∧ (extract {} other).1 = .ok second ∧
          first.message = second.message ∧ text ≠ other := by
  have plain : (extract {} "%d").1 = .ok ⟨[.expression ⟨some (.variable "ph0"), some
      ⟨"Placeholder", [⟨"format", .text "printf"⟩, ⟨"type", .text "int"⟩]⟩⟩], true⟩ := by cbv
  have wide : (extract {} "%5d").1 = .ok ⟨[.expression ⟨some (.variable "ph0"), some
      ⟨"Placeholder", [⟨"format", .text "printf"⟩, ⟨"type", .text "int"⟩]⟩⟩], true⟩ := by cbv
  exact ⟨"%d", "%5d", _, _, by decide, by decide, plain, wide, rfl, by decide⟩

end Extractor

end Placeholder

end MessageTemplate
