import MessageTemplate.Message.Rendering
import MessageTemplate.Proofs.Token.Munch

/-! # The values of options

An option is read back from the text of its value, so a value comes back in its normal form
(`MessageTemplate.OptionValue.normalize`). The values that come from template text at all are the
canonical ones, and these are their own normal forms (`MessageTemplate.OptionValue.Canonical`).
-/

namespace MessageTemplate

theorem isDigits_toDigits (value : Nat) : isDigits (Nat.toDigits 10 value) = true := by
  have digits : ∀ c ∈ Nat.toDigits 10 value, c.isDigit = true :=
    fun c member => Nat.isDigit_of_mem_toDigits (by decide) (by decide) member
  simpa [isDigits, Nat.toDigits_ne_nil] using digits

theorem decimalValue_toDigits (value : Nat) : decimalValue (Nat.toDigits 10 value) = value :=
  Nat.ofDigitChars_ten_toDigits

theorem startsOgham_of_isDigits {text : String} (digits : isDigits text.toList = true) :
    startsOgham text = false := by
  obtain ⟨c, cs, spelled⟩ := List.exists_cons_of_ne_nil (isDigits_ne_nil digits)
  have digit : c.isDigit = true := all_isDigit_of_isDigits digits c (by simp [spelled])
  have notOgham : c ≠ oghamSpace := ne_of_kind digit (by decide)
  simp [startsOgham, spelled, notOgham]

/-- An option value is free of blanks at its front unless it is a name that starts with the ogham
space mark. -/
theorem endsRun_isBlank_of_isOptionValue {text : String}
    (shape : Lexeme.isOptionValue text.toList = true) :
    EndsRun isBlank text.toList ↔ startsOgham text = false := by
  rw [Lexeme.isOptionValue, Bool.or_eq_true] at shape
  rcases shape with name | digits
  · exact endsRun_isBlank_of_isName name
  · refine iff_of_true ?_ (startsOgham_of_isDigits digits)
    intro c first
    have digit := all_isDigit_of_isDigits digits c (List.mem_of_mem_head? first)
    rw [Bool.eq_false_iff]
    intro blank
    have same := isNameChar_and_isBlank_iff.mp ⟨isNameChar_of_isDigit digit, blank⟩
    exact ne_of_kind digit (by decide) same

namespace OptionValue

/-- The value that the text of a value is read back as. A text of digits may turn into an integer,
and a negative integer into a text. -/
def normalize (value : OptionValue) : OptionValue := .ofText value.display

/-- The values that template text can state: integers without sign, names, and runs of digits that
fit no integer. A name that starts with the ogham space mark is left out, since that mark is
skipped. -/
def Canonical : OptionValue → Prop
  | .int value => 0 ≤ value
  | .text value => isName value = true ∧ startsOgham value = false ∨
      isDigits value.toList = true ∧ Int64.maxValue.toInt < decimalValue value.toList

theorem display_int {value : Int64} (unsigned : 0 ≤ value) :
    (OptionValue.int value).display.toList = Nat.toDigits 10 value.toNatClampNeg := by
  have same : value.toInt = (value.toNatClampNeg : Int) :=
    (Int64.cast_toNatClampNeg value unsigned).symm
  rw [display, same]
  exact Nat.toList_repr

/-- The text of a spellable value can stand behind the equals sign: an integer shows digits, and a
text is spellable only if it can stand there. -/
theorem isOptionValue_display {value : OptionValue} (spellable : value.isSpellable = true) :
    Lexeme.isOptionValue value.display.toList = true := by
  cases value with
  | int value =>
      have unsigned : 0 ≤ value := by simpa [isSpellable] using spellable
      rw [display_int unsigned, Lexeme.isOptionValue, isDigits_toDigits, Bool.or_true]
  | text value => simpa [isSpellable, Lexeme.isOptionValue, display, isName] using spellable

theorem Canonical.isSpellable {value : OptionValue} (canonical : value.Canonical) :
    value.isSpellable = true := by
  cases value with
  | int value =>
      have unsigned : 0 ≤ value := canonical
      simp [OptionValue.isSpellable, unsigned]
  | text value =>
      rcases canonical with ⟨name, _⟩ | ⟨digits, _⟩
      · simp [OptionValue.isSpellable, name]
      · simp [OptionValue.isSpellable, digits]

/-- A text is read as an integer exactly if it is a run of digits that denotes it. -/
theorem ofText_eq_int_iff {text : String} {value : Int64} :
    ofText text = .int value ↔
      isDigits text.toList = true ∧ (decimalValue text.toList : Int) = value.toInt := by
  rw [ofText]
  split
  · rename_i fits
    have bound := Int64.toInt_maxValue
    have kept : (Int64.ofNat (decimalValue text.toList)).toInt = decimalValue text.toList :=
      Int64.toInt_ofNat_of_lt (by omega)
    rw [OptionValue.int.injEq, ← Int64.toInt_inj, kept]
    exact ⟨fun same => ⟨fits.1, same⟩, fun read => read.2⟩
  · rename_i unfit
    refine iff_of_false (by simp) ?_
    rintro ⟨digits, same⟩
    exact unfit ⟨digits, same ▸ value.toInt_le⟩

/-- A text is kept exactly if it is no run of digits that denotes an integer. It is then kept as it
is. -/
theorem ofText_eq_text_iff {text other : String} :
    ofText text = .text other ↔
      other = text ∧ (isDigits text.toList = true →
        Int64.maxValue.toInt < decimalValue text.toList) := by
  rw [ofText]
  split
  · rename_i fits
    refine iff_of_false (by simp) ?_
    rintro ⟨_, unfit⟩
    exact absurd fits.2 (Int.not_le.mpr (unfit fits.1))
  · rename_i unfit
    rw [OptionValue.text.injEq, eq_comm]
    exact ⟨fun same => ⟨same, fun digits => Int.not_le.mp fun fits => unfit ⟨digits, fits⟩⟩,
      fun kept => kept.1⟩

theorem nonneg_of_ofText_eq_int {text : String} {value : Int64} (read : ofText text = .int value) :
    0 ≤ value := by
  obtain ⟨_, same⟩ := ofText_eq_int_iff.mp read
  rw [Int64.le_iff_toInt_le, ← same, Int64.toInt_zero]
  exact Int.natCast_nonneg _

/-- A text that an option can carry is read as a canonical value, which makes options of templates
canonical. -/
theorem canonical_ofText {text : String} (shape : Lexeme.isOptionValue text.toList = true)
    (plain : startsOgham text = false) : (ofText text).Canonical := by
  cases read : ofText text with
  | int value => exact nonneg_of_ofText_eq_int read
  | text value =>
      obtain ⟨rfl, unfit⟩ := ofText_eq_text_iff.mp read
      rw [Lexeme.isOptionValue, Bool.or_eq_true] at shape
      rcases shape with name | digits
      · exact .inl ⟨name, plain⟩
      · exact .inr ⟨digits, unfit digits⟩

/-- Digits that are kept as text fit no integer. -/
theorem Canonical.unfit {text : String} (canonical : (OptionValue.text text).Canonical)
    (digits : isDigits text.toList = true) :
    Int64.maxValue.toInt < decimalValue text.toList := by
  rcases canonical with ⟨name, _⟩ | ⟨_, unfit⟩
  · rw [isName, isNameChars_eq_false_of_isDigits digits] at name
    exact absurd name Bool.false_ne_true
  · exact unfit

/-- A canonical value is read back as itself: an integer from its digits, a text because it is no
digits that fit an integer. -/
theorem Canonical.normalize_eq {value : OptionValue} (canonical : value.Canonical) :
    value.normalize = value := by
  cases value with
  | int value =>
      rw [normalize, ofText_eq_int_iff, display_int canonical, decimalValue_toDigits]
      exact ⟨isDigits_toDigits _, Int64.cast_toNatClampNeg value canonical⟩
  | text value =>
      rw [normalize, display, ofText_eq_text_iff]
      exact ⟨rfl, canonical.unfit⟩

/-- The text of a canonical value loses no character to the blanks before it. -/
theorem Canonical.startsOgham_display {value : OptionValue} (canonical : value.Canonical) :
    startsOgham value.display = false := by
  cases value with
  | int value =>
      refine startsOgham_of_isDigits ?_
      rw [display_int canonical]
      exact isDigits_toDigits _
  | text value =>
      rcases canonical with ⟨_, plain⟩ | ⟨digits, _⟩
      · exact plain
      · exact startsOgham_of_isDigits digits

end OptionValue

namespace NamedOption

/-- The option that the spelling of an option is read back as. -/
def normalize (option : NamedOption) : NamedOption := ⟨option.name, option.value.normalize⟩

/-- The options that template text can state. Such an option is its own normal form and comes back
as it was. -/
structure Canonical (option : NamedOption) : Prop where
  name : isName option.name = true
  plain : startsOgham option.name = false
  value : option.value.Canonical

/-- The options whose spelling is read back: neither part loses its first character to the blanks
before it. -/
structure Readable (option : NamedOption) : Prop where
  name : isName option.name = true
  plain : startsOgham option.name = false
  shape : Lexeme.isOptionValue option.value.display.toList = true
  plainValue : startsOgham option.value.display = false

variable {option : NamedOption}

theorem check_eq_ok_iff :
    option.check = .ok () ↔ option.value.isSpellable = true ∧ isName option.name = true := by
  rw [check]
  split <;> simp_all

theorem Canonical.check (canonical : option.Canonical) : option.check = .ok () :=
  check_eq_ok_iff.mpr ⟨canonical.value.isSpellable, canonical.name⟩

theorem Canonical.readable (canonical : option.Canonical) : option.Readable where
  name := canonical.name
  plain := canonical.plain
  shape := OptionValue.isOptionValue_display canonical.value.isSpellable
  plainValue := canonical.value.startsOgham_display

theorem Canonical.normalize_eq (canonical : option.Canonical) : option.normalize = option := by
  rw [normalize, canonical.value.normalize_eq]

/-- An option that passes its check is readable if no part of it starts with the ogham space
mark. -/
theorem readable_of_check (passed : option.check = .ok ()) (plain : startsOgham option.name = false)
    (plainText : ∀ text ∈ option.value.text?, startsOgham text = false) : option.Readable := by
  obtain ⟨spellable, name⟩ := check_eq_ok_iff.mp passed
  refine ⟨name, plain, OptionValue.isOptionValue_display spellable, ?_⟩
  cases same : option.value with
  | int value =>
      have unsigned : 0 ≤ value := by simpa [same, OptionValue.isSpellable] using spellable
      have canonical : (OptionValue.int value).Canonical := unsigned
      exact canonical.startsOgham_display
  | text value => exact plainText value (by simp [same, OptionValue.text?])

theorem forall_bne_of_not_mem {name : List Char} (absent : '=' ∉ name) :
    ∀ c ∈ name, (c != '=') = true := by
  intro c member
  rw [bne_iff_ne]
  rintro rfl
  exact absent member

/-- The source of an option is split at its first equals sign. -/
theorem ofSource_append_of_not_mem {name value : List Char} (first : '=' ∉ name) :
    ofSource (String.ofList (name ++ '=' :: value)) =
      ofTexts (String.ofList name) (String.ofList value) := by
  have inside : ∀ c ∈ name, (c != '=') = true := forall_bne_of_not_mem first
  have ends : EndsRun (· != '=') ('=' :: value) := by simp
  rw [ofSource, String.toList_ofList, List.span_eq_takeWhile_dropWhile,
    takeWhile_append_of_endsRun inside ends, dropWhile_append_of_endsRun inside ends]
  rfl

/-- Without an equals sign the value is empty. -/
theorem ofSource_of_not_mem {name : List Char} (absent : '=' ∉ name) :
    ofSource (String.ofList name) = ofTexts (String.ofList name) "" := by
  have inside : ∀ c ∈ name, (c != '=') = true := forall_bne_of_not_mem absent
  have whole := takeWhile_append_of_endsRun inside endsRun_nil
  have rest := dropWhile_append_of_endsRun inside endsRun_nil
  rw [List.append_nil] at whole rest
  rw [ofSource, String.toList_ofList, List.span_eq_takeWhile_dropWhile, whole, rest]
  rfl

theorem equals_not_isNameChar : isNameChar '=' = false := by decide

/-- The source of an option is split behind its name, in which no equals sign can stand. -/
theorem ofSource_append {name value : List Char} (shape : isNameChars name = true) :
    ofSource (String.ofList (name ++ '=' :: value)) =
      ofTexts (String.ofList name) (String.ofList value) := by
  apply ofSource_append_of_not_mem
  intro member
  have letter := all_isNameChar_of_isNameChars shape '=' member
  exact Bool.false_ne_true (equals_not_isNameChar.symm.trans letter)

end NamedOption

end MessageTemplate
