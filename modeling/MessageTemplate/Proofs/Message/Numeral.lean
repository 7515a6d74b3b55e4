import Mathlib.Algebra.Group.Nat.Defs
import MessageTemplate.Proofs.Message.Option

/-! # Decimal numerals as option values

A decimal numeral states the sum of its digits, each times the power of ten of its place. The text
of an option value is an integer if it is a numeral that states a signed 64-bit integer, and is kept
as text otherwise; integers without sign come back from their own numerals
(`MessageTemplate.OptionValue.ofText_laws`). The length of a numeral alone does not tell whether
its number fits, because zeros at its front count for nothing. Without them it does, except for
nineteen digits, which have to be compared with those of the limit
(`MessageTemplate.OptionValue.exists_int_iff_significant`).
-/

namespace MessageTemplate

/-- A numeral and the number that it states: a digit alone states its value, and in front of a
numeral it adds its value times the power of ten of its place. -/
inductive Numeral : List Char → Nat → Prop
  | single {digit : Nat} (small : digit < 10) : Numeral [digit.digitChar] digit
  | cons {digit number : Nat} {cs : List Char} (small : digit < 10) (rest : Numeral cs number) :
      Numeral (digit.digitChar :: cs) (digit * 10 ^ cs.length + number)

theorem exists_digitChar {c : Char} (shown : c.isDigit = true) :
    ∃ digit < 10, c = digit.digitChar := by
  have range : 48 ≤ c.toNat ∧ c.toNat ≤ 57 := by
    simpa [Char.isDigit, UInt32.le_iff_toNat_le] using shown
  refine ⟨c.toNat - 48, by omega, ?_⟩
  rw [← Char.toNat_inj, Nat.toNat_digitChar_of_lt_ten (by omega)]
  omega

/-- A leading digit adds its value times the power of ten of its place. This is the step that makes
numerals agree with the value of digits. -/
theorem decimalValue_digitChar_cons {digit : Nat} (small : digit < 10) (cs : List Char) :
    decimalValue (digit.digitChar :: cs) = digit * 10 ^ cs.length + decimalValue cs := by
  rw [decimalValue, Nat.ofDigitChars_cons_digitChar_of_lt_ten small,
    Nat.ofDigitChars_eq_ofDigitChars_zero, Nat.mul_zero, Nat.zero_add, Nat.mul_comm, decimalValue]

/-- Numerals are the runs of digits, and state the numbers that these denote. The inductive
definition says what a numeral means without a look at how it is computed. -/
theorem numeral_iff {cs : List Char} {number : Nat} :
    Numeral cs number ↔ isDigits cs = true ∧ decimalValue cs = number := by
  constructor
  · intro numeral
    induction numeral with
    | single small =>
        rw [decimalValue_digitChar_cons small]
        simp [isDigits, Nat.isDigit_digitChar, small, decimalValue]
    | cons small rest ih =>
        have digits := all_isDigit_of_isDigits ih.1
        rw [decimalValue_digitChar_cons small, ih.2]
        simpa [isDigits, Nat.isDigit_digitChar, small] using digits
  · rintro ⟨digits, rfl⟩
    induction cs with
    | nil => exact absurd rfl (isDigits_ne_nil digits)
    | cons c cs ih =>
        have all := all_isDigit_of_isDigits digits
        obtain ⟨digit, small, rfl⟩ := exists_digitChar (all c (by simp))
        rw [decimalValue_digitChar_cons small]
        by_cases last : cs = []
        · subst last
          simpa [decimalValue] using Numeral.single small
        · refine .cons small (ih ?_)
          simpa [isDigits, last] using fun d member => all d (List.mem_cons_of_mem _ member)

/-! ### Significant digits -/

/-- The digits of a numeral without the zeros at its front. They alone decide how large the number
is. -/
def significant (cs : List Char) : List Char := cs.dropWhile (· = '0')

theorem decimalValue_significant (cs : List Char) :
    decimalValue (significant cs) = decimalValue cs := by
  induction cs with
  | nil => rfl
  | cons c cs ih =>
      by_cases zero : c = '0'
      · subst zero
        rw [significant, List.dropWhile_cons_of_pos (by simp), ← significant, ih]
        rfl
      · rw [significant, List.dropWhile_cons_of_neg (by simpa using zero)]

/-- Of two numbers the one with the greater leading digit is the greater, whatever stands in the
lower places. -/
theorem place_lt_iff {digit digit' low low' unit : Nat} (below : low < unit)
    (below' : low' < unit) :
    digit * unit + low < digit' * unit + low' ↔ digit < digit' ∨ digit = digit' ∧ low < low' := by
  have room {small great : Nat} (less : small < great) : small * unit + unit ≤ great * unit := by
    rw [← Nat.succ_mul]
    exact Nat.mul_le_mul_right _ less
  rcases Nat.lt_trichotomy digit digit' with less | rfl | more
  · have apart := room less
    exact iff_of_true (by omega) (.inl less)
  · simp
  · have apart := room more
    exact iff_of_false (by omega) (by omega)

/-- A run of digits states less than the power of ten behind its first place. -/
theorem decimalValue_lt {cs : List Char} (digits : ∀ c ∈ cs, c.isDigit = true) :
    decimalValue cs < 10 ^ cs.length := by
  induction cs with
  | nil => simp [decimalValue]
  | cons c cs ih =>
      obtain ⟨digit, small, rfl⟩ := exists_digitChar (digits c (by simp))
      have rest := ih fun d member => digits d (List.mem_cons_of_mem _ member)
      rw [decimalValue_digitChar_cons small, List.length_cons, Nat.pow_succ']
      exact (place_lt_iff rest (Nat.zero_lt_of_lt rest)).mpr (.inl small)

/-- A numeral with no zero at its front states at least the power of ten of its first place. With
the upper bound its length then tells the size of the number. -/
theorem pow_le_decimalValue {c : Char} {cs : List Char} (shown : c.isDigit = true)
    (front : c ≠ '0') : 10 ^ cs.length ≤ decimalValue (c :: cs) := by
  obtain ⟨digit, small, rfl⟩ := exists_digitChar shown
  have positive : 1 ≤ digit := by
    rw [ne_eq, Nat.digitChar_eq_zero] at front
    omega
  rw [decimalValue_digitChar_cons small]
  exact (Nat.le_mul_of_pos_left _ positive).trans (Nat.le_add_right _ _)

/-- Digits are ordered as characters in the way in which their values are. -/
theorem digitChar_lt_iff {digit other : Nat} (small : digit < 10) (small' : other < 10) :
    digit.digitChar < other.digitChar ↔ digit < other := by
  have shown := Nat.toNat_digitChar_of_lt_ten small
  have shown' := Nat.toNat_digitChar_of_lt_ten small'
  rw [Char.lt_def, UInt32.lt_iff_toNat_lt]
  change digit.digitChar.toNat < other.digitChar.toNat ↔ digit < other
  omega

/-- Numerals of one length compare as their digits do, from the first on. The induction is on the
digits, with the lower places below the unit of the leading one. -/
theorem decimalValue_lt_iff {left right : List Char} (digits : ∀ c ∈ left, c.isDigit = true)
    (digits' : ∀ c ∈ right, c.isDigit = true) (lengths : left.length = right.length) :
    decimalValue left < decimalValue right ↔ left < right := by
  induction left generalizing right with
  | nil =>
      obtain rfl := List.length_eq_zero_iff.mp lengths.symm
      simp
  | cons c left ih =>
      obtain ⟨d, right, rfl⟩ := List.exists_cons_of_length_eq_add_one lengths.symm
      have tails : left.length = right.length := by simpa using lengths
      rw [List.forall_mem_cons] at digits digits'
      obtain ⟨digit, small, rfl⟩ := exists_digitChar digits.1
      obtain ⟨digit', small', rfl⟩ := exists_digitChar digits'.1
      have below := decimalValue_lt digits.2
      have below' := decimalValue_lt digits'.2
      have heads : digit.digitChar = digit'.digitChar ↔ digit = digit' := by
        rw [← Char.toNat_inj, Nat.toNat_digitChar_of_lt_ten small,
          Nat.toNat_digitChar_of_lt_ten small', Nat.add_right_inj]
      rw [tails] at below
      rw [decimalValue_digitChar_cons small, decimalValue_digitChar_cons small', tails,
        place_lt_iff below below', ih digits.2 digits'.2 tails, List.cons_lt_cons_iff,
        digitChar_lt_iff small small', heads]

namespace OptionValue

/-- The digits of the first number that is too large for an integer. There are nineteen of them. -/
def limitDigits : List Char := Nat.toDigits 10 (2 ^ 63)

/-- A run of digits denotes an integer if it has fewer than nineteen significant digits, or if it
has nineteen that come before those of the limit. -/
theorem fits_iff_significant {cs : List Char} (digits : isDigits cs = true) :
    decimalValue cs < 2 ^ 63 ↔
      (significant cs).length < 19 ∨
        (significant cs).length = 19 ∧ significant cs < limitDigits := by
  have shown : ∀ c ∈ significant cs, c.isDigit = true := fun c member =>
    all_isDigit_of_isDigits digits c ((List.dropWhile_sublist _).subset member)
  rw [← decimalValue_significant]
  rcases Nat.lt_trichotomy (significant cs).length 19 with fewer | same | more
  · have below := decimalValue_lt shown
    have power : 10 ^ (significant cs).length ≤ 10 ^ 18 :=
      Nat.pow_le_pow_right (by decide) (by omega)
    exact iff_of_true (by omega) (.inl fewer)
  · -- The limit has nineteen digits itself, so here alone the digits have to be compared.
    have limit : decimalValue limitDigits = 2 ^ 63 := decimalValue_toDigits _
    have compared : decimalValue (significant cs) < decimalValue limitDigits ↔
        significant cs < limitDigits :=
      decimalValue_lt_iff shown (all_isDigit_of_isDigits (isDigits_toDigits _)) same
    rw [← compared, limit]
    omega
  · have front : EndsRun (· = '0') (significant cs) := endsRun_dropWhile cs
    obtain ⟨c, rest, spelled⟩ := List.exists_cons_of_length_pos (Nat.zero_lt_of_lt more)
    rw [spelled, endsRun_cons, decide_eq_false_iff_not] at front
    rw [spelled, List.length_cons] at more
    rw [spelled] at shown ⊢
    have above : 10 ^ rest.length ≤ decimalValue (c :: rest) :=
      pow_le_decimalValue (shown c (by simp)) front
    have power : 10 ^ 19 ≤ 10 ^ rest.length := Nat.pow_le_pow_right (by decide) (by omega)
    refine iff_of_false (by omega) ?_
    rw [List.length_cons]
    omega

/-- Which texts are read as integers, told from their characters alone: digits, and not too many of
them that count. -/
theorem exists_int_iff_significant (text : String) :
    (∃ value, ofText text = .int value) ↔
      isDigits text.toList = true ∧
        ((significant text.toList).length < 19 ∨
          (significant text.toList).length = 19 ∧ significant text.toList < limitDigits) := by
  constructor
  · rintro ⟨value, read⟩
    obtain ⟨digits, same⟩ := ofText_eq_int_iff.mp read
    have bound := value.toInt_lt
    exact ⟨digits, (fits_iff_significant digits).mp (by omega)⟩
  · rintro ⟨digits, fits⟩
    have bound := (fits_iff_significant digits).mpr fits
    exact ⟨Int64.ofNat (decimalValue text.toList),
      ofText_eq_int_iff.mpr ⟨digits, (Int64.toInt_ofNat_of_lt bound).symm⟩⟩

example : ofText "0009223372036854775807" = .int Int64.maxValue := by decide

/-! ### Reading and displaying values -/

/-- A text is read as the integer that it states as a numeral. No integer with a sign is read from
any text. -/
theorem ofText_eq_int_iff_numeral {text : String} {value : Int64} :
    ofText text = .int value ↔
      ∃ number, Numeral text.toList number ∧ number ≤ 2 ^ 63 - 1 ∧ value.toInt = number := by
  rw [ofText_eq_int_iff]
  constructor
  · rintro ⟨digits, same⟩
    have bound := value.toInt_lt
    exact ⟨_, numeral_iff.mpr ⟨digits, rfl⟩, by omega, same.symm⟩
  · rintro ⟨number, numeral, _, same⟩
    obtain ⟨digits, rfl⟩ := numeral_iff.mp numeral
    exact ⟨digits, same.symm⟩

/-- A text is kept if it states no integer as a numeral. -/
theorem ofText_eq_self_iff_numeral {text : String} :
    ofText text = .text text ↔ ¬∃ number, Numeral text.toList number ∧ number ≤ 2 ^ 63 - 1 := by
  have largest := Int64.toInt_maxValue
  rw [ofText_eq_text_iff]
  constructor
  · rintro ⟨_, unfit⟩ ⟨number, numeral, fits⟩
    obtain ⟨digits, rfl⟩ := numeral_iff.mp numeral
    have above := unfit digits
    omega
  · intro unstated
    refine ⟨rfl, fun digits => ?_⟩
    by_contra fits
    exact unstated ⟨_, numeral_iff.mpr ⟨digits, rfl⟩, by omega⟩

/-- What is displayed for the value of a text is read as that value again. -/
theorem normalize_ofText (text : String) : (ofText text).normalize = ofText text := by
  cases read : ofText text with
  | int value =>
      have canonical : (OptionValue.int value).Canonical := nonneg_of_ofText_eq_int read
      exact canonical.normalize_eq
  | text value =>
      obtain ⟨rfl, _⟩ := ofText_eq_text_iff.mp read
      exact read

/-- A text is read as an integer if and only if it is a numeral that states this integer, and is
kept if and only if it is a numeral of no integer. An integer is read from what is displayed for it
if and only if it has no sign. What is displayed for the value of a text is read as that value
again. -/
theorem ofText_laws (text : String) (value : Int64) :
    (ofText text = .int value ↔
        ∃ number, Numeral text.toList number ∧ number ≤ 2 ^ 63 - 1 ∧ value.toInt = number) ∧
      (ofText text = .text text ↔
        ¬∃ number, Numeral text.toList number ∧ number ≤ 2 ^ 63 - 1) ∧
        (ofText (OptionValue.int value).display = .int value ↔ 0 ≤ value) ∧
          ofText (ofText text).display = ofText text := by
  refine ⟨ofText_eq_int_iff_numeral, ofText_eq_self_iff_numeral, ?_, normalize_ofText text⟩
  constructor
  · exact nonneg_of_ofText_eq_int
  · intro unsigned
    have canonical : (OptionValue.int value).Canonical := unsigned
    exact canonical.normalize_eq

end OptionValue

end MessageTemplate
