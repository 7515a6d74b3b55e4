import Mathlib.Data.Option.Basic
import MessageTemplate.Json.Reader
import MessageTemplate.Json.Writer
import MessageTemplate.Proofs.Message.Option

/-! # Written strings and numbers

A string that is written is read back as itself, whatever stands behind it
(`MessageTemplate.Json.readText_writeText`); a number is, in front of a character that ends it
(`MessageTemplate.Json.readNumber_write`).
-/

namespace MessageTemplate

namespace Json

/-! ### Strings -/

/-- The part of a string that a character is written as: a code where it has no letter of its own
behind the backslash. -/
def unitOf (c : Char) : TextUnit :=
  if c.toNat < 0x20 ∧ c ∉ ['\x08', '\x0c', '\n', '\r', '\t'] then .code c.toNat else .char c

/-- A character is written behind a backslash, as a code, or as it is. All that is proved about
written strings goes through these three cases. -/
theorem writeChar_cases (c : Char) :
    (∃ letter, letter ≠ 'u' ∧ escaped? letter = some c ∧ writeChar c = ['\\', letter] ∧
        unitOf c = .char c) ∨
      (c.toNat < 0x20 ∧ unitOf c = .code c.toNat ∧ writeChar c =
        ['\\', 'u', '0', '0', Nat.digitChar (c.toNat / 16), Nat.digitChar (c.toNat % 16)]) ∨
      c ≠ '"' ∧ c ≠ '\\' ∧ ¬c.toNat < 0x20 ∧ writeChar c = [c] ∧ unitOf c = .char c := by
  by_cases named : c ∈ ['"', '\\', '\x08', '\x0c', '\n', '\r', '\t']
  · simp only [List.mem_cons, List.not_mem_nil, or_false] at named
    left
    rcases named with rfl | rfl | rfl | rfl | rfl | rfl | rfl
    all_goals exact ⟨_, by decide, rfl, rfl, rfl⟩
  · simp only [List.mem_cons, List.not_mem_nil, or_false, not_or] at named
    right
    by_cases control : c.toNat < 0x20
    · exact .inl ⟨control, by simp [unitOf, control, named], by simp [writeChar, control, named]⟩
    · exact .inr ⟨named.1, named.2.1, control, by simp [writeChar, control, named],
        by simp [unitOf, control]⟩

theorem hexCode?_control : ∀ code < 0x20,
    hexCode? '0' '0' (Nat.digitChar (code / 16)) (Nat.digitChar (code % 16)) = some code := by
  decide

/-- What a character is written as is read as one part of the string, by cases on the three ways to
write one. -/
theorem readUnits_writeChar (c : Char) (cs : List Char) :
    readUnits (writeChar c ++ cs) =
      (readUnits cs).map fun (units, rest) => (unitOf c :: units, rest) := by
  rcases writeChar_cases c with ⟨letter, notCode, stands, written, unit⟩ |
    ⟨control, unit, written⟩ | ⟨notQuote, notBackslash, notControl, written, unit⟩
  · rw [written, unit, List.cons_append, List.cons_append, List.nil_append, readUnits]
    · simp only [stands]
      cases readUnits cs <;> rfl
    · exact fun _ _ _ _ _ code => absurd code notCode
  · rw [written, unit]
    simp only [List.cons_append, List.nil_append, readUnits, hexCode?_control _ control]
    cases readUnits cs <;> rfl
  · rw [written, unit, List.singleton_append, readUnits, if_neg notControl]
    · cases readUnits cs <;> rfl
    · exact notQuote
    · exact fun _ _ _ _ _ same => absurd same notBackslash
    · exact fun _ _ same => absurd same notBackslash

/-- A written string is read as the parts that its characters were written as, up to its closing
quote. -/
theorem readUnits_flatMap_writeChar (value rest : List Char) :
    readUnits (value.flatMap writeChar ++ '"' :: rest) = some (value.map unitOf, rest) := by
  induction value with
  | nil => rfl
  | cons c cs ih =>
      rw [List.flatMap_cons, List.append_assoc, readUnits_writeChar, ih]
      rfl

/-- A code below the surrogates stands for its character, whatever follows. -/
theorem charsOfUnits_code {code : Nat} (small : code < 0xD800) (units : List TextUnit) :
    charsOfUnits (.code code :: units) = (charsOfUnits units).map (Char.ofNat code :: ·) := by
  have notHigh : isHighSurrogate code = false := by
    simp only [isHighSurrogate, Bool.and_eq_false_iff, decide_eq_false_iff_not]
    omega
  have notLow : isLowSurrogate code = false := by
    simp only [isLowSurrogate, Bool.and_eq_false_iff, decide_eq_false_iff_not]
    omega
  rw [charsOfUnits.eq_def]
  split <;> simp_all

/-- The part that a character was written as stands for this character, whatever follows: a code
that is written is never half of a surrogate pair. -/
theorem charsOfUnits_unitOf (c : Char) (units : List TextUnit) :
    charsOfUnits (unitOf c :: units) = (charsOfUnits units).map (c :: ·) := by
  unfold unitOf
  split
  · rename_i control
    rw [charsOfUnits_code (by omega), Char.ofNat_toNat]
  · rfl

/-- The parts of a written string stand for its characters, so nothing in it is lost or joined. -/
theorem charsOfUnits_map_unitOf (value : List Char) :
    charsOfUnits (value.map unitOf) = some value := by
  induction value with
  | nil => rfl
  | cons c cs ih =>
      rw [List.map_cons, charsOfUnits_unitOf, ih]
      rfl

theorem writeText_some (value : String) :
    writeText (some value) = '"' :: value.toList.flatMap writeChar ++ ['"'] := rfl

/-- A written string is read back, and one without characters as such. The quotes are part of what
is written, and no character in between closes it. -/
theorem readText_writeText (text : Text) (rest : List Char) :
    ∃ cs, writeText text ++ rest = '"' :: cs ∧ readText cs = some (text, rest) := by
  cases text with
  | none =>
      have written : writeText none = ['"', '\\', 'u', 'd', '8', '0', '0', '"'] := by decide
      have code : hexCode? 'd' '8' '0' '0' = some 0xD800 := by decide +kernel
      refine ⟨['\\', 'u', 'd', '8', '0', '0', '"'] ++ rest, by rw [written]; rfl, ?_⟩
      simp [readText, readUnits, code, charsOfUnits, isHighSurrogate]
  | some value =>
      refine ⟨value.toList.flatMap writeChar ++ '"' :: rest, ?_, ?_⟩
      · rw [writeText_some, List.append_assoc, List.singleton_append, List.cons_append]
      · simp only [readText, readUnits_flatMap_writeChar, Option.map_some, charsOfUnits_map_unitOf,
          String.ofList_toList]

/-! ### Numbers -/

/-- What stands behind a value: nothing, or what separates or closes. Only numbers need it, as they
have no end of their own. -/
def Delimited (rest : List Char) : Prop := ∀ c ∈ rest.head?, c ∈ [',', ']', '}']

theorem head_toDigits_ne_zero {value : Nat} (positive : value ≠ 0) :
    (Nat.toDigits 10 value).head? ≠ some '0' := by
  induction value using Nat.strong_induction_on with
  | _ value ih =>
      by_cases small : value < 10
      · simpa [Nat.toDigits_of_lt_base small] using positive
      · rw [Nat.toDigits_of_base_le (by decide) (by omega),
          List.head?_append, Option.or_of_isSome (by simp [Nat.toDigits_ne_nil])]
        exact ih (value / 10) (by omega) (by omega)

/-- The digits of a number are a whole part: zero is a single digit, and no other number starts with
one. -/
theorem isWholePart_toDigits (value : Nat) : isWholePart (Nat.toDigits 10 value) = true := by
  rw [isWholePart, Bool.and_eq_true, Bool.or_eq_true]
  refine ⟨by simp [Nat.toDigits_ne_nil], ?_⟩
  by_cases zero : value = 0
  · exact .inl (by simp [zero])
  · exact .inr (by simpa using head_toDigits_ne_zero zero)

theorem spanDigits_toDigits (value : Nat) {rest : List Char} (ends : EndsRun Char.isDigit rest) :
    spanDigits (Nat.toDigits 10 value ++ rest) = (Nat.toDigits 10 value, rest) :=
  spanDigits_append_of_endsRun
    (fun _ member => Nat.isDigit_of_mem_toDigits (by decide) (by decide) member) ends

theorem exists_cons_toDigits (value : Nat) :
    ∃ c cs, Nat.toDigits 10 value = c :: cs ∧ c.isDigit = true := by
  obtain ⟨c, cs, same⟩ := List.exists_cons_of_ne_nil (@Nat.toDigits_ne_nil value 10)
  have member : c ∈ Nat.toDigits 10 value := by simp [same]
  exact ⟨c, cs, same, Nat.isDigit_of_mem_toDigits (by decide) (by decide) member⟩

/-- The sign of an exponent is told from its digits. -/
theorem readExponentSign_toString (exponent : Int) (rest : List Char) :
    readExponentSign ((toString exponent).toList ++ rest) =
      (decide (exponent < 0), Nat.toDigits 10 exponent.natAbs ++ rest) := by
  rw [Int.toString_eq_repr, Int.repr_eq_if]
  split
  · rename_i unsigned
    have same : exponent.toNat = exponent.natAbs := by omega
    obtain ⟨c, cs, digits, digit⟩ := exists_cons_toDigits exponent.natAbs
    rw [Nat.toList_repr, same, digits, List.cons_append, readExponentSign]
    · rw [decide_eq_false (by omega)]
    · exact fun _ same => ne_of_kind digit (by decide) (List.cons.inj same).1
    · exact fun _ same => ne_of_kind digit (by decide) (List.cons.inj same).1
  · rename_i negative
    have same : (-exponent).toNat = exponent.natAbs := by omega
    have hyphen : "-".toList = ['-'] := rfl
    rw [String.toList_append, Nat.toList_repr, same, hyphen, List.append_assoc,
      List.singleton_append, readExponentSign, decide_eq_true (by omega)]

/-- What separates or closes ends a run of any kind that has none of these characters. -/
theorem Delimited.ends {kind : Char → Bool} {rest : List Char} (delimited : Delimited rest)
    (outside : [',', ']', '}'].any kind = false) : EndsRun kind rest := by
  intro c next
  rw [Bool.eq_false_iff]
  intro inside
  exact Bool.false_ne_true
    (outside.symm.trans (List.any_eq_true.mpr ⟨c, delimited c next, inside⟩))

/-- Where the number ends there is no exponent. -/
theorem readExponent_delimited {rest : List Char} (delimited : Delimited rest) :
    readExponent rest = some (none, rest) := by
  cases rest with
  | nil => rfl
  | cons c cs =>
      have other := delimited c rfl
      simp only [List.mem_cons, List.not_mem_nil, or_false] at other
      rw [readExponent, if_neg]
      rcases other with rfl | rfl | rfl <;> decide

/-- A written exponent is read back, with its sign. -/
theorem readExponent_toString (exponent : Int) {rest : List Char} (delimited : Delimited rest) :
    readExponent ('e' :: ((toString exponent).toList ++ rest)) = some (some exponent, rest) := by
  have ends : EndsRun Char.isDigit rest := delimited.ends (by decide)
  rw [readExponent, if_pos (.inl rfl), readExponentSign_toString]
  simp only [spanDigits_toDigits _ ends, decimalValue_toDigits, List.isEmpty_iff,
    Nat.toDigits_ne_nil, if_false, Option.some.injEq, Prod.mk.injEq, and_true, decide_eq_true_eq]
  split <;> omega

theorem readFraction_of_ne {c : Char} (noPoint : c ≠ '.') (cs : List Char) :
    readFraction (c :: cs) = some (none, c :: cs) := by
  rw [readFraction]
  exact fun _ same => noPoint (List.cons.inj same).1

theorem readFraction_delimited {rest : List Char} (delimited : Delimited rest) :
    readFraction rest = some (none, rest) := by
  cases rest with
  | nil => rfl
  | cons c cs =>
      refine readFraction_of_ne ?_ cs
      rintro rfl
      exact absurd (delimited _ rfl) (by decide)

theorem spanSign_toDigits (value : Nat) (rest : List Char) :
    spanSign (Nat.toDigits 10 value ++ rest) = ([], Nat.toDigits 10 value ++ rest) := by
  obtain ⟨c, cs, digits, digit⟩ := exists_cons_toDigits value
  rw [digits]
  exact spanSign_of_ne (ne_of_kind digit (by decide)) _

/-- A sign and digits in front of an exponent or of what ends a number. Written numbers have no
point, so this covers all of them. -/
theorem readNumber_digits {negative : Bool} {digits : Nat} {tail rest : List Char}
    {exponent : Option Int} (ends : EndsRun Char.isDigit tail)
    (noPoint : readFraction tail = some (none, tail))
    (scaled : readExponent tail = some (exponent, rest)) :
    readNumber ((if negative then ['-'] else []) ++ Nat.toDigits 10 digits ++ tail) =
      some (⟨negative, digits, exponent.getD 0, exponent.isNone⟩, rest) := by
  have signTaken : spanSign ((if negative then ['-'] else []) ++
      (Nat.toDigits 10 digits ++ tail)) =
        (if negative then ['-'] else [], Nat.toDigits 10 digits ++ tail) := by
    cases negative with
    | false => exact spanSign_toDigits digits tail
    | true => rfl
  have signShown : (!(if negative = true then ['-'] else []).isEmpty) = negative := by
    cases negative <;> rfl
  simp only [readNumber, List.append_assoc, signTaken, spanDigits_toDigits _ ends,
    isWholePart_toDigits, noPoint]
  simp [scaled, signShown, decimalValue_toDigits]

/-- A number that is written is read back, if it is not scaled without saying so. The exponent is
written where there is one. -/
theorem readNumber_write {number : Number} (unscaled : number.integral = true → number.exponent = 0)
    {rest : List Char} (delimited : Delimited rest) :
    readNumber (number.write ++ rest) = some (number, rest) := by
  obtain ⟨negative, digits, exponent, integral⟩ := number
  cases integral with
  | true =>
      obtain rfl : exponent = 0 := unscaled rfl
      have written : Number.write ⟨negative, digits, 0, true⟩ =
          (if negative then ['-'] else []) ++ Nat.toDigits 10 digits ++ [] := rfl
      rw [written, List.append_nil]
      exact readNumber_digits (delimited.ends (by decide)) (readFraction_delimited delimited)
        (readExponent_delimited delimited)
  | false =>
      have written : Number.write ⟨negative, digits, exponent, false⟩ =
          (if negative then ['-'] else []) ++ Nat.toDigits 10 digits ++
            'e' :: (toString exponent).toList := rfl
      rw [written, List.append_assoc, List.cons_append]
      exact readNumber_digits (endsRun_cons.mpr (by decide)) (readFraction_of_ne (by decide) _)
        (readExponent_toString exponent delimited)

end Json

end MessageTemplate
