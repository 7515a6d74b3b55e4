import Mathlib.Data.List.TakeDrop
import Mathlib.Data.List.TakeWhile
import MessageTemplate.Token.Lexeme

/-! # Longest runs

A scanner takes the longest run of characters of its kind. So it takes a given run exactly when no
character that follows goes on with it; this file says what that means for blanks, for names and
for numbers. The only character that both is blank and belongs to names is the ogham space mark.
-/

namespace MessageTemplate

/-- No character of the given kind comes next, so that a run of the kind ends here. At the end of
the input every run ends. -/
def EndsRun (kind : Char → Bool) (rest : List Char) : Prop := ∀ c ∈ rest.head?, kind c = false

section Runs

variable {kind : Char → Bool}

@[simp] theorem endsRun_nil : EndsRun kind [] := by simp [EndsRun]

@[simp] theorem endsRun_cons {c : Char} {rest : List Char} :
    EndsRun kind (c :: rest) ↔ kind c = false := by simp [EndsRun]

theorem endsRun_append {front rest : List Char} (nonempty : front ≠ []) :
    EndsRun kind (front ++ rest) ↔ EndsRun kind front := by
  cases front with
  | nil => exact absurd rfl nonempty
  | cons c cs => simp

theorem endsRun_dropWhile (cs : List Char) : EndsRun kind (cs.dropWhile kind) := by
  intro c next
  have stopped := List.head?_dropWhile_not kind cs
  rw [Option.mem_def.mp next] at stopped
  simpa using stopped

theorem dropWhile_of_endsRun {rest : List Char} (ends : EndsRun kind rest) :
    rest.dropWhile kind = rest := by
  cases rest with
  | nil => rfl
  | cons c cs => simp [endsRun_cons.mp ends]

/-- A run in front of something that ends it is taken whole and alone. The lemmas for names, digits
and blanks are cases of this one and the next. -/
theorem takeWhile_append_of_endsRun {run rest : List Char} (all : ∀ c ∈ run, kind c = true)
    (ends : EndsRun kind rest) : (run ++ rest).takeWhile kind = run := by
  rw [List.takeWhile_append_of_pos all]
  cases rest with
  | nil => simp
  | cons c cs => simp [endsRun_cons.mp ends]

theorem dropWhile_append_of_endsRun {run rest : List Char} (all : ∀ c ∈ run, kind c = true)
    (ends : EndsRun kind rest) : (run ++ rest).dropWhile kind = rest := by
  rw [List.dropWhile_append_of_pos all, dropWhile_of_endsRun ends]

end Runs

/-! ### Kinds of characters -/

/-- The character U+1680, which both separates words and belongs to names. All the exceptions that
concern blanks come from it. -/
def oghamSpace : Char := '\u1680'

/-- A text whose first character is lost wherever blanks are skipped before a name. It is the one
exception that round trips through template text have to make for names. -/
def startsOgham (text : String) : Bool := text.toList.head? = some oghamSpace

theorem ne_of_kind {kind : Char → Bool} {c d : Char} (inside : kind c = true)
    (outside : kind d = false) : c ≠ d := by
  rintro rfl
  exact Bool.false_ne_true (outside.symm.trans inside)

/-- A character of a kind differs from each of several that are not of the kind. The scanners try
their signs one by one, so this is what shows that none of them is met. -/
theorem forall_ne_of_kind {kind : Char → Bool} {c : Char} {others : List Char}
    (inside : kind c = true) (outside : others.any kind = false) : ∀ d ∈ others, c ≠ d := by
  rintro d member rfl
  exact Bool.false_ne_true (outside.symm.trans (List.any_eq_true.mpr ⟨c, member, inside⟩))

theorem isNameChar_of_isNameStart {c : Char} (start : isNameStart c = true) :
    isNameChar c = true := by
  simp [isNameChar, start]

/-- No digit starts a name, so the first character tells names and numbers apart. -/
theorem isDigit_eq_false_of_isNameStart {c : Char} (start : isNameStart c = true) :
    c.isDigit = false := by
  rw [Bool.eq_false_iff]
  intro digit
  have range := Char.isDigit_iff_toNat.mp digit
  simp [isNameStart, CharClass.contains, CharClass.nameStart] at start
  simp at range
  omega

/-- Digits continue a name. A number is therefore ended by whatever ends a name, the point and the
hyphen apart. -/
theorem isNameChar_of_isDigit {c : Char} (digit : c.isDigit = true) : isNameChar c = true := by
  have range := Char.isDigit_iff_toNat.mp digit
  simp at range
  have inside : CharClass.nameContinue.contains c = true := by
    simp only [CharClass.contains, CharClass.nameContinue, List.any_cons, Bool.or_eq_true,
      Bool.and_eq_true, decide_eq_true_eq]
    omega
  simp [isNameChar, inside]

/-- The ogham space mark is the only blank among the characters of names. Both classes are finite
unions of ranges, which meet in this one code point. -/
theorem isNameChar_and_isBlank_iff {c : Char} :
    isNameChar c = true ∧ isBlank c = true ↔ c = oghamSpace := by
  constructor
  · rintro ⟨name, blank⟩
    apply Char.toNat_inj.mp
    change c.toNat = 0x1680
    simp [isNameChar, isNameStart, isBlank, CharClass.contains, CharClass.nameStart,
      CharClass.nameContinue, CharClass.blank] at name blank
    omega
  · rintro rfl
    decide

theorem endsRun_space (rest : List Char) : EndsRun isNameChar (' ' :: rest) :=
  endsRun_cons.mpr (by decide)

theorem endsRun_equals (rest : List Char) : EndsRun isBlank ('=' :: rest) :=
  endsRun_cons.mpr (by decide)

/-! ### Names -/

/-- All characters of a name are name characters, the first one included. -/
theorem all_isNameChar_of_isNameChars {cs : List Char} (name : isNameChars cs = true) :
    ∀ c ∈ cs, isNameChar c = true := by
  cases cs with
  | nil => simp
  | cons c cs =>
      simp only [isNameChars, Bool.and_eq_true, List.all_eq_true] at name
      simpa [isNameChar_of_isNameStart name.1] using name.2

theorem isNameChars_ne_nil {cs : List Char} (name : isNameChars cs = true) : cs ≠ [] := by
  rintro rfl
  simp [isNameChars] at name

/-- A nonempty name starts with a character that can start one. -/
theorem exists_cons_of_isNameChars {cs : List Char} (name : isNameChars cs = true) :
    ∃ c rest, cs = c :: rest ∧ isNameStart c = true := by
  cases cs with
  | nil => simp [isNameChars] at name
  | cons c cs =>
      simp only [isNameChars, Bool.and_eq_true] at name
      exact ⟨c, cs, rfl, name.1⟩

theorem spanName_append_of_endsRun {name rest : List Char} (all : ∀ c ∈ name, isNameChar c = true)
    (ends : EndsRun isNameChar rest) : spanName (name ++ rest) = (name, rest) := by
  rw [spanName, takeWhile_append_of_endsRun all ends, dropWhile_append_of_endsRun all ends]

theorem endsRun_spanName (cs : List Char) : EndsRun isNameChar (spanName cs).2 :=
  endsRun_dropWhile cs

/-- What is taken from the start of a name is a name. -/
theorem isNameChars_spanName {c : Char} (start : isNameStart c = true) (cs : List Char) :
    isNameChars (spanName (c :: cs)).1 = true := by
  simp only [spanName, isNameChar_of_isNameStart start, List.takeWhile_cons_of_pos, isNameChars,
    start, Bool.true_and, List.all_eq_true]
  intro d member
  exact List.mem_takeWhile_imp member

/-- A name is free of blanks at its front exactly when it does not start with the ogham space
mark. -/
theorem endsRun_isBlank_of_isName {text : String} (name : isName text = true) :
    EndsRun isBlank text.toList ↔ startsOgham text = false := by
  obtain ⟨c, rest, spelled, start⟩ := exists_cons_of_isNameChars name
  rw [spelled, endsRun_cons, startsOgham, spelled]
  constructor
  · intro plain
    simp only [List.head?_cons, Option.some.injEq, decide_eq_false_iff_not]
    rintro rfl
    simp [isBlank, oghamSpace, CharClass.contains, CharClass.blank] at plain
  · intro other
    rw [Bool.eq_false_iff]
    intro blank
    have same := isNameChar_and_isBlank_iff.mp ⟨isNameChar_of_isNameStart start, blank⟩
    simp [same] at other

/-! ### Numbers -/

theorem all_isDigit_of_isDigits {cs : List Char} (digits : isDigits cs = true) :
    ∀ c ∈ cs, c.isDigit = true := by
  simp only [isDigits, Bool.and_eq_true, List.all_eq_true] at digits
  exact digits.2

theorem isDigits_ne_nil {cs : List Char} (digits : isDigits cs = true) : cs ≠ [] := by
  rintro rfl
  simp [isDigits] at digits

/-- A run of digits is not a name. -/
theorem isNameChars_eq_false_of_isDigits {cs : List Char} (digits : isDigits cs = true) :
    isNameChars cs = false := by
  rw [Bool.eq_false_iff]
  intro name
  obtain ⟨c, rest, rfl, start⟩ := exists_cons_of_isNameChars name
  have digit := all_isDigit_of_isDigits digits c (by simp)
  rw [isDigit_eq_false_of_isNameStart start] at digit
  exact Bool.false_ne_true digit

theorem spanDigits_append_of_endsRun {digits rest : List Char}
    (all : ∀ c ∈ digits, c.isDigit = true) (ends : EndsRun Char.isDigit rest) :
    spanDigits (digits ++ rest) = (digits, rest) := by
  rw [spanDigits, takeWhile_append_of_endsRun all ends, dropWhile_append_of_endsRun all ends]

/-- What ends a name ends a run of digits as well. -/
theorem endsRun_isDigit_of_isNameChar {rest : List Char} (ends : EndsRun isNameChar rest) :
    EndsRun Char.isDigit rest := by
  intro c next
  rw [Bool.eq_false_iff]
  intro digit
  exact Bool.false_ne_true ((ends c next).symm.trans (isNameChar_of_isDigit digit))

/-- A number starts with a hyphen or a digit. -/
theorem exists_cons_of_startsNumber {cs : List Char} (start : startsNumber cs = true) :
    ∃ c rest, cs = c :: rest ∧ (c = '-' ∨ c.isDigit = true) := by
  unfold startsNumber at start
  split at start
  · exact ⟨_, _, rfl, .inl rfl⟩
  · exact ⟨_, _, rfl, .inr start⟩
  · simp at start

/-- No number starts where a name starts. -/
theorem startsNumber_eq_false_of_isNameStart {c : Char} (start : isNameStart c = true)
    (cs : List Char) : startsNumber (c :: cs) = false := by
  rw [Bool.eq_false_iff]
  intro number
  obtain ⟨d, rest, same, rfl | digit⟩ := exists_cons_of_startsNumber number
  · exact ne_of_kind start (by decide) (List.cons.inj same).1
  · exact ne_of_kind digit (isDigit_eq_false_of_isNameStart start) (List.cons.inj same).1.symm

/-- The parts of a number: a sign, digits, and a fraction. The test for numbers cuts at the first
point and the scanner takes run after run; both are compared through these parts. -/
structure NumberParts (sign whole fraction : List Char) : Prop where
  signed : sign = [] ∨ sign = ['-']
  digits : isDigits whole = true
  fractional : fraction = [] ∨ ∃ digits, fraction = '.' :: digits ∧ isDigits digits = true

/-- What passes the test for numbers has the parts of one. -/
theorem exists_parts_of_isNumber {cs : List Char} (number : isNumber cs = true) :
    ∃ sign whole fraction, cs = sign ++ whole ++ fraction ∧ NumberParts sign whole fraction := by
  have unsigned (cs : List Char)
      (whole : isDigits (cs.span (· != '.')).1 = true)
      (fraction : (cs.span (· != '.')).2.isEmpty = true ∨
        isDigits (cs.span (· != '.')).2.tail = true) :
      ∃ whole fraction, cs = whole ++ fraction ∧ isDigits whole = true ∧
        (fraction = [] ∨ ∃ digits, fraction = '.' :: digits ∧ isDigits digits = true) := by
    rw [List.span_eq_takeWhile_dropWhile] at whole fraction
    refine ⟨_, _, (List.takeWhile_append_dropWhile (p := (· != '.'))).symm, whole, ?_⟩
    rcases fraction with empty | digits
    · exact .inl (List.isEmpty_iff.mp empty)
    · right
      cases dropped : cs.dropWhile (· != '.') with
      | nil => simp [dropped, isDigits] at digits
      | cons c rest =>
          have point : EndsRun (· != '.') (cs.dropWhile (· != '.')) := endsRun_dropWhile cs
          rw [dropped, endsRun_cons] at point
          simp only [bne_eq_false_iff_eq] at point
          subst point
          exact ⟨rest, rfl, by simpa [dropped] using digits⟩
  unfold isNumber at number
  split at number
  · rename_i rest
    simp only [Bool.and_eq_true, Bool.or_eq_true] at number
    obtain ⟨whole, fraction, rfl, digits, fractional⟩ := unsigned rest number.1 number.2
    exact ⟨['-'], whole, fraction, by simp, .inr rfl, digits, fractional⟩
  · simp only [Bool.and_eq_true, Bool.or_eq_true] at number
    obtain ⟨whole, fraction, rfl, digits, fractional⟩ := unsigned cs number.1 number.2
    exact ⟨[], whole, fraction, by simp, .inl rfl, digits, fractional⟩

theorem spanSign_of_ne {c : Char} (unsigned : c ≠ '-') (cs : List Char) :
    spanSign (c :: cs) = ([], c :: cs) := by
  rw [spanSign]
  intro rest same
  exact unsigned (List.cons.inj same).1

theorem isDigits_takeWhile {c : Char} (digit : c.isDigit = true) (cs : List Char) :
    isDigits ((c :: cs).takeWhile Char.isDigit) = true := by
  simp [isDigits, digit]

/-- Either no fraction is taken and everything is left, or one is, and no digit comes next. -/
theorem spanFraction_cases (cs : List Char) :
    (spanFraction cs).1 = [] ∧ (spanFraction cs).2 = cs ∨
      (∃ digits, (spanFraction cs).1 = '.' :: digits ∧ isDigits digits = true) ∧
        EndsRun Char.isDigit (spanFraction cs).2 := by
  unfold spanFraction
  split
  · rename_i rest
    split
    · exact .inl ⟨rfl, rfl⟩
    · rename_i nonempty
      refine .inr ⟨⟨_, rfl, ?_⟩, endsRun_dropWhile rest⟩
      have all : ∀ d ∈ (spanDigits rest).1, d.isDigit = true := fun _ => List.mem_takeWhile_imp
      simpa [isDigits, nonempty] using all
  · exact .inl ⟨rfl, rfl⟩

/-- What is taken as a number has the parts of one, and no digit comes next. A point may come next,
but then no digit stands behind it. -/
theorem exists_parts_of_startsNumber {cs : List Char} (start : startsNumber cs = true) :
    ∃ sign whole fraction, (spanNumber cs).1 = sign ++ whole ++ fraction ∧
      NumberParts sign whole fraction ∧ EndsRun Char.isDigit (spanNumber cs).2 := by
  have signed : (spanSign cs).1 = [] ∨ (spanSign cs).1 = ['-'] := by
    unfold spanSign
    split
    · exact .inr rfl
    · exact .inl rfl
  have digits : isDigits (spanDigits (spanSign cs).2).1 = true := by
    unfold startsNumber at start
    split at start
    · exact isDigits_takeWhile start _
    · rename_i c cs _
      rw [spanSign_of_ne (ne_of_kind start (by decide))]
      exact isDigits_takeWhile start cs
    · simp at start
  refine ⟨_, _, _, rfl, ⟨signed, digits, ?_⟩, ?_⟩
  · exact (spanFraction_cases _).imp And.left And.left
  · rcases spanFraction_cases (spanDigits (spanSign cs).2).2 with ⟨_, behind⟩ | ⟨_, ends⟩
    · change EndsRun Char.isDigit (spanFraction (spanDigits (spanSign cs).2).2).2
      rw [behind]
      exact endsRun_dropWhile _
    · exact ends

section Taken

variable {sign whole fraction rest : List Char}

/-- A fraction in front of neither a digit nor a point is taken whole. The point matters when the
fraction is empty: with a digit behind it, it would start one. -/
theorem spanFraction_append_of_endsRun
    (shape : fraction = [] ∨ ∃ digits, fraction = '.' :: digits ∧ isDigits digits = true)
    (noDigit : EndsRun Char.isDigit rest) (noPoint : EndsRun (· = '.') rest) :
    spanFraction (fraction ++ rest) = (fraction, rest) := by
  rcases shape with rfl | ⟨digits, rfl, all⟩
  · rw [List.nil_append, spanFraction]
    rintro tail rfl
    simp at noPoint
  · simp only [List.cons_append, spanFraction]
    rw [spanDigits_append_of_endsRun (all_isDigit_of_isDigits all) noDigit,
      if_neg (by simpa using isDigits_ne_nil all)]

/-- A number in front of neither a digit nor a point is taken whole. Each part ends the run before
it, so the three scanners are followed one after the other. -/
theorem NumberParts.spanNumber_append (parts : NumberParts sign whole fraction)
    (noDigit : EndsRun Char.isDigit rest) (noPoint : EndsRun (· = '.') rest) :
    spanNumber (sign ++ whole ++ fraction ++ rest) = (sign ++ whole ++ fraction, rest) ∧
      startsNumber (sign ++ whole ++ fraction ++ rest) = true := by
  obtain ⟨signed, digits, fractional⟩ := parts
  obtain ⟨first, others, spelled⟩ := List.exists_cons_of_ne_nil (isDigits_ne_nil digits)
  have firstDigit : first.isDigit = true :=
    all_isDigit_of_isDigits digits first (by simp [spelled])
  have unsigned : first ≠ '-' := ne_of_kind firstDigit (by decide)
  have wholeTaken : spanDigits (whole ++ (fraction ++ rest)) = (whole, fraction ++ rest) := by
    apply spanDigits_append_of_endsRun (all_isDigit_of_isDigits digits)
    rcases fractional with rfl | ⟨others, rfl, _⟩
    · exact noDigit
    · simp
  have fractionTaken := spanFraction_append_of_endsRun fractional noDigit noPoint
  have signTaken : spanSign (sign ++ (whole ++ (fraction ++ rest))) =
      (sign, whole ++ (fraction ++ rest)) := by
    rcases signed with rfl | rfl
    · rw [spelled, List.nil_append, List.cons_append, spanSign_of_ne unsigned]
    · rfl
  constructor
  · simp only [List.append_assoc, spanNumber, signTaken, wholeTaken, fractionTaken]
  · rcases signed with rfl | rfl <;> simp [spelled, startsNumber, firstDigit, unsigned]

end Taken

/-- A number in front of a character that belongs to no name is taken whole. Points and digits
belong to names, so this is the case in which rendering writes numbers. -/
theorem spanNumber_append_of_endsRun {number rest : List Char} (shape : isNumber number = true)
    (ends : EndsRun isNameChar rest) :
    spanNumber (number ++ rest) = (number, rest) ∧ startsNumber (number ++ rest) = true := by
  obtain ⟨sign, whole, fraction, rfl, parts⟩ := exists_parts_of_isNumber shape
  refine parts.spanNumber_append (endsRun_isDigit_of_isNameChar ends) fun c next => ?_
  exact decide_eq_false (ne_of_kind (by decide : isNameChar '.' = true) (ends c next)).symm

end MessageTemplate
