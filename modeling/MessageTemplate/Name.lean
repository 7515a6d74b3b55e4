import MessageTemplate.Text.CharClass

/-! # Names and numbers

Variables, functions, markup and options carry names. A name starts with a letter-like character
and goes on with letters, digits, dots, hyphens and joining marks. Numbers are the unquoted
literals that are not names.
-/

namespace MessageTemplate

/-- The characters that can start a name. The ranges are those of the grammar, U+1680 among them. -/
def CharClass.nameStart : CharClass where
  ranges := [
    (0x41, 0x5A), (0x5F, 0x5F), (0x61, 0x7A), (0xC0, 0xD6), (0xD8, 0xF6), (0xF8, 0x2FF),
    (0x370, 0x37D), (0x37F, 0x1FFF), (0x200C, 0x200D), (0x2070, 0x218F), (0x2C00, 0x2FEF),
    (0x3001, 0xD7FF), (0xF900, 0xFDCF), (0xFDF0, 0xFFFD), (0x10000, 0xEFFFF)]

/-- The characters that can only continue a name: hyphen, point, digits and marks that combine with
what stands before them. -/
def CharClass.nameContinue : CharClass where
  ranges := [
    (0x2D, 0x2E), (0x30, 0x39), (0xB7, 0xB7), (0x300, 0x36F), (0x203F, 0x2040)]

/-- Whether a name can start with the character. -/
def isNameStart (c : Char) : Bool := CharClass.nameStart.contains c

/-- Whether a name can go on with the character. One that can start a name can also stand inside
it. -/
def isNameChar (c : Char) : Bool := isNameStart c || CharClass.nameContinue.contains c

/-- A name is a starting character followed by name characters. -/
def isNameChars : List Char → Bool
  | [] => false
  | c :: cs => isNameStart c && cs.all isNameChar

/-- Whether the whole text is one name, the test that rendering applies to every name it writes. -/
def isName (text : String) : Bool := isNameChars text.toList

/-- A nonempty run of decimal digits. Only the ten ASCII digits count. -/
def isDigits (cs : List Char) : Bool := !cs.isEmpty && cs.all Char.isDigit

/-- The number that a run of decimal digits denotes. -/
def decimalValue (digits : List Char) : Nat := Nat.ofDigitChars 10 digits 0

/-- A number is a run of digits with an optional hyphen before it and an optional fraction, a point
and more digits, behind it. A key of this form is written without bars. -/
def isNumber (cs : List Char) : Bool :=
  let unsigned := match cs with
    | '-' :: rest => rest
    | _ => cs
  let (whole, fraction) := unsigned.span (· != '.')
  isDigits whole && (fraction.isEmpty || isDigits fraction.tail)

/-- A number starts with a digit, or with a hyphen and a digit. The rest of the number is not looked
at, so that this decides what is read from the next two characters. -/
def startsNumber : List Char → Bool
  | '-' :: c :: _ => c.isDigit
  | c :: _ => c.isDigit
  | [] => false

/-- The leading digits and what follows them. -/
def spanDigits (cs : List Char) : List Char × List Char :=
  (cs.takeWhile Char.isDigit, cs.dropWhile Char.isDigit)

/-- The hyphen that the characters start with, if they do, and what follows it. -/
def spanSign : List Char → List Char × List Char
  | '-' :: rest => (['-'], rest)
  | cs => ([], cs)

/-- The fraction that the characters start with, the point included, and what follows it; the
fraction is empty when no digit stands behind a point. -/
def spanFraction : List Char → List Char × List Char
  | '.' :: rest =>
    if (spanDigits rest).1.isEmpty then ([], '.' :: rest)
    else ('.' :: (spanDigits rest).1, (spanDigits rest).2)
  | cs => ([], cs)

/-- The number that the characters start with, and what follows it. It is the longest one: a point
without a digit behind it is left. -/
def spanNumber (cs : List Char) : List Char × List Char :=
  let (sign, unsigned) := spanSign cs
  let (whole, afterWhole) := spanDigits unsigned
  let (fraction, rest) := spanFraction afterWhole
  (sign ++ whole ++ fraction, rest)

/-- The leading name characters and what follows them. The first of them is not asked to start a
name, which is why a value of an option can be read this way. -/
def spanName (cs : List Char) : List Char × List Char :=
  (cs.takeWhile isNameChar, cs.dropWhile isNameChar)

/-- Splitting off the digits loses no character. -/
@[simp] theorem spanDigits_append (cs : List Char) :
    (spanDigits cs).1 ++ (spanDigits cs).2 = cs :=
  List.takeWhile_append_dropWhile

/-- What is left behind the digits is no longer than the whole. -/
theorem spanDigits_length (cs : List Char) : (spanDigits cs).2.length ≤ cs.length :=
  (List.dropWhile_sublist _).length_le

/-- Splitting off a name loses no character. -/
@[simp] theorem spanName_append (cs : List Char) : (spanName cs).1 ++ (spanName cs).2 = cs :=
  List.takeWhile_append_dropWhile

/-- Splitting off a hyphen loses no character. -/
@[simp] theorem spanSign_append (cs : List Char) : (spanSign cs).1 ++ (spanSign cs).2 = cs := by
  unfold spanSign
  split <;> rfl

/-- Splitting off a fraction loses no character, also where the point has no digit behind it and
stays in the rest. -/
@[simp] theorem spanFraction_append (cs : List Char) :
    (spanFraction cs).1 ++ (spanFraction cs).2 = cs := by
  unfold spanFraction
  split
  · split <;> simp
  · rfl

/-- Splitting off a number loses no character: its three parts do not. -/
@[simp] theorem spanNumber_append (cs : List Char) :
    (spanNumber cs).1 ++ (spanNumber cs).2 = cs := by
  simp [spanNumber]

/-- Some character belongs to the number whenever one starts here, so that scanning a number always
gets further. -/
theorem spanNumber_ne_nil {cs : List Char} (start : startsNumber cs = true) :
    (spanNumber cs).1 ≠ [] := by
  unfold startsNumber at start
  split at start
  · simp [spanNumber, spanSign]
  · rename_i c cs signed
    have unsigned : c ≠ '-' := by
      rintro rfl
      simp at start
    simp [spanNumber, spanSign, unsigned, spanDigits, start]
  · simp at start

/-- A name that starts here has at least its first character. -/
theorem spanName_ne_nil {c : Char} (start : isNameStart c = true) (cs : List Char) :
    (spanName (c :: cs)).1 ≠ [] := by
  simp [spanName, isNameChar, start]

end MessageTemplate
