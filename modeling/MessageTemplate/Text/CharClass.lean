/-! # Character classes

A class of characters is a table of code-point ranges. The blank characters are those of the
Unicode property White_Space; the length of a text is its number of bytes in UTF-8.
-/

namespace MessageTemplate

/-- A class of characters, given by ranges of code points with both ends included. -/
structure CharClass where
  ranges : List (Nat × Nat)

namespace CharClass

/-- A character belongs to a class when its code point lies in one of the ranges. -/
def contains (cls : CharClass) (c : Char) : Bool :=
  cls.ranges.any fun (first, last) => first ≤ c.toNat && c.toNat ≤ last

/-- The characters with the Unicode property White_Space. U+1680 is one of them although it may also
start a name, which is why a name can be lost as a blank. -/
def blank : CharClass where
  ranges := [
    (0x09, 0x0D), (0x20, 0x20), (0x85, 0x85), (0xA0, 0xA0), (0x1680, 0x1680),
    (0x2000, 0x200A), (0x2028, 0x2029), (0x202F, 0x202F), (0x205F, 0x205F), (0x3000, 0x3000)]

end CharClass

/-- Blank characters separate words and are skipped outside texts and quoted literals. Inside both
of them a blank is a character like any other. -/
def isBlank (c : Char) : Bool := CharClass.blank.contains c

/-- The number of bytes that the characters take in UTF-8, which is what the offsets of tokens count
in. -/
def byteLength : List Char → Nat
  | [] => 0
  | c :: cs => c.utf8Size + byteLength cs

@[simp] theorem byteLength_nil : byteLength [] = 0 := rfl

@[simp] theorem byteLength_cons (c : Char) (cs : List Char) :
    byteLength (c :: cs) = c.utf8Size + byteLength cs := rfl

/-- Bytes add up, so that the offset behind a lexeme is the offset before it and the length of its
spelling. -/
@[simp] theorem byteLength_append (front back : List Char) :
    byteLength (front ++ back) = byteLength front + byteLength back := by
  induction front with
  | nil => simp
  | cons c cs ih => simp [ih, Nat.add_assoc]

end MessageTemplate
