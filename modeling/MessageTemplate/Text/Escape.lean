/-! # Escaped texts and quoted literals

The text of a message is stored escaped: a backslash stands before every reserved character. A
literal is written between bars, with a backslash before each bar and each backslash. Removing
the backslashes is one operation for both.
-/

namespace MessageTemplate

/-- The characters that a text shows only behind a backslash. -/
def reservedChars : List Char :=
  ['{', '}', '\\', '|', '!', '@', '#', '%', '*', '<', '>', '/', '?', '~']

/-- Whether a text shows the character only behind a backslash. -/
def isReserved (c : Char) : Bool := reservedChars.contains c

/-- Put a backslash before every character of the given kind. Texts and quoted literals differ only
in that kind. -/
def escapeWhere (special : Char → Bool) : List Char → List Char
  | [] => []
  | c :: cs => if special c then '\\' :: c :: escapeWhere special cs
    else c :: escapeWhere special cs

/-- Each backslash stands for the character behind it; one at the very end is kept. The function
drops any backslash, also one that escaping never writes. -/
def unescapeChars : List Char → List Char
  | [] => []
  | '\\' :: c :: cs => c :: unescapeChars cs
  | c :: cs => c :: unescapeChars cs

/-- Escape every reserved character of a text, the form in which a text stands in a template. -/
def escapeText (text : String) : String :=
  String.ofList (escapeWhere isReserved text.toList)

/-- The text that an escaped text shows. A template keeps its texts escaped, so this is applied only
where a text is shown. -/
def unescapeText (escaped : String) : String :=
  String.ofList (unescapeChars escaped.toList)

/-- A bar and a backslash are escaped inside bars. -/
def isQuoteSpecial (c : Char) : Bool := c = '|' || c = '\\'

/-- A literal between bars. -/
def quoteLiteral (value : String) : List Char :=
  '|' :: escapeWhere isQuoteSpecial value.toList ++ ['|']

/-- A backslash and the character behind it are read together, whichever character that is. -/
@[simp] theorem unescapeChars_backslash (c : Char) (cs : List Char) :
    unescapeChars ('\\' :: c :: cs) = c :: unescapeChars cs := rfl

/-- A character other than a backslash stands for itself. -/
theorem unescapeChars_cons_of_ne {c : Char} (plain : c ≠ '\\') (cs : List Char) :
    unescapeChars (c :: cs) = c :: unescapeChars cs := by
  rw [unescapeChars]
  rintro d ds rfl
  exact absurd rfl plain

/-- Removing the backslashes undoes escaping, as soon as the backslash itself is escaped. -/
theorem unescapeChars_escapeWhere {special : Char → Bool} (backslash : special '\\' = true)
    (cs : List Char) : unescapeChars (escapeWhere special cs) = cs := by
  induction cs with
  | nil => rfl
  | cons c cs ih =>
    by_cases escaped : special c = true
    · simp [escapeWhere, escaped, ih]
    · have plain : c ≠ '\\' := fun same => escaped (same ▸ backslash)
      simp [escapeWhere, escaped, unescapeChars_cons_of_ne plain, ih]

end MessageTemplate
