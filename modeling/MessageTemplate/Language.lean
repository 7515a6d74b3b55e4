/-! # Language identifiers

A language identifier is a language subtag, optionally followed by a script, a region and any
number of variants. Letter case carries no meaning: every identifier has one canonical spelling,
with the variants in order and without repetition.
-/

namespace MessageTemplate

/-- A language identifier in canonical spelling. The base subtag decides which plural categories are
required; the other subtags are kept for its display. -/
structure Language where
  base : String
  script : Option String := none
  region : Option String := none
  variants : List String := []
  deriving DecidableEq, Repr

/-- Why a text is not a language identifier. -/
inductive Language.Fault where
  | badBase
  | badSubtag
  deriving DecidableEq, Repr

namespace Language

/-- The text of a fault. -/
def Fault.message : Fault → String
  | .badBase => "Parser error: The given language subtag is invalid"
  | .badSubtag => "Parser error: Invalid subtag"

/-- The subtags joined by hyphens. -/
def display (language : Language) : String :=
  String.intercalate "-"
    (language.base :: language.script.toList ++ language.region.toList ++ language.variants)

/-- A language subtag has two or three letters, or five to eight. -/
def isBase (subtag : List Char) : Bool :=
  [2, 3, 5, 6, 7, 8].contains subtag.length && subtag.all Char.isAlpha

/-- A script has four letters. -/
def isScript (subtag : List Char) : Bool :=
  subtag.length = 4 && subtag.all Char.isAlpha

/-- A region has two letters or three digits. -/
def isRegion (subtag : List Char) : Bool :=
  (subtag.length = 2 && subtag.all Char.isAlpha) || (subtag.length = 3 && subtag.all Char.isDigit)

/-- A variant has five to eight letters and digits, or four ASCII characters without NUL. Of the
four, the first is a digit or the others are letters and digits. -/
def isVariant (subtag : List Char) : Bool :=
  ([5, 6, 7, 8].contains subtag.length && subtag.all Char.isAlphanum) ||
    (subtag.length = 4 && (subtag.all fun c => 0 < c.toNat && c.toNat < 128) &&
      (subtag.head?.any Char.isDigit || subtag.tail.all Char.isAlphanum))

/-- The canonical letter case of a base subtag and of variants. -/
def lowerCase (subtag : List Char) : String := String.ofList (subtag.map Char.toLower)

/-- The canonical letter case of a region. -/
def upperCase (subtag : List Char) : String := String.ofList (subtag.map Char.toUpper)

/-- The canonical letter case of a script. -/
def titleCase : List Char → String
  | [] => ""
  | c :: cs => String.ofList (c.toUpper :: cs.map Char.toLower)

/-- The first subtag, when it is of the given kind, and the subtags after it. Script and region may
each be left out. -/
def takeSubtag (kind : List Char → Bool) : List (List Char) → Option (List Char) × List (List Char)
  | [] => (none, [])
  | subtag :: rest => if kind subtag then (some subtag, rest) else (none, subtag :: rest)

/-- Read a language identifier whose subtags are separated by hyphens or underscores. Variants are
sorted and lose their repetitions. -/
def parse (text : String) : Except Fault Language :=
  match text.toList.splitOnP fun c => c = '-' || c = '_' with
  | [] => .error .badBase
  | base :: subtags =>
    if isBase base then
      let (script, afterScript) := takeSubtag isScript subtags
      let (region, variants) := takeSubtag isRegion afterScript
      if variants.all isVariant then
        .ok {
          base := lowerCase base
          script := script.map titleCase
          region := region.map upperCase
          variants := ((variants.map lowerCase).mergeSort (· ≤ ·)).eraseDups }
      else .error .badSubtag
    else .error .badBase

end Language

end MessageTemplate
