import MessageTemplate.Placeholder.Pattern

/-! # Placeholders in a text

The placeholders of a text are found for each format on its own, from left to right without
overlap, together with the doubled percent signs where a percent format is in use. Of all that is
found, the leftmost comes first, an earlier format wins a tie, and whatever overlaps what was
selected before is dropped.

The text then falls into pieces: the selected placeholders and the plain text between them.
-/

namespace MessageTemplate

namespace Placeholder

/-- Something found in a text: where it starts, the characters it takes, and what it is. -/
structure Occurrence (α : Type) where
  start : Nat
  source : List Char
  found : α
  deriving DecidableEq, Repr

/-- The position behind an occurrence. -/
def Occurrence.stop {α : Type} (occurrence : Occurrence α) : Nat :=
  occurrence.start + occurrence.source.length

/-- Every occurrence of a pattern from a position on, from left to right without overlap. The
given number of characters is passed over first: they belong to an earlier occurrence. -/
def occurrencesFrom {α : Type} (pattern : Pattern α) :
    (passed position : Nat) → List Char → List (Occurrence α)
  | _, _, [] => []
  | passed + 1, position, _ :: cs => occurrencesFrom pattern passed (position + 1) cs
  | 0, position, c :: cs =>
    match pattern (c :: cs) with
    | some (found, source) =>
      ⟨position, source, found⟩ ::
        occurrencesFrom pattern (source.length - 1) (position + 1) cs
    | none => occurrencesFrom pattern 0 (position + 1) cs

/-- Every occurrence of a pattern in a text. -/
def occurrences {α : Type} (pattern : Pattern α) (text : List Char) : List (Occurrence α) :=
  occurrencesFrom pattern 0 0 text

/-- What is found in a text: a doubled percent sign, or a placeholder. -/
inductive Directive where
  | percent
  | placeholder (placeholder : Placeholder)
  deriving DecidableEq, Repr

/-- The pattern of a doubled percent sign. -/
def doubledPercent : Pattern Directive
  | '%' :: '%' :: _ => some (.percent, ['%', '%'])
  | _ => none

/-- The pattern of a format, as a pattern of directives. -/
def Format.directive (format : Format) : Pattern Directive := fun cs =>
  (format.pattern cs).map fun (placeholder, source) => (.placeholder placeholder, source)

/-- Doubled percent signs are read where one of the percent formats is in use. -/
def readsPercent (formats : List Format) : Bool :=
  formats.contains .printf || formats.contains .pythonVar

/-- All that is found in a text, pattern by pattern. Occurrences of different patterns may overlap
here. -/
def collect (formats : List Format) (text : List Char) : List (Occurrence Directive) :=
  (if readsPercent formats then occurrences doubledPercent text else []) ++
    formats.flatMap fun format => occurrences format.directive text

/-- Drop what starts before a position or overlaps what is kept before it. The list is sorted by
starts when this is used, so one position is all that has to be kept. -/
def dropOverlaps {α : Type} : Nat → List (Occurrence α) → List (Occurrence α)
  | _, [] => []
  | position, first :: rest =>
    if position ≤ first.start then first :: dropOverlaps first.stop rest
    else dropOverlaps position rest

/-- The directives selected in a text, from left to right. Of two that start at one place, the one
collected first is kept, because the sort is stable. -/
def select (formats : List Format) (text : List Char) : List (Occurrence Directive) :=
  dropOverlaps 0 ((collect formats text).mergeSort fun left right => left.start ≤ right.start)

/-- A piece of a text: plain characters, or a placeholder. -/
inductive Piece where
  | text (chars : List Char)
  | placeholder (placeholder : Placeholder)
  deriving DecidableEq, Repr

namespace Piece

/-- Put characters in front: they join a text that comes first, and no characters make no text. -/
def consText (chars : List Char) (pieces : List Piece) : List Piece :=
  match chars, pieces with
  | [], pieces => pieces
  | chars, .text following :: pieces => .text (chars ++ following) :: pieces
  | chars, pieces => .text chars :: pieces

/-- Cut what is left of a text, from a position on, at the given occurrences. A doubled percent
sign is the text of one. -/
def cut : Nat → List Char → List (Occurrence Directive) → List Piece
  | _, rest, [] => consText rest []
  | position, rest, occurrence :: following =>
    let pieces := cut occurrence.stop (rest.drop (occurrence.stop - position)) following
    consText (rest.take (occurrence.start - position))
      (match occurrence.found with
        | .percent => consText ['%'] pieces
        | .placeholder found => .placeholder found :: pieces)

/-- Whether the piece is a placeholder, which makes the string one that uses the format. -/
def isPlaceholder : Piece → Bool
  | .text _ => false
  | .placeholder _ => true

end Piece

/-- The pieces of a text. No two texts are neighbours, and no text is empty. -/
def pieces (formats : List Format) (text : List Char) : List Piece :=
  Piece.cut 0 text (select formats text)

end Placeholder

end MessageTemplate
