import MessageTemplate.Proofs.Placeholder.Conservation
import MessageTemplate.Proofs.Placeholder.OnePass

/-! # Formats do not interfere

What is selected for one format does not depend on which other formats are in use. A match of a
format is selected unless it starts at the second sign of a doubled percent sign
(`MessageTemplate.Placeholder.mem_select_iff`), and where this happens, the format is one of those
for which doubled percent signs are read, so that they are read without the other formats too. So
the formats in use are a set: neither their order nor their number matters
(`MessageTemplate.Placeholder.Extractor.formats_independent`).
-/

namespace MessageTemplate

namespace Placeholder

section Pattern

variable {cs source : List Char} {placeholder : Placeholder} {format : Format}

/-- The placeholders of a format tell it, so what one format finds is not found by another. This is
why formats can be taken one by one. -/
theorem format_of_pattern (found : format.pattern cs = some (placeholder, source)) :
    placeholder.format = format := by
  cases format with
  | pythonVar =>
      simp only [Format.pattern, Placeholder.pythonVar] at found
      split at found
      · split at found
        · simp only [Option.bind_eq_bind, Option.bind_eq_some_iff] at found
          obtain ⟨_, _, type, _, made⟩ := found
          cases made
          rfl
        · simp at found
      · simp at found
  | printf =>
      simp only [Format.pattern, Placeholder.printf] at found
      split at found
      · split at found
        · obtain ⟨_, _, made⟩ := Option.map_eq_some_iff.mp found
          cases made
          rfl
        · obtain ⟨_, _, made⟩ := Option.map_eq_some_iff.mp found
          cases made
          rfl
      · simp at found
  | bracketVar =>
      simp only [Format.pattern, Placeholder.bracketVar] at found
      split at found
      · split at found
        · obtain ⟨_, made⟩ := Option.ite_none_left_eq_some.mp found
          cases made
          rfl
        · simp at found
      · simp at found
  | emptyBracket =>
      simp only [Format.pattern, Placeholder.emptyBracket] at found
      split at found
      · cases found
        rfl
      · simp at found

/-- Doubled percent signs are read for every format whose placeholders start with a percent sign. -/
theorem readsPercent_of_pattern {formats : List Format} (listed : format ∈ formats)
    (found : format.pattern ('%' :: cs) = some (placeholder, source)) :
    readsPercent formats = true := by
  have told := formatOf?_of_pattern found
  cases format with
  | pythonVar => simp [readsPercent, listed]
  | printf => simp [readsPercent, listed]
  | bracketVar | emptyBracket =>
      unfold formatOf? at told
      split at told <;> simp_all

end Pattern

/-! ### What is selected -/

/-- The place is that of the second sign of a doubled percent sign. It does not depend on the
formats, as doubled percent signs are found on their own. -/
def SecondSign (text : List Char) (place : Nat) : Prop :=
  ∃ earlier, earlier + 1 = place ∧ percentAt earlier ∈ occurrences doubledPercent text

section Select

variable {formats others : List Format} {text : List Char}

/-- A percent sign stands at the place. So no placeholder that starts with a brace is hidden
there. -/
theorem SecondSign.getElem? {place : Nat} (second : SecondSign text place) :
    text[place]? = some '%' := by
  obtain ⟨earlier, rfl, member⟩ := second
  obtain ⟨rest, same⟩ := (takesPercents_doubledPercent text).doubled earlier member
  rw [← List.getElem?_drop, ← same]
  rfl

/-- A placeholder that a pass takes does not start at the second of two signs that are read as
one. -/
theorem not_secondSign_of_mem_scanFrom {occurrence : Occurrence Directive} {format : Format}
    (member : occurrence ∈ scanFrom formats 0 text) (listed : format ∈ formats)
    (matched : format.directive (text.drop occurrence.start) =
      some (occurrence.found, occurrence.source)) : ¬SecondSign text occurrence.start := by
  intro second
  obtain ⟨inside, sign⟩ := List.getElem?_eq_some_iff.mp second.getElem?
  obtain ⟨placeholder, isPlaceholder, captured⟩ := directive_eq_some_iff.mp matched
  rw [List.drop_eq_getElem_cons inside, sign] at captured
  have reads := readsPercent_of_pattern listed captured
  obtain ⟨earlier, before, doubled⟩ := second
  have taken : percentAt earlier ∈ scanFrom formats 0 text := (percentAt_mem_iff reads).mpr doubled
  -- the pass would take the sign twice
  rcases (takesPercents_scanFrom reads text).apart.eq_or_le member taken with same | apart | apart
  · rw [same] at isPlaceholder
    simp [percentAt] at isPlaceholder
  · have ahead : occurrence.start ≤ occurrence.stop := Nat.le_add_right _ _
    simp only [percentAt] at apart
    omega
  · simp only [percentAt, Occurrence.stop, List.length_cons, List.length_nil] at apart
    omega

/-- A placeholder is selected where a format in use matches, but not at the second sign of a doubled
percent sign. -/
theorem mem_select_iff {occurrence : Occurrence Directive} {placeholder : Placeholder}
    (isPlaceholder : occurrence.found = .placeholder placeholder) :
    occurrence ∈ select formats text ↔
      (∃ format ∈ formats, format.directive (text.drop occurrence.start) =
        some (occurrence.found, occurrence.source)) ∧ ¬SecondSign text occurrence.start := by
  rw [select_eq_scanFrom]
  constructor
  · intro member
    rcases directiveAt_eq_some_iff.mp (matches_of_mem_scanFrom member).2 with
      ⟨_, percent⟩ | ⟨format, listed, matched⟩
    · rw [(doubledPercent_eq_some_iff.mp percent).1] at isPlaceholder
      simp at isPlaceholder
    · exact ⟨⟨format, listed, matched⟩, not_secondSign_of_mem_scanFrom member listed matched⟩
  · rintro ⟨inFormat, free⟩
    have matched := directiveAt_eq_some_iff.mpr (.inr inFormat)
    rw [scanFrom_eq_occurrences]
    refine (mem_or_percentAt_mem shape_and_isPrefix_of_directiveAt matched).resolve_right ?_
    rintro ⟨earlier, before, member⟩
    rw [← scanFrom_eq_occurrences] at member
    have reads : readsPercent formats = true := by
      rw [← select_eq_scanFrom] at member
      exact (source_of_percent member rfl).1
    exact free ⟨earlier, before, (percentAt_mem_iff reads).mp member⟩

/-- What is selected depends only on which formats are in use. Both selections stand apart and have
the same members, so they are the same list. -/
theorem select_congr (same : ∀ format, format ∈ formats ↔ format ∈ others) (text : List Char) :
    select formats text = select others text := by
  have reads : readsPercent formats = readsPercent others := by
    rw [Bool.eq_iff_iff]
    simp only [readsPercent, Bool.or_eq_true, List.contains_iff_mem, same]
  have taken : directiveAt formats = directiveAt others := by
    funext cs
    apply Option.ext
    rintro ⟨found, source⟩
    rw [directiveAt_eq_some_iff, directiveAt_eq_some_iff, reads]
    simp only [same]
  rw [select_eq_scanFrom, select_eq_scanFrom, scanFrom_eq_occurrences, scanFrom_eq_occurrences,
    taken]

end Select

/-! ### Placeholders and messages -/

/-- A placeholder that was found, among the directives. Facts about selected directives are stated
for placeholders through it. -/
def Occurrence.directive (occurrence : Occurrence Placeholder) : Occurrence Directive :=
  ⟨occurrence.start, occurrence.source, .placeholder occurrence.found⟩

theorem mem_placeholdersIn_iff_mem_select {formats : List Format} {text : List Char}
    {occurrence : Occurrence Placeholder} :
    occurrence ∈ placeholdersIn formats text ↔ occurrence.directive ∈ select formats text := by
  rw [placeholdersIn, List.mem_filterMap]
  constructor
  · rintro ⟨⟨start, source, found⟩, member, captured⟩
    cases found with
    | percent => simp [Occurrence.placeholder?] at captured
    | placeholder found =>
        obtain rfl := Option.some_inj.mp captured
        exact member
  · exact fun member => ⟨_, member, rfl⟩

/-- A placeholder is selected where its format is in use and matches, but not at the second of two
signs that are read as one. -/
theorem mem_placeholdersIn_iff {formats : List Format} {text : List Char}
    {occurrence : Occurrence Placeholder} :
    occurrence ∈ placeholdersIn formats text ↔
      (∃ format ∈ formats, format.pattern (text.drop occurrence.start) =
        some (occurrence.found, occurrence.source)) ∧ ¬SecondSign text occurrence.start := by
  rw [mem_placeholdersIn_iff_mem_select, mem_select_iff rfl]
  simp only [Occurrence.directive, directive_eq_some_iff, Directive.placeholder.injEq,
    exists_eq_left']

/-- What is selected for some formats is what is selected for each of them alone. A doubled percent
sign hides the same places whether one format reads it or many. -/
theorem mem_placeholdersIn_iff_exists (formats : List Format) (text : List Char)
    (occurrence : Occurrence Placeholder) :
    occurrence ∈ placeholdersIn formats text ↔
      ∃ format ∈ formats, occurrence.found.format = format ∧
        occurrence ∈ placeholdersIn [format] text := by
  simp only [mem_placeholdersIn_iff, List.mem_singleton, exists_eq_left]
  constructor
  · rintro ⟨⟨format, listed, matched⟩, free⟩
    exact ⟨format, listed, format_of_pattern matched, matched, free⟩
  · rintro ⟨format, listed, _, matched, free⟩
    exact ⟨⟨format, listed, matched⟩, free⟩

namespace Extractor

/-- Strings that go through two extractors with the same formats, hint and bindings give the same
messages and the same bindings. -/
theorem extractAll_congr {formats others : List Format}
    (same : ∀ format, format ∈ formats ↔ format ∈ others) (hint : Option Format)
    (bindings : Bindings) (texts : List String) :
    (extractAll ⟨⟨hint, formats⟩, bindings⟩ texts).1 =
        (extractAll ⟨⟨hint, others⟩, bindings⟩ texts).1 ∧
      (extractAll ⟨⟨hint, formats⟩, bindings⟩ texts).2.bindings =
        (extractAll ⟨⟨hint, others⟩, bindings⟩ texts).2.bindings := by
  induction texts generalizing bindings with
  | nil => exact ⟨rfl, rfl⟩
  | cons text texts ih =>
      have pieces : pieces formats text.toList = pieces others text.toList := by
        rw [Placeholder.pieces, Placeholder.pieces, select_congr same]
      obtain ⟨results, last⟩ := ih (bindPieces bindings [] true (Placeholder.pieces others
        text.toList)).2
      simp only [extractAll, extract, pieces]
      exact ⟨congrArg _ results, last⟩

/-- Formats do not interfere: what is selected for some formats is what is selected for each of them
alone. So extractors whose formats are the same, in any order and any number, make the same
messages with the same bindings of any strings. -/
theorem formats_independent (formats : List Format) :
    (∀ (text : List Char) (occurrence : Occurrence Placeholder),
        occurrence ∈ placeholdersIn formats text ↔
          ∃ format ∈ formats, occurrence.found.format = format ∧
            occurrence ∈ placeholdersIn [format] text) ∧
      ∀ others : List Format, (∀ format, format ∈ formats ↔ format ∈ others) →
        ∀ (hint : Option Format) (bindings : Bindings) (texts : List String),
          (extractAll ⟨⟨hint, formats⟩, bindings⟩ texts).1 =
              (extractAll ⟨⟨hint, others⟩, bindings⟩ texts).1 ∧
            (extractAll ⟨⟨hint, formats⟩, bindings⟩ texts).2.bindings =
              (extractAll ⟨⟨hint, others⟩, bindings⟩ texts).2.bindings :=
  ⟨mem_placeholdersIn_iff_exists formats, fun _ same => extractAll_congr same⟩

/-- A doubled percent sign next to placeholders of two formats, of which one is given twice. -/
theorem formats_independent_repeated :
    (∀ format, format ∈ [Format.printf, .bracketVar] ↔
        format ∈ [Format.bracketVar, .printf, .bracketVar]) ∧
      (extractAll ⟨⟨none, [.bracketVar, .printf, .bracketVar]⟩, []⟩ ["%%%d\x7bx\x7d"]).1 =
        [.ok ⟨[.text "\\%",
          .expression ⟨some (.variable "ph0"), some (function ⟨.printf, none, some .int⟩)⟩,
          .expression ⟨some (.variable "x"), some (function ⟨.bracketVar, some "x", none⟩)⟩],
            true⟩] ∧
      ⟨4, ['\x7b', 'x', '\x7d'], ⟨.bracketVar, some "x", none⟩⟩ ∈
        placeholdersIn [.bracketVar] "%%%d\x7bx\x7d".toList := by
  have same (format : Format) : format ∈ [Format.printf, .bracketVar] ↔
      format ∈ [Format.bracketVar, .printf, .bracketVar] := by
    cases format <;> decide
  have extracted : (extractAll ⟨⟨none, [.printf, .bracketVar]⟩, []⟩ ["%%%d\x7bx\x7d"]).1 =
      [.ok ⟨[.text "\\%",
        .expression ⟨some (.variable "ph0"), some (function ⟨.printf, none, some .int⟩)⟩,
        .expression ⟨some (.variable "x"), some (function ⟨.bracketVar, some "x", none⟩)⟩],
          true⟩] := by
    cbv
  have selected : placeholdersIn [.printf, .bracketVar] "%%%d\x7bx\x7d".toList =
      [⟨2, ['%', 'd'], ⟨.printf, none, some .int⟩⟩,
        ⟨4, ['\x7b', 'x', '\x7d'], ⟨.bracketVar, some "x", none⟩⟩] := by
    cbv
  have law := formats_independent [.printf, .bracketVar]
  obtain ⟨format, _, rfl, alone⟩ :=
    (law.1 _ _).mp (selected ▸ List.mem_cons_of_mem _ List.mem_cons_self)
  exact ⟨same, (law.2 _ same none [] _).1.symm.trans extracted, alone⟩

end Extractor

end Placeholder

end MessageTemplate
