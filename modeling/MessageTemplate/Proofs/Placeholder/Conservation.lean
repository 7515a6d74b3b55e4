import Mathlib
import MessageTemplate.Proofs.Placeholder.Extraction

/-! # Extraction conserves the text

Nothing of a text is lost, doubled or moved when its placeholders are extracted: texts show what
they stand for and every expression stands for the next placeholder, so that the nodes of the
message show the text again, with one sign for every doubled percent sign
(`MessageTemplate.Placeholder.Extractor.shows_of_extract`).
-/

namespace MessageTemplate

namespace Placeholder

/-! ### What is selected in a text -/

/-- The placeholder that was found, with its place and its characters. There is none where two
percent signs were found. -/
def Occurrence.placeholder? (occurrence : Occurrence Directive) : Option (Occurrence Placeholder) :=
  match occurrence.found with
  | .percent => none
  | .placeholder found => some ⟨occurrence.start, occurrence.source, found⟩

/-- The placeholders selected in a text, from left to right. They are what the expressions of its
message are held against. -/
def placeholdersIn (formats : List Format) (text : List Char) : List (Occurrence Placeholder) :=
  (select formats text).filterMap Occurrence.placeholder?

/-- The places of the doubled percent signs among some occurrences. -/
def percentsAmong (occurrences : List (Occurrence Directive)) : List Nat :=
  (occurrences.filter (·.found = .percent)).map (·.start)

/-- The places of the doubled percent signs selected in a text. At each of them two signs are read
and one is shown. -/
def percentsIn (formats : List Format) (text : List Char) : List Nat :=
  percentsAmong (select formats text)

/-- The characters from a position on, without the second sign of the doubled percent signs at the
given places. -/
def halveAt (places : List Nat) : Nat → List Char → List Char
  | _, [] => []
  | position, c :: cs =>
    if places.any (· + 1 = position) then halveAt places (position + 1) cs
    else c :: halveAt places (position + 1) cs

/-- A text with one sign for every doubled percent sign that is selected in it. This is what a
message has to show of its text. -/
def halvePercents (formats : List Format) (text : List Char) : List Char :=
  halveAt (percentsIn formats text) 0 text

section Halve

variable {places : List Nat}

/-- A text is halved part by part, each part from its own position on. -/
theorem halveAt_append (places : List Nat) (position : Nat) (front back : List Char) :
    halveAt places position (front ++ back) =
      halveAt places position front ++ halveAt places (position + front.length) back := by
  induction front generalizing position with
  | nil => rfl
  | cons c cs ih =>
      have next : position + (c :: cs).length = position + 1 + cs.length := by
        rw [List.length_cons]
        omega
      rw [List.cons_append, halveAt, halveAt, ih, next]
      split <;> rfl

/-- Characters before all of the places stay as they are. This is the part of a text in front of its
first directive. -/
theorem halveAt_of_le {position : Nat} {cs : List Char}
    (ahead : ∀ place ∈ places, position + cs.length ≤ place + 1) :
    halveAt places position cs = cs := by
  induction cs generalizing position with
  | nil => rfl
  | cons c cs ih =>
      rw [List.length_cons] at ahead
      rw [halveAt, if_neg, ih]
      · intro place member
        have := ahead place member
        omega
      · simp only [List.any_eq_true, decide_eq_true_eq, not_exists, not_and]
        intro place member
        have := ahead place member
        omega

theorem halveAt_cons_of_lt {place position : Nat} (passed : place + 1 < position) (cs : List Char) :
    halveAt (place :: places) position cs = halveAt places position cs := by
  induction cs generalizing position with
  | nil => rfl
  | cons c cs ih =>
      have other : ¬place + 1 = position := by omega
      rw [halveAt, halveAt, ih (by omega), List.any_cons, decide_eq_false other, Bool.false_or]

end Halve

theorem percentsAmong_cons (first : Occurrence Directive)
    (following : List (Occurrence Directive)) :
    percentsAmong (first :: following) =
      if first.found = .percent then first.start :: percentsAmong following
      else percentsAmong following := by
  rw [percentsAmong, List.filter_cons]
  split <;> simp_all [percentsAmong]

theorem le_of_mem_percentsAmong {position place : Nat} {occurrences : List (Occurrence Directive)}
    (apart : Apart position occurrences) (member : place ∈ percentsAmong occurrences) :
    position ≤ place := by
  obtain ⟨occurrence, listed, rfl⟩ := List.mem_map.mp member
  exact apart.le_start (List.mem_of_mem_filter listed)

/-- The characters that an occurrence contributes: one sign for two, and those of a placeholder as
they are. -/
def Occurrence.kept (occurrence : Occurrence Directive) : List Char :=
  match occurrence.found with
  | .percent => ['%']
  | .placeholder _ => occurrence.source

section Cut

variable {first : Occurrence Directive} {following : List (Occurrence Directive)}

/-- What an occurrence contributes is what is left of its own characters: the places behind it have
no part in them. -/
theorem halveAt_source (apart : Apart first.stop following)
    (doubled : first.found = .percent → first.source = ['%', '%']) :
    halveAt (percentsAmong (first :: following)) first.start first.source = first.kept := by
  have later : ∀ place ∈ percentsAmong following, first.start + first.source.length ≤ place :=
    fun place member => le_of_mem_percentsAmong apart member
  obtain ⟨start, source, found⟩ := first
  rw [percentsAmong_cons]
  cases found with
  | percent =>
      obtain rfl : source = ['%', '%'] := doubled rfl
      have free : ¬(start :: percentsAmong following).any (· + 1 = start) = true := by
        simp only [List.any_cons, List.any_eq_true, Bool.or_eq_true, decide_eq_true_eq]
        rintro (same | ⟨place, member, same⟩)
        · omega
        · have := later place member
          simp only at this
          omega
      rw [if_pos rfl, halveAt, if_neg free, halveAt, if_pos (by simp), halveAt]
      rfl
  | placeholder found =>
      rw [if_neg (by simp)]
      exact halveAt_of_le fun place member => Nat.le_succ_of_le (later place member)

/-- A text is halved part by part: what stands before an occurrence is kept, and what stands behind
it does not depend on it. -/
theorem halveAt_split {position : Nat} {front back : List Char}
    (reach : position + front.length = first.start) (apart : Apart first.stop following)
    (doubled : first.found = .percent → first.source = ['%', '%']) :
    halveAt (percentsAmong (first :: following)) position (front ++ (first.source ++ back)) =
      front ++ (first.kept ++ halveAt (percentsAmong following) first.stop back) := by
  have before : halveAt (percentsAmong (first :: following)) position front = front := by
    have whole : Apart first.start (first :: following) := ⟨Nat.le_refl _, apart⟩
    refine halveAt_of_le fun place member => ?_
    have := le_of_mem_percentsAmong whole member
    omega
  have behind : halveAt (percentsAmong (first :: following)) first.stop back =
      halveAt (percentsAmong following) first.stop back := by
    rw [percentsAmong_cons]
    split
    · rename_i percent
      refine halveAt_cons_of_lt ?_ back
      rw [Occurrence.stop, doubled percent]
      simp
    · rfl
  rw [halveAt_append, before, reach, halveAt_append, halveAt_source apart doubled]
  exact congrArg _ (congrArg _ behind)

end Cut

/-! ### Pieces -/

/-- The pieces spell the characters, their placeholders being the given ones in order. A plain piece
spells itself, and a placeholder the characters that it was found by. -/
inductive Piece.Spell : List Piece → List (Occurrence Placeholder) → List Char → Prop
  | nil : Spell [] [] []
  | text {pieces : List Piece} {placeholders : List (Occurrence Placeholder)} {rest : List Char}
      (chars : List Char) (others : Spell pieces placeholders rest) :
      Spell (.text chars :: pieces) placeholders (chars ++ rest)
  | placeholder {pieces : List Piece} {placeholders : List (Occurrence Placeholder)}
      {rest : List Char} (occurrence : Occurrence Placeholder)
      (others : Spell pieces placeholders rest) :
      Spell (.placeholder occurrence.found :: pieces) (occurrence :: placeholders)
        (occurrence.source ++ rest)

namespace Piece

/-- Characters in front of pieces are spelled in front of them, whether they join a text or make
one. -/
theorem Spell.consText {pieces : List Piece} {placeholders : List (Occurrence Placeholder)}
    {rest : List Char} (spell : Spell pieces placeholders rest) (chars : List Char) :
    Spell (Piece.consText chars pieces) placeholders (chars ++ rest) := by
  unfold Piece.consText
  split
  · exact spell
  · cases spell with
    | text following others =>
        rw [← List.append_assoc]
        exact .text _ others
  · exact .text chars spell

/-- Cutting a text at occurrences that stand apart in it keeps all of its characters, the second
sign of each doubled percent sign excepted. The induction is on the occurrences. -/
theorem spell_cut {occurrences : List (Occurrence Directive)} {position : Nat} {rest : List Char}
    (apart : Apart position occurrences)
    (stands : ∀ occurrence ∈ occurrences, occurrence.StandsIn position rest)
    (doubled : ∀ occurrence ∈ occurrences, occurrence.found = .percent →
      occurrence.source = ['%', '%']) :
    Spell (cut position rest occurrences) (occurrences.filterMap Occurrence.placeholder?)
      (halveAt (percentsAmong occurrences) position rest) := by
  induction occurrences generalizing position rest with
  | nil =>
      have spell := Spell.nil.consText rest
      rw [List.append_nil] at spell
      rw [halveAt_of_le (by simp [percentsAmong])]
      exact spell
  | cons first following ih =>
      obtain ⟨behind, apart⟩ := apart
      rw [List.forall_mem_cons] at stands doubled
      obtain ⟨reach, split⟩ := stands.1.split behind
      have spell := ih apart (fun occurrence member =>
        (stands.2 occurrence member).drop behind (apart.le_start member)) doubled.2
      have halved := @halveAt_split first following position
        (rest.take (first.start - position)) (rest.drop (first.stop - position)) (by omega) apart
        doubled.1
      rw [← split] at halved
      rw [halved, cut]
      apply Spell.consText
      obtain ⟨start, source, found⟩ := first
      cases found with
      | percent => exact spell.consText ['%']
      | placeholder found => exact .placeholder ⟨start, source, found⟩ spell

/-- The pieces have a placeholder when the text does. -/
theorem Spell.any_isPlaceholder {pieces : List Piece} {placeholders : List (Occurrence Placeholder)}
    {chars : List Char} (spell : Spell pieces placeholders chars) :
    pieces.any isPlaceholder = true ↔ placeholders ≠ [] := by
  induction spell with
  | nil => simp
  | text chars others ih => rwa [List.any_cons, isPlaceholder, Bool.false_or]
  | placeholder occurrence others ih => simp [isPlaceholder]

end Piece

/-- The pieces of a text spell it, with one sign for every doubled percent sign. Nothing else is
lost or changes its place when a text is cut. -/
theorem spell_pieces (formats : List Format) (text : List Char) :
    Piece.Spell (pieces formats text) (placeholdersIn formats text) (halvePercents formats text) :=
  Piece.spell_cut (apart_select formats text) (fun _ => standsIn_of_mem_select)
    fun _ member percent => (source_of_percent member percent).2

/-! ### Nodes -/

/-- The nodes show the characters: a text shows what it stands for without its backslashes, and an
expression on a variable shows the next of the placeholders, whose function it has. -/
inductive Shows : List Node → List (Occurrence Placeholder) → List Char → Prop
  | nil : Shows [] [] []
  | text {nodes : List Node} {placeholders : List (Occurrence Placeholder)} {rest : List Char}
      (value : String) (others : Shows nodes placeholders rest) :
      Shows (.text value :: nodes) placeholders ((unescapeText value).toList ++ rest)
  | expression {nodes : List Node} {placeholders : List (Occurrence Placeholder)}
      {rest : List Char} (name : String) (occurrence : Occurrence Placeholder)
      (others : Shows nodes placeholders rest) :
      Shows (.expression ⟨some (.variable name), some occurrence.found.function⟩ :: nodes)
        (occurrence :: placeholders) (occurrence.source ++ rest)

/-- The message has an expression when the text has a placeholder. This is what the flag of an
extraction tells. -/
theorem Shows.exists_expression_iff {nodes : List Node}
    {placeholders : List (Occurrence Placeholder)} {chars : List Char}
    (shows : Shows nodes placeholders chars) :
    (∃ expression, .expression expression ∈ nodes) ↔ placeholders ≠ [] := by
  induction shows with
  | nil => simp
  | text value others ih => simpa using ih
  | expression name occurrence others ih => simp

/-- A plain piece shows its characters, whether or not its first one is escaped for its place: the
extra backslash is dropped like any other. -/
theorem exists_textNode (leading : Bool) (chars : List Char) :
    ∃ value, textNode leading chars = .text value ∧ (unescapeText value).toList = chars := by
  have shown : unescapeChars (escapeWhere isReserved chars) = chars :=
    unescapeChars_escapeWhere (by decide) chars
  refine ⟨_, rfl, ?_⟩
  rw [unescapeText, String.toList_ofList, String.toList_ofList]
  split
  · rename_i sign
    cases escaped : escapeWhere isReserved chars with
    | nil => simp [escaped] at sign
    | cons c cs =>
        have sign : isExpressionSign c = true := by
          simpa [escaped] using (Bool.and_eq_true_iff.mp sign).2
        rw [escaped, unescapeChars_cons_of_ne (ne_of_kind sign (by decide))] at shown
        rw [unescapeChars_backslash, shown]
  · exact shown

/-- The nodes of the pieces show what the pieces spell. The bindings only give the names of the
variables, so they are arbitrary here. -/
theorem shows_bindPieces {pieces : List Piece} {placeholders : List (Occurrence Placeholder)}
    {chars : List Char} (spell : Piece.Spell pieces placeholders chars) (bindings : Bindings)
    (met : List Function) (leading : Bool) :
    Shows (bindPieces bindings met leading pieces).1 placeholders chars := by
  induction spell generalizing bindings met leading with
  | nil => exact .nil
  | text chars others ih =>
      obtain ⟨value, made, shown⟩ := exists_textNode leading chars
      have shows := Shows.text value (ih bindings met false)
      rw [shown, ← made] at shows
      exact shows
  | placeholder occurrence others ih =>
      have shows := Shows.expression
        (bindings.bind occurrence.found (met.count occurrence.found.function)).1.name occurrence
        (ih (bindings.bind occurrence.found (met.count occurrence.found.function)).2
          (occurrence.found.function :: met) false)
      rw [← Bindings.bind_expression] at shows
      exact shows

/-! ### Places in the text -/

section Places

variable {formats : List Format} {text : List Char}

/-- A selected placeholder has its characters in the text. -/
theorem isPrefix_of_mem_placeholdersIn {occurrence : Occurrence Placeholder}
    (member : occurrence ∈ placeholdersIn formats text) :
    occurrence.source <+: text.drop occurrence.start := by
  obtain ⟨⟨start, source, found⟩, selected, captured⟩ := List.mem_filterMap.mp member
  cases found with
  | percent => simp [Occurrence.placeholder?] at captured
  | placeholder found =>
      obtain rfl := Option.some_inj.mp captured
      exact (standsIn_of_mem_select selected).chars

/-- Two percent signs stand in the text where a doubled one is selected. -/
theorem isPrefix_of_mem_percentsIn {place : Nat} (member : place ∈ percentsIn formats text) :
    ['%', '%'] <+: text.drop place := by
  obtain ⟨occurrence, listed, rfl⟩ := List.mem_map.mp member
  obtain ⟨selected, percent⟩ := List.mem_filter.mp listed
  have stands := (standsIn_of_mem_select selected).chars
  rwa [(source_of_percent selected (of_decide_eq_true percent)).2] at stands

/-- Without a percent format the text is shown as it is. -/
theorem halvePercents_of_not_mem (notPrintf : .printf ∉ formats)
    (notPython : .pythonVar ∉ formats) : halvePercents formats text = text := by
  refine halveAt_of_le fun place member => ?_
  obtain ⟨occurrence, listed, _⟩ := List.mem_map.mp member
  obtain ⟨selected, percent⟩ := List.mem_filter.mp listed
  have reads := (source_of_percent selected (of_decide_eq_true percent)).1
  simp [readsPercent, notPrintf, notPython] at reads

end Places

namespace Extractor

/-- The nodes of an extracted message show the text, with one sign for every doubled percent sign
that is selected in it: its expressions stand for the selected placeholders in order, each for the
characters at its place. Without a percent format the text is shown as it is. The flag tells
whether there is an expression. -/
theorem shows_of_extract {extractor : Extractor} {text : String} {extraction : Extraction}
    (extracted : (extractor.extract text).1 = .ok extraction) :
    Shows extraction.message (placeholdersIn extractor.settings.formats text.toList)
        (halvePercents extractor.settings.formats text.toList) ∧
      (∀ occurrence ∈ placeholdersIn extractor.settings.formats text.toList,
        occurrence.source <+: text.toList.drop occurrence.start) ∧
      (∀ place ∈ percentsIn extractor.settings.formats text.toList,
        ['%', '%'] <+: text.toList.drop place) ∧
      (.printf ∉ extractor.settings.formats → .pythonVar ∉ extractor.settings.formats →
        halvePercents extractor.settings.formats text.toList = text.toList) ∧
      (extraction.used = true ↔ ∃ expression, .expression expression ∈ extraction.message) := by
  have spell := spell_pieces extractor.settings.formats text.toList
  have shows := shows_bindPieces spell extractor.bindings [] true
  rw [eq_of_extract_eq_ok extracted]
  refine ⟨shows, fun _ => isPrefix_of_mem_placeholdersIn, fun _ => isPrefix_of_mem_percentsIn,
    halvePercents_of_not_mem, ?_⟩
  rw [shows.exists_expression_iff]
  exact spell.any_isPlaceholder

/-- A sign at the start, a doubled percent sign next to a placeholder, and adjacent placeholders. -/
theorem shows_adjacent :
    (extract {} "$%%%d\x7bx\x7d").1 = .ok ⟨[.text "\\$\\%",
        .expression ⟨some (.variable "ph0"), some
          ⟨"Placeholder", [⟨"format", .text "printf"⟩, ⟨"type", .text "int"⟩]⟩⟩,
        .expression ⟨some (.variable "x"), some
          ⟨"Placeholder", [⟨"format", .text "bracketVar"⟩, ⟨"name", .text "x"⟩]⟩⟩], true⟩ ∧
      halvePercents Format.all "$%%%d\x7bx\x7d".toList = "$%%d\x7bx\x7d".toList ∧
      Shows [.text "\\$\\%",
          .expression ⟨some (.variable "ph0"), some
            ⟨"Placeholder", [⟨"format", .text "printf"⟩, ⟨"type", .text "int"⟩]⟩⟩,
          .expression ⟨some (.variable "x"), some
            ⟨"Placeholder", [⟨"format", .text "bracketVar"⟩, ⟨"name", .text "x"⟩]⟩⟩]
        (placeholdersIn Format.all "$%%%d\x7bx\x7d".toList)
        (halvePercents Format.all "$%%%d\x7bx\x7d".toList) := by
  have extracted : (extract {} "$%%%d\x7bx\x7d").1 = .ok ⟨[.text "\\$\\%",
      .expression ⟨some (.variable "ph0"), some
        ⟨"Placeholder", [⟨"format", .text "printf"⟩, ⟨"type", .text "int"⟩]⟩⟩,
      .expression ⟨some (.variable "x"), some
        ⟨"Placeholder", [⟨"format", .text "bracketVar"⟩, ⟨"name", .text "x"⟩]⟩⟩], true⟩ := by
    cbv
  exact ⟨extracted, by cbv, (shows_of_extract extracted).1⟩

end Extractor

end Placeholder

end MessageTemplate
