import MessageTemplate.Placeholder.Occurrence

/-! # Where directives stand

What is selected in a text stands there: a pattern matches at its place, so its characters are those
of the text (`MessageTemplate.Placeholder.standsIn_of_mem_select`), and every directive ends before
the next one starts (`MessageTemplate.Placeholder.apart_select`).
-/

namespace MessageTemplate

namespace Placeholder

/-! ### Patterns take characters from the front -/

@[simp] theorem spanIdentifier_append (cs : List Char) :
    (spanIdentifier cs).1 ++ (spanIdentifier cs).2 = cs := by
  unfold spanIdentifier
  split
  · rfl
  · split <;> simp

@[simp] theorem spanLength_append (cs : List Char) :
    (spanLength cs).1 ++ (spanLength cs).2 = cs := by
  unfold spanLength
  split <;> rfl

variable {cs source : List Char}

/-- A position, its dollar sign and what follows make up the characters. -/
theorem spanPosition_append {position rest : List Char}
    (found : spanPosition cs = some (position, rest)) : position ++ '$' :: rest = cs := by
  unfold spanPosition at found
  split at found
  · rename_i first digits rest' spanned
    split at found
    · simp at found
    · cases found
      have joined := spanDigits_append cs
      rwa [spanned] at joined
  · simp at found

/-- The characters of a conversion are those at the front, part by part: the flags, the width, the
precision, the length and the letter. -/
theorem isPrefix_of_conversion {type : ValueType} (found : conversion cs = some (type, source)) :
    source <+: cs := by
  simp only [conversion] at found
  split at found
  · rename_i letter rest afterLength
    obtain ⟨_, _, made⟩ := Option.map_eq_some_iff.mp found
    cases made
    refine ⟨rest, ?_⟩
    -- each part of the conversion is followed by what the next part is taken from
    have length := spanLength_append
      (spanFraction (spanDigits (cs.dropWhile isFlag)).2).2
    rw [afterLength] at length
    simp only [List.append_assoc, List.singleton_append]
    rw [length, spanFraction_append, spanDigits_append, List.takeWhile_append_dropWhile]
  · simp at found

variable {placeholder : Placeholder}

theorem isPrefix_of_pythonVar (found : pythonVar cs = some (placeholder, source)) :
    source <+: cs := by
  unfold pythonVar at found
  split at found
  · rename_i cs
    dsimp only at found
    split at found
    · rename_i letter rest afterName
      obtain ⟨_, _, found⟩ := Option.bind_eq_some_iff.mp found
      obtain ⟨type, _, made⟩ := Option.bind_eq_some_iff.mp found
      cases made
      refine ⟨rest, ?_⟩
      have joined := spanIdentifier_append cs
      rw [afterName] at joined
      simp [joined]
    · simp at found
  · simp at found

theorem isPrefix_of_printf (found : printf cs = some (placeholder, source)) : source <+: cs := by
  unfold printf at found
  split at found
  · split at found
    · rename_i position rest spanned
      obtain ⟨⟨type, taken⟩, converted, made⟩ := Option.map_eq_some_iff.mp found
      cases made
      obtain ⟨behind, joined⟩ := isPrefix_of_conversion converted
      refine ⟨behind, ?_⟩
      rw [← spanPosition_append spanned, ← joined]
      simp
    · obtain ⟨⟨type, taken⟩, converted, made⟩ := Option.map_eq_some_iff.mp found
      cases made
      exact (List.cons_prefix_cons).mpr ⟨rfl, isPrefix_of_conversion converted⟩
  · simp at found

theorem isPrefix_of_bracketVar (found : bracketVar cs = some (placeholder, source)) :
    source <+: cs := by
  unfold bracketVar at found
  split at found
  · rename_i cs
    have closed {name rest : List Char} (joined : name ++ '}' :: rest = cs)
        (made : (if name.isEmpty = true then none
          else some (⟨.bracketVar, String.ofList name, none⟩, '{' :: name ++ ['}'])) =
            some (placeholder, source)) : source <+: '{' :: cs := by
      split at made
      · simp at made
      · cases made
        exact ⟨rest, by simp [← joined]⟩
    dsimp only at found
    split at found
    · rename_i rest afterName
      by_cases none : (spanIdentifier cs).1.isEmpty = true
      · rw [if_pos none] at found afterName
        have joined : (spanDigits cs).1 ++ '}' :: rest = cs := by
          rw [← afterName, spanDigits_append]
        exact closed joined found
      · rw [if_neg none] at found afterName
        have joined : (spanIdentifier cs).1 ++ '}' :: rest = cs := by
          rw [← afterName, spanIdentifier_append]
        exact closed joined found
    · simp at found
  · simp at found

theorem isPrefix_of_emptyBracket (found : emptyBracket cs = some (placeholder, source)) :
    source <+: cs := by
  unfold emptyBracket at found
  split at found
  · cases found
    exact ⟨_, rfl⟩
  · simp at found

/-- The characters of a placeholder are those at the front of the text. Each format has its lemma,
and this one goes through them. -/
theorem isPrefix_of_pattern {format : Format}
    (found : format.pattern cs = some (placeholder, source)) : source <+: cs := by
  cases format with
  | pythonVar => exact isPrefix_of_pythonVar found
  | printf => exact isPrefix_of_printf found
  | bracketVar => exact isPrefix_of_bracketVar found
  | emptyBracket => exact isPrefix_of_emptyBracket found

/-! ### Places -/

/-- A pattern matches wherever it occurs, which is somewhere inside the text. The induction follows
the search. -/
theorem matches_of_mem_occurrencesFrom {α : Type} {pattern : Pattern α} {passed position : Nat}
    {text : List Char} {occurrence : Occurrence α}
    (member : occurrence ∈ occurrencesFrom pattern passed position text) :
    position ≤ occurrence.start ∧ occurrence.start < position + text.length ∧
      pattern (text.drop (occurrence.start - position)) =
        some (occurrence.found, occurrence.source) := by
  have later {position : Nat} {c : Char} {cs : List Char}
      (behind : position + 1 ≤ occurrence.start ∧ occurrence.start < position + 1 + cs.length ∧
        pattern (cs.drop (occurrence.start - (position + 1))) =
          some (occurrence.found, occurrence.source)) :
      position ≤ occurrence.start ∧ occurrence.start < position + (c :: cs).length ∧
        pattern ((c :: cs).drop (occurrence.start - position)) =
          some (occurrence.found, occurrence.source) := by
    obtain ⟨after, inside, matched⟩ := behind
    have distance : occurrence.start - position = occurrence.start - (position + 1) + 1 := by omega
    rw [distance, List.drop_succ_cons, List.length_cons]
    exact ⟨by omega, by omega, matched⟩
  fun_induction occurrencesFrom pattern passed position text with
  | case1 => simp at member
  | case2 passed position c cs ih => exact later (ih member)
  | case3 position c cs found source matched ih =>
      rcases List.mem_cons.mp member with rfl | member
      · simp [matched]
      · exact later (ih member)
  | case4 position c cs _ ih => exact later (ih member)

theorem matches_of_mem_occurrences {α : Type} {pattern : Pattern α} {text : List Char}
    {occurrence : Occurrence α} (member : occurrence ∈ occurrences pattern text) :
    occurrence.start < text.length ∧
      pattern (text.drop occurrence.start) = some (occurrence.found, occurrence.source) := by
  obtain ⟨_, inside, matched⟩ := matches_of_mem_occurrencesFrom member
  rw [Nat.zero_add] at inside
  exact ⟨inside, matched⟩

theorem mem_of_mem_dropOverlaps {α : Type} {position : Nat} {occurrences : List (Occurrence α)}
    {occurrence : Occurrence α} (member : occurrence ∈ dropOverlaps position occurrences) :
    occurrence ∈ occurrences := by
  fun_induction dropOverlaps position occurrences with
  | case1 => exact member
  | case2 position first rest _ ih =>
      rcases List.mem_cons.mp member with rfl | later
      · exact List.mem_cons_self
      · exact List.mem_cons_of_mem _ (ih later)
  | case3 position first rest _ ih => exact List.mem_cons_of_mem _ (ih member)

/-- The occurrence stands in the text that starts at a position: it starts inside the text, and its
characters are the ones there. -/
structure Occurrence.StandsIn {α : Type} (occurrence : Occurrence α) (position : Nat)
    (text : List Char) : Prop where
  inside : occurrence.start < position + text.length
  chars : occurrence.source <+: text.drop (occurrence.start - position)

/-- The text falls into what stands before the occurrence, the occurrence, and the rest. This is the
cut that is made at each occurrence. -/
theorem Occurrence.StandsIn.split {α : Type} {occurrence : Occurrence α} {position : Nat}
    {text : List Char} (stands : occurrence.StandsIn position text)
    (behind : position ≤ occurrence.start) :
    (text.take (occurrence.start - position)).length = occurrence.start - position ∧
      text = text.take (occurrence.start - position) ++
        (occurrence.source ++ text.drop (occurrence.stop - position)) := by
  obtain ⟨inside, rest, chars⟩ := stands
  have distance : occurrence.stop - position =
      occurrence.start - position + occurrence.source.length := by
    rw [stop]
    omega
  refine ⟨List.length_take_of_le (by omega), ?_⟩
  rw [distance, ← List.drop_drop, ← chars, List.drop_left, chars, List.take_append_drop]

/-- What stands behind an occurrence stands in the rest of the text behind it. -/
theorem Occurrence.StandsIn.drop {α : Type} {occurrence first : Occurrence α} {position : Nat}
    {text : List Char} (stands : occurrence.StandsIn position text)
    (behind : position ≤ first.start) (apart : first.stop ≤ occurrence.start) :
    occurrence.StandsIn first.stop (text.drop (first.stop - position)) := by
  obtain ⟨inside, chars⟩ := stands
  have ahead : first.start ≤ first.stop := Nat.le_add_right _ _
  have distance : occurrence.start - position =
      first.stop - position + (occurrence.start - first.stop) := by omega
  constructor
  · rw [List.length_drop]
    omega
  · rwa [List.drop_drop, ← distance]

/-- The occurrences start behind a position, and each ends before the next one starts. A text can be
cut at such occurrences without losing characters. -/
def Apart {α : Type} : Nat → List (Occurrence α) → Prop
  | _, [] => True
  | position, first :: rest => position ≤ first.start ∧ Apart first.stop rest

/-- What is left when overlaps are dropped stands apart. -/
theorem apart_dropOverlaps {α : Type} (position : Nat) (occurrences : List (Occurrence α)) :
    Apart position (dropOverlaps position occurrences) := by
  fun_induction dropOverlaps position occurrences with
  | case1 => trivial
  | case2 position first rest behind ih => exact ⟨behind, ih⟩
  | case3 position first rest _ ih => exact ih

theorem Apart.le_start {α : Type} {position : Nat} {occurrences : List (Occurrence α)}
    (apart : Apart position occurrences) {occurrence : Occurrence α}
    (member : occurrence ∈ occurrences) : position ≤ occurrence.start := by
  induction occurrences generalizing position with
  | nil => simp at member
  | cons first rest ih =>
      obtain ⟨behind, apart⟩ := apart
      rcases List.mem_cons.mp member with rfl | later
      · exact behind
      · have ahead : first.start ≤ first.stop := Nat.le_add_right _ _
        exact Nat.le_trans behind (Nat.le_trans ahead (ih apart later))

section Select

variable {formats : List Format} {text : List Char}

/-- Every directive ends before the next one starts, so the text can be cut at all of them. -/
theorem apart_select (formats : List Format) (text : List Char) : Apart 0 (select formats text) :=
  apart_dropOverlaps 0 _

variable {occurrence : Occurrence Directive}

theorem mem_collect_of_mem_select (member : occurrence ∈ select formats text) :
    occurrence ∈ collect formats text :=
  List.mem_mergeSort.mp (mem_of_mem_dropOverlaps member)

/-- What is found in a text is a doubled percent sign or a placeholder of one of the formats. -/
theorem matches_of_mem_collect (member : occurrence ∈ collect formats text) :
    occurrence.start < text.length ∧
      (readsPercent formats = true ∧ doubledPercent (text.drop occurrence.start) =
          some (occurrence.found, occurrence.source) ∨
        ∃ format ∈ formats, format.directive (text.drop occurrence.start) =
          some (occurrence.found, occurrence.source)) := by
  rw [collect, List.mem_append] at member
  rcases member with percent | inFormat
  · split at percent
    · rename_i reads
      obtain ⟨inside, matched⟩ := matches_of_mem_occurrences percent
      exact ⟨inside, .inl ⟨reads, matched⟩⟩
    · simp at percent
  · obtain ⟨format, listed, found⟩ := List.mem_flatMap.mp inFormat
    obtain ⟨inside, matched⟩ := matches_of_mem_occurrences found
    exact ⟨inside, .inr ⟨format, listed, matched⟩⟩

/-- Two percent signs are found where they stand, whatever follows them. -/
theorem doubledPercent_eq_some_iff {found : Directive} :
    doubledPercent cs = some (found, source) ↔
      found = .percent ∧ source = ['%', '%'] ∧ source <+: cs := by
  unfold doubledPercent
  split
  · rename_i rest
    constructor
    · intro matched
      cases matched
      exact ⟨rfl, rfl, rest, rfl⟩
    · rintro ⟨rfl, rfl, _⟩
      rfl
  · rename_i other
    refine iff_of_false (by simp) ?_
    rintro ⟨_, rfl, rest, rfl⟩
    exact other rest rfl

/-- A format finds as a directive what it finds as a placeholder. -/
theorem directive_eq_some_iff {format : Format} {found : Directive} :
    format.directive cs = some (found, source) ↔
      ∃ placeholder, found = .placeholder placeholder ∧
        format.pattern cs = some (placeholder, source) := by
  simp only [Format.directive, Option.map_eq_some_iff, Prod.exists, Prod.mk.injEq]
  constructor
  · rintro ⟨placeholder, _, matched, rfl, rfl⟩
    exact ⟨placeholder, rfl, matched⟩
  · rintro ⟨placeholder, rfl, matched⟩
    exact ⟨placeholder, source, matched, rfl, rfl⟩

/-- What is selected stands in the text, at its place and with its characters. -/
theorem standsIn_of_mem_select (member : occurrence ∈ select formats text) :
    occurrence.StandsIn 0 text := by
  obtain ⟨inside, matched⟩ := matches_of_mem_collect (mem_collect_of_mem_select member)
  refine ⟨by omega, ?_⟩
  rcases matched with ⟨_, percent⟩ | ⟨format, _, matched⟩
  · exact (doubledPercent_eq_some_iff.mp percent).2.2
  · obtain ⟨_, _, matched⟩ := directive_eq_some_iff.mp matched
    exact isPrefix_of_pattern matched

/-- Doubled percent signs are selected only where a percent format is in use. -/
theorem source_of_percent (member : occurrence ∈ select formats text)
    (percent : occurrence.found = .percent) :
    readsPercent formats = true ∧ occurrence.source = ['%', '%'] := by
  obtain ⟨_, ⟨reads, matched⟩ | ⟨format, _, matched⟩⟩ :=
    matches_of_mem_collect (mem_collect_of_mem_select member)
  · exact ⟨reads, (doubledPercent_eq_some_iff.mp matched).2.1⟩
  · obtain ⟨_, found, _⟩ := directive_eq_some_iff.mp matched
    simp [percent] at found

end Select

end Placeholder

end MessageTemplate
