import MessageTemplate.Proofs.Placeholder.Overlap

/-! # Selecting directives in one pass

To find the directives of each kind on their own, sort them and drop those that overlap comes to
the same as one pass over the text, which takes at each place what matches there and goes on behind
it (`MessageTemplate.Placeholder.select_eq_scanFrom`). So no directive that is dropped hides another
one.

The pass takes a directive or passes over its place inside one that it took. With the same said of
the doubled percent signs found on their own, both find the same doubled percent signs: where they
first differed, one of them would have taken the sign before
(`MessageTemplate.Placeholder.percentAt_mem_of_mem`).
-/

namespace MessageTemplate

namespace Placeholder

/-- What a pass takes at the front of a text: two percent signs where they are read, or else the
match of the first format that has one. Nothing before the place is looked at. -/
def directiveAt (formats : List Format) : Pattern Directive := fun cs =>
  (if readsPercent formats then doubledPercent cs else none).or
    (formats.findSome? (·.directive cs))

/-- One pass over what is left of a text, from a position on: take what matches here and go on
behind it, or else go on at the next character. -/
def scanFrom (formats : List Format) (position : Nat) : List Char → List (Occurrence Directive)
  | [] => []
  | c :: cs =>
    match directiveAt formats (c :: cs) with
    | some (found, source) =>
      ⟨position, source, found⟩ ::
        scanFrom formats (position + source.length) (cs.drop (source.length - 1))
    | none => scanFrom formats (position + 1) cs
termination_by cs => cs.length
decreasing_by
  · rw [List.length_drop, List.length_cons]
    omega
  · exact Nat.lt_succ_self _

/-! ### Occurrences from left to right -/

section Occurrences

variable {α : Type} {pattern : Pattern α} {passed position : Nat} {text : List Char}

/-- Characters that are passed over have no part in what is found behind them. -/
theorem occurrencesFrom_passed (pattern : Pattern α) (passed position : Nat) (text : List Char) :
    occurrencesFrom pattern passed position text =
      occurrencesFrom pattern 0 (position + passed) (text.drop passed) := by
  induction text generalizing passed position with
  | nil => simp [occurrencesFrom]
  | cons c cs ih =>
      cases passed with
      | zero => rfl
      | succ passed =>
          rw [occurrencesFrom, ih, List.drop_succ_cons, Nat.add_assoc, Nat.add_comm 1]

theorem Apart.mono {earlier : Nat} {occurrences : List (Occurrence α)}
    (apart : Apart position occurrences) (before : earlier ≤ position) :
    Apart earlier occurrences := by
  cases occurrences with
  | nil => trivial
  | cons first rest => exact ⟨Nat.le_trans before apart.1, apart.2⟩

/-- The occurrences of one pattern stand apart, since each is passed over before the next is looked
for. -/
theorem apart_occurrencesFrom (pattern : Pattern α) (passed position : Nat) (text : List Char) :
    Apart (position + passed) (occurrencesFrom pattern passed position text) := by
  fun_induction occurrencesFrom pattern passed position text with
  | case1 => trivial
  | case2 passed position c cs ih => exact ih.mono (by omega)
  | case3 position c cs found source matched ih =>
      refine ⟨Nat.le_refl _, ih.mono ?_⟩
      rw [Occurrence.stop]
      simp only
      omega
  | case4 position c cs _ ih => exact ih.mono (by omega)

/-- Where a pattern matches, it is found there, or it is found before and reaches over the place.
The induction follows the search, with the number of passed characters free. -/
theorem mem_or_covered_of_matches {occurrence : Occurrence α}
    (behind : position + passed ≤ occurrence.start)
    (inside : occurrence.start < position + text.length)
    (matched : pattern (text.drop (occurrence.start - position)) =
      some (occurrence.found, occurrence.source)) :
    occurrence ∈ occurrencesFrom pattern passed position text ∨
      ∃ kept ∈ occurrencesFrom pattern passed position text,
        kept.start < occurrence.start ∧ occurrence.start < kept.stop := by
  -- behind the first character the text goes on at the next position
  have next {position : Nat} {c : Char} {cs : List Char} (ahead : position + 1 ≤ occurrence.start)
      (matched : pattern ((c :: cs).drop (occurrence.start - position)) =
        some (occurrence.found, occurrence.source)) :
      pattern (cs.drop (occurrence.start - (position + 1))) =
        some (occurrence.found, occurrence.source) := by
    have distance : occurrence.start - position = occurrence.start - (position + 1) + 1 := by omega
    rwa [distance, List.drop_succ_cons] at matched
  fun_induction occurrencesFrom pattern passed position text with
  | case1 =>
      rw [List.length_nil] at inside
      omega
  | case2 passed position c cs ih =>
      rw [List.length_cons] at inside
      exact ih (by omega) (by omega) (next (by omega) matched)
  | case3 position c cs found source here ih =>
      rw [List.length_cons] at inside
      by_cases first : occurrence.start = position
      · obtain ⟨start, source', found'⟩ := occurrence
        obtain rfl : start = position := first
        rw [Nat.sub_self, List.drop_zero, here, Option.some_inj, Prod.mk.injEq] at matched
        obtain ⟨rfl, rfl⟩ := matched
        exact .inl List.mem_cons_self
      · by_cases reached : occurrence.start < position + source.length
        · exact .inr ⟨_, List.mem_cons_self, by simp only; omega, reached⟩
        · rcases ih (by omega) (by omega) (next (by omega) matched) with
            member | ⟨kept, member, around⟩
          · exact .inl (List.mem_cons_of_mem _ member)
          · exact .inr ⟨kept, List.mem_cons_of_mem _ member, around⟩
  | case4 position c cs none ih =>
      rw [List.length_cons] at inside
      have other : occurrence.start ≠ position := by
        rintro rfl
        simp [none] at matched
      exact ih (by omega) (by omega) (next (by omega) matched)

/-- Where a pattern matches in a text, it is found there, or an occurrence found before reaches over
the place. -/
theorem mem_occurrences_or_covered {occurrence : Occurrence α}
    (inside : occurrence.start < text.length)
    (matched : pattern (text.drop occurrence.start) = some (occurrence.found, occurrence.source)) :
    occurrence ∈ occurrences pattern text ∨
      ∃ kept ∈ occurrences pattern text,
        kept.start < occurrence.start ∧ occurrence.start < kept.stop := by
  rw [← Nat.zero_add text.length] at inside
  exact mem_or_covered_of_matches (Nat.zero_le _) inside matched

/-- Two occurrences of a list whose members stand apart are the same, or one ends before the other
starts. -/
theorem Apart.eq_or_le {occurrences : List (Occurrence α)} (apart : Apart position occurrences)
    {first second : Occurrence α} (member : first ∈ occurrences) (member' : second ∈ occurrences) :
    first = second ∨ first.stop ≤ second.start ∨ second.stop ≤ first.start := by
  induction occurrences generalizing position with
  | nil => simp at member
  | cons head rest ih =>
      obtain ⟨_, apart⟩ := apart
      rcases List.mem_cons.mp member with rfl | listed
      · rcases List.mem_cons.mp member' with rfl | listed'
        · exact .inl rfl
        · exact .inr (.inl (apart.le_start listed'))
      · rcases List.mem_cons.mp member' with rfl | listed'
        · exact .inr (.inr (apart.le_start listed))
        · exact ih apart listed listed'

/-- Of the occurrences found from a position on, those that are kept stand apart, and every other
one starts inside one of them. Such a choice is unique, so two ways to make it agree. -/
structure Keeps (position : Nat) (found kept : List (Occurrence α)) : Prop where
  apart : Apart position kept
  long : ∀ occurrence ∈ kept, occurrence.start < occurrence.stop
  among : ∀ occurrence ∈ kept, occurrence ∈ found
  covered : ∀ occurrence ∈ found, position ≤ occurrence.start → occurrence ∈ kept ∨
    ∃ other ∈ kept, other.start < occurrence.start ∧ occurrence.start < other.stop

section Keeps

variable {first : Occurrence α} {found kept : List (Occurrence α)}
  (keeps : Keeps position (first :: found) kept)

include keeps

theorem Keeps.of_lt (passed : first.start < position) : Keeps position found kept where
  apart := keeps.apart
  long := keeps.long
  among occurrence member := by
    refine (List.mem_cons.mp (keeps.among occurrence member)).resolve_left ?_
    rintro rfl
    have := keeps.apart.le_start member
    omega
  covered occurrence member := keeps.covered occurrence (List.mem_cons_of_mem _ member)

/-- What starts first is kept, and the others are kept from its end on. Nothing that is kept could
reach over it. -/
theorem Keeps.of_le (ahead : position ≤ first.start)
    (least : ∀ occurrence ∈ found, first.start ≤ occurrence.start) :
    ∃ rest, kept = first :: rest ∧ Keeps first.stop found rest := by
  have notBefore {occurrence : Occurrence α} (member : occurrence ∈ kept) :
      first.start ≤ occurrence.start := by
    rcases List.mem_cons.mp (keeps.among occurrence member) with rfl | later
    · exact Nat.le_refl _
    · exact least occurrence later
  have firstKept : first ∈ kept := by
    rcases keeps.covered first List.mem_cons_self ahead with member | ⟨other, member, before, _⟩
    · exact member
    · exact absurd (notBefore member) (Nat.not_le_of_lt before)
  obtain ⟨head, rest, rfl⟩ := List.exists_cons_of_ne_nil (List.ne_nil_of_mem firstKept)
  obtain ⟨⟨_, apart⟩, long, among, covered⟩ := keeps
  rw [List.forall_mem_cons] at long
  -- the head of what is kept does not start behind the first one found, which is among the kept
  have same : head = first := by
    rcases List.mem_cons.mp firstKept with same | inside
    · exact same.symm
    · have := apart.le_start inside
      have := notBefore List.mem_cons_self
      omega
  subst same
  refine ⟨rest, rfl, apart, long.2, fun occurrence member => ?_, fun occurrence member behind => ?_⟩
  · refine (List.mem_cons.mp (among occurrence (List.mem_cons_of_mem _ member))).resolve_left ?_
    rintro rfl
    have := apart.le_start member
    omega
  · have later : head.start < occurrence.start := by omega
    rcases covered occurrence (List.mem_cons_of_mem _ member) (by omega) with
      listed | ⟨other, listed, before, inside⟩
    · refine .inl ((List.mem_cons.mp listed).resolve_left ?_)
      rintro rfl
      exact Nat.lt_irrefl _ later
    · refine .inr ⟨other, (List.mem_cons.mp listed).resolve_left ?_, before, inside⟩
      rintro rfl
      omega

end Keeps

/-- Dropping overlaps from occurrences in order leaves those that stand apart and reach over all
others. The induction is on the occurrences found, with the position and those kept free. -/
theorem dropOverlaps_eq {found kept : List (Occurrence α)}
    (sorted : found.Pairwise fun left right => left.start ≤ right.start)
    (keeps : Keeps position found kept) : dropOverlaps position found = kept := by
  induction found generalizing position kept with
  | nil =>
      exact (List.eq_nil_iff_forall_not_mem.mpr fun occurrence member =>
        List.not_mem_nil (keeps.among occurrence member)).symm
  | cons first found ih =>
      obtain ⟨least, ordered⟩ := List.pairwise_cons.mp sorted
      rw [dropOverlaps]
      split
      · rename_i ahead
        obtain ⟨rest, rfl, later⟩ := keeps.of_le ahead least
        exact congrArg (first :: ·) (ih ordered later)
      · rename_i passed
        exact ih ordered (keeps.of_lt (Nat.lt_of_not_le passed))

end Occurrences

/-! ### What a pass takes -/

section Pass

variable {formats : List Format} {cs source text : List Char} {found : Directive}

/-- A pass takes all that matches: at a place there is no choice, so the order in which formats are
tried has no part in it. -/
theorem directiveAt_eq_some_iff :
    directiveAt formats cs = some (found, source) ↔
      readsPercent formats = true ∧ doubledPercent cs = some (found, source) ∨
        ∃ format ∈ formats, format.directive cs = some (found, source) := by
  constructor
  · intro matched
    rcases Option.or_eq_some_iff.mp matched with percent | ⟨_, inFormat⟩
    · split at percent
      · exact .inl ⟨‹_›, percent⟩
      · simp at percent
    · exact .inr (List.exists_of_findSome?_eq_some inFormat)
  · rintro (⟨reads, percent⟩ | ⟨format, listed, matched⟩)
    · rw [directiveAt, if_pos reads, percent]
      rfl
    · have notDoubled : doubledPercent cs = none := by
        by_contra doubled
        obtain ⟨⟨found', source'⟩, percent⟩ := Option.ne_none_iff_exists'.mp doubled
        simp [directive_eq_none_of_doubledPercent percent] at matched
      have taken : formats.findSome? (·.directive cs) = some (found, source) := by
        cases first : formats.findSome? (·.directive cs) with
        | none => simp [List.findSome?_eq_none_iff.mp first format listed] at matched
        | some result =>
            obtain ⟨other, _, matched'⟩ := List.exists_of_findSome?_eq_some first
            rw [format_eq_of_directive matched matched', matched'] at matched
            exact matched
      rw [directiveAt, notDoubled, ite_self, Option.none_or, taken]

theorem shape_of_directiveAt (matched : directiveAt formats cs = some (found, source)) :
    found.Shape source := by
  rcases directiveAt_eq_some_iff.mp matched with ⟨_, percent⟩ | ⟨format, _, matched⟩
  · exact shape_of_doubledPercent percent
  · exact shape_of_directive matched

/-- A pass is the search for one pattern: the one that takes whatever directive matches. All that is
known about searches then holds of passes. -/
theorem scanFrom_eq_occurrencesFrom (formats : List Format) (position : Nat) (text : List Char) :
    scanFrom formats position text = occurrencesFrom (directiveAt formats) 0 position text := by
  fun_induction scanFrom formats position text with
  | case1 => rfl
  | case2 position c cs found source matched ih =>
      obtain ⟨sign, inner, rfl, _⟩ := (shape_of_directiveAt matched).exists_sign
      rw [occurrencesFrom, matched]
      simp only
      rw [occurrencesFrom_passed, ih]
      simp only [List.length_cons, Nat.add_sub_cancel, Nat.add_assoc, Nat.add_comm 1]
  | case3 position c cs none ih =>
      rw [occurrencesFrom, none, ih]

theorem matches_of_mem_scanFrom {occurrence : Occurrence Directive}
    (member : occurrence ∈ scanFrom formats 0 text) :
    occurrence.start < text.length ∧ directiveAt formats (text.drop occurrence.start) =
      some (occurrence.found, occurrence.source) := by
  rw [scanFrom_eq_occurrencesFrom] at member
  exact matches_of_mem_occurrences member

/-- What is found in the text matches at its place, so a pass that comes to the place takes it. -/
theorem directiveAt_of_mem_collect {occurrence : Occurrence Directive}
    (member : occurrence ∈ collect formats text) :
    occurrence.start < text.length ∧ directiveAt formats (text.drop occurrence.start) =
      some (occurrence.found, occurrence.source) := by
  obtain ⟨inside, matched⟩ := matches_of_mem_collect member
  exact ⟨inside, directiveAt_eq_some_iff.mpr matched⟩

theorem isPrefix_of_directiveAt (matched : directiveAt formats cs = some (found, source)) :
    source <+: cs := by
  rcases directiveAt_eq_some_iff.mp matched with ⟨_, percent⟩ | ⟨format, _, matched⟩
  · exact (doubledPercent_eq_some_iff.mp percent).2.2
  · obtain ⟨_, _, captured⟩ := directive_eq_some_iff.mp matched
    exact isPrefix_of_pattern captured

end Pass

/-! ### Doubled percent signs -/

/-- Among directives that stand apart, every place of two percent signs is taken by them, or the
second sign before it is. -/
structure TakesPercents (text : List Char) (occurrences : List (Occurrence Directive)) : Prop where
  apart : Apart 0 occurrences
  taken : ∀ place, ['%', '%'] <+: text.drop place → percentAt place ∈ occurrences ∨
    ∃ earlier, earlier + 1 = place ∧ percentAt earlier ∈ occurrences
  doubled : ∀ place, percentAt place ∈ occurrences → ['%', '%'] <+: text.drop place

/-- Two such lists have the same doubled percent signs: the first one that only one of them had
would stand at the second sign of one that only the other has. -/
theorem percentAt_mem_of_mem {text : List Char} {occurrences others : List (Occurrence Directive)}
    (takes : TakesPercents text occurrences) (takes' : TakesPercents text others) {place : Nat}
    (member : percentAt place ∈ occurrences) : percentAt place ∈ others := by
  induction place generalizing occurrences others with
  | zero =>
      rcases takes'.taken 0 (takes.doubled 0 member) with found | ⟨earlier, before, _⟩
      · exact found
      · omega
  | succ place ih =>
      rcases takes'.taken (place + 1) (takes.doubled _ member) with found | ⟨earlier, before, found⟩
      · exact found
      · obtain rfl : earlier = place := by omega
        -- the sign before would be taken twice among the occurrences
        have clash := takes.apart.eq_or_le (ih takes' takes found) member
        simp only [percentAt, Occurrence.stop, Occurrence.mk.injEq, List.length_cons,
          List.length_nil] at clash
        omega

theorem doubledPercent_of_isPrefix {cs : List Char} (stands : ['%', '%'] <+: cs) :
    doubledPercent cs = some (.percent, ['%', '%']) :=
  doubledPercent_eq_some_iff.mpr ⟨rfl, rfl, stands⟩

theorem Directive.Shape.exists_getElem? {found : Directive} {source text : List Char} {place : Nat}
    (shape : found.Shape source) (stands : source <+: text.drop place) :
    ∃ sign, isDirectiveSign sign = true ∧ text[place]? = some sign := by
  obtain ⟨sign, inner, rfl, signed⟩ := shape.exists_sign
  obtain ⟨rest, same⟩ := stands
  refine ⟨sign, signed, ?_⟩
  rw [← Nat.add_zero place, ← List.getElem?_drop, ← same]
  rfl

section Occurrences

variable {pattern : Pattern Directive} {text : List Char} {occurrence : Occurrence Directive}
  (shape : ∀ {cs found source}, pattern cs = some (found, source) →
    found.Shape source ∧ source <+: cs)

include shape

/-- Where a pattern of directives matches, it is found, or the place is that of the second sign of
a doubled percent sign that is found. -/
theorem mem_or_percentAt_mem (matched : pattern (text.drop occurrence.start) =
      some (occurrence.found, occurrence.source)) :
    occurrence ∈ occurrences pattern text ∨
      ∃ earlier, earlier + 1 = occurrence.start ∧ percentAt earlier ∈ occurrences pattern text := by
  obtain ⟨shaped, front⟩ := shape matched
  obtain ⟨sign, signed, here⟩ := shaped.exists_getElem? front
  obtain ⟨inside, _⟩ := List.getElem?_eq_some_iff.mp here
  rcases mem_occurrences_or_covered inside matched with member | ⟨kept, member, before, around⟩
  · exact .inl member
  · obtain ⟨shaped, front⟩ := shape (matches_of_mem_occurrences member).2
    obtain ⟨same, behind⟩ := shaped.covered front signed here before around
    exact .inr ⟨kept.start, behind.symm, same ▸ member⟩

/-- A pattern of directives that matches at every doubled percent sign takes them all. Both the pass
and the search for doubled percent signs alone are such patterns. -/
theorem takesPercents_occurrences
    (percent : ∀ {cs}, ['%', '%'] <+: cs → pattern cs = some (.percent, ['%', '%'])) :
    TakesPercents text (occurrences pattern text) where
  apart := apart_occurrencesFrom pattern 0 0 text
  taken _ stands := mem_or_percentAt_mem shape (percent stands)
  doubled _ member := (shape (matches_of_mem_occurrences member).2).2

end Occurrences

/-! ### The pass and the selection -/

section Selection

variable {formats : List Format} {text : List Char} {occurrence : Occurrence Directive}

theorem scanFrom_eq_occurrences (formats : List Format) (text : List Char) :
    scanFrom formats 0 text = occurrences (directiveAt formats) text :=
  scanFrom_eq_occurrencesFrom formats 0 text

/-- The two facts about a directive that overlaps are judged by: its spelling, and that it stands in
the text. -/
theorem shape_and_isPrefix_of_directiveAt {cs source : List Char} {found : Directive}
    (matched : directiveAt formats cs = some (found, source)) :
    found.Shape source ∧ source <+: cs :=
  ⟨shape_of_directiveAt matched, isPrefix_of_directiveAt matched⟩

theorem takesPercents_scanFrom (reads : readsPercent formats = true) (text : List Char) :
    TakesPercents text (scanFrom formats 0 text) := by
  rw [scanFrom_eq_occurrences]
  exact takesPercents_occurrences shape_and_isPrefix_of_directiveAt fun stands =>
    directiveAt_eq_some_iff.mpr (.inl ⟨reads, doubledPercent_of_isPrefix stands⟩)

theorem takesPercents_doubledPercent (text : List Char) :
    TakesPercents text (occurrences doubledPercent text) :=
  takesPercents_occurrences
    (fun matched => ⟨shape_of_doubledPercent matched, (doubledPercent_eq_some_iff.mp matched).2.2⟩)
    doubledPercent_of_isPrefix

/-- Where doubled percent signs are read, a pass takes those that are found on their own. The
placeholders around them make no difference. -/
theorem percentAt_mem_iff {place : Nat} (reads : readsPercent formats = true) :
    percentAt place ∈ scanFrom formats 0 text ↔ percentAt place ∈ occurrences doubledPercent text :=
  ⟨percentAt_mem_of_mem (takesPercents_scanFrom reads text) (takesPercents_doubledPercent text),
    percentAt_mem_of_mem (takesPercents_doubledPercent text) (takesPercents_scanFrom reads text)⟩

/-- The matches of one format are all found: none of them is a doubled percent sign, so none of
them reaches over another. -/
theorem mem_occurrences_directive {format : Format}
    (matched : format.directive (text.drop occurrence.start) =
      some (occurrence.found, occurrence.source)) :
    occurrence ∈ occurrences format.directive text := by
  have shape {cs source : List Char} {found : Directive}
      (matched : format.directive cs = some (found, source)) :
      found.Shape source ∧ source <+: cs := by
    obtain ⟨_, _, captured⟩ := directive_eq_some_iff.mp matched
    exact ⟨shape_of_directive matched, isPrefix_of_pattern captured⟩
  refine (mem_or_percentAt_mem shape matched).resolve_right ?_
  rintro ⟨earlier, _, member⟩
  obtain ⟨_, placeholder, _⟩ := directive_eq_some_iff.mp (matches_of_mem_occurrences member).2
  simp [percentAt] at placeholder

theorem mem_collect_of_mem_scanFrom (member : occurrence ∈ scanFrom formats 0 text) :
    occurrence ∈ collect formats text := by
  obtain ⟨_, matched⟩ := matches_of_mem_scanFrom member
  rw [collect, List.mem_append]
  rcases directiveAt_eq_some_iff.mp matched with ⟨reads, percent⟩ | ⟨format, listed, matched⟩
  · obtain ⟨found, source, _⟩ := doubledPercent_eq_some_iff.mp percent
    have same : occurrence = percentAt occurrence.start := by
      obtain ⟨_, _, _⟩ := occurrence
      rw [percentAt, Occurrence.mk.injEq]
      exact ⟨rfl, source, found⟩
    rw [same] at member ⊢
    rw [if_pos reads]
    exact .inl ((percentAt_mem_iff reads).mp member)
  · exact .inr (List.mem_flatMap.mpr ⟨format, listed, mem_occurrences_directive matched⟩)

/-- What a pass takes stands apart, is found, and reaches over all else that is found. The last part
needs that doubled percent signs are the only directives that can hide another one. -/
theorem keeps_scanFrom (formats : List Format) (text : List Char) :
    Keeps 0 (collect formats text) (scanFrom formats 0 text) where
  apart := scanFrom_eq_occurrences formats text ▸ apart_occurrencesFrom _ 0 0 text
  long occurrence member := by
    obtain ⟨sign, inner, spelled, _⟩ :=
      (shape_of_directiveAt (matches_of_mem_scanFrom member).2).exists_sign
    rw [Occurrence.stop, spelled, List.length_cons]
    omega
  among _ := mem_collect_of_mem_scanFrom
  covered occurrence member _ := by
    obtain ⟨inside, matched⟩ := directiveAt_of_mem_collect member
    rw [scanFrom_eq_occurrences]
    exact mem_occurrences_or_covered inside matched

/-- The order in which occurrences were found has no part in which of them are kept. So they may be
sorted first. -/
theorem Keeps.perm {position : Nat} {found found' kept : List (Occurrence Directive)}
    (keeps : Keeps position found kept) (perm : found.Perm found') :
    Keeps position found' kept where
  apart := keeps.apart
  long := keeps.long
  among occurrence member := perm.mem_iff.mp (keeps.among occurrence member)
  covered occurrence member := keeps.covered occurrence (perm.mem_iff.mpr member)

/-- Whatever the formats and the text, what is selected is what one pass over the text takes. Both
are the choice that keeps what stands apart. -/
theorem select_eq_scanFrom (formats : List Format) (text : List Char) :
    select formats text = scanFrom formats 0 text := by
  let before (left right : Occurrence Directive) : Bool := left.start ≤ right.start
  have sorted : ((collect formats text).mergeSort before).Pairwise (before · ·) := by
    refine List.pairwise_mergeSort (fun _ _ _ => ?_) (fun left right => ?_) _
    · simpa [before] using Nat.le_trans
    · simpa [before] using Nat.le_total left.start right.start
  exact dropOverlaps_eq (sorted.imp of_decide_eq_true)
    ((keeps_scanFrom formats text).perm (List.mergeSort_perm _ _).symm)

end Selection

end Placeholder

end MessageTemplate
