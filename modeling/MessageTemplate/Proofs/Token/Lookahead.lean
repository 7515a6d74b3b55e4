import MessageTemplate.Proofs.Token.Segment

/-! # What a token shows of the characters behind it

To read a token the lexer looks at what follows: at the next character, and behind a number at the
digit after a point. So the characters behind a token can be changed, as long as the next one
stays or a blank or the end stands in its place
(`MessageTemplate.Context.Spells.of_looksAlike`). The ogham space mark is the blank that does not
end a name, and a point never comes next outside a pattern.

What a context yields is the sequence of terminals of all characters up to the end
(`MessageTemplate.Context.Yields`). It is the segmentation of a template without its segments
(`MessageTemplate.Message.parse_eq_ok_iff_yields`).
-/

namespace MessageTemplate

/-- Looking one character ahead, the second sequence cannot be told from the first: it starts with
the same character, or both start with a blank or end. -/
inductive LooksAlike : List Char → List Char → Prop
  | same {c : Char} {rest rest' : List Char} : LooksAlike (c :: rest) (c :: rest')
  | blank {rest rest' : List Char} (blank : ∀ c ∈ rest.head?, isBlank c = true)
      (blank' : ∀ c ∈ rest'.head?, isBlank c = true ∧ c ≠ oghamSpace) : LooksAlike rest rest'

namespace LooksAlike

variable {rest rest' front : List Char}

theorem append_left (nonempty : front ≠ []) : LooksAlike (front ++ rest) (front ++ rest') := by
  obtain ⟨c, cs, rfl⟩ := List.exists_cons_of_ne_nil nonempty
  exact .same

/-- A run that the first sequence ends is ended by the second, if no blank but the ogham space mark
is of the kind. -/
theorem endsRun (alike : LooksAlike rest rest') {kind : Char → Bool}
    (ends : EndsRun kind rest)
    (plain : ∀ c, isBlank c = true → c ≠ oghamSpace → kind c = false) : EndsRun kind rest' := by
  cases alike with
  | same => exact endsRun_cons.mpr (endsRun_cons.mp ends)
  | blank _ blank' => exact fun c next => plain c (blank' c next).1 (blank' c next).2

/-- Where the first sequence ends a name, the second one does. This is why the ogham space mark may
not stand in the place of another blank. -/
theorem endsRun_isNameChar (alike : LooksAlike rest rest') (ends : EndsRun isNameChar rest) :
    EndsRun isNameChar rest' := by
  refine alike.endsRun ends fun c blank other => ?_
  rw [Bool.eq_false_iff]
  exact fun name => other (isNameChar_and_isBlank_iff.mp ⟨name, blank⟩)

theorem endsRun_isDigit (alike : LooksAlike rest rest') (ends : EndsRun Char.isDigit rest) :
    EndsRun Char.isDigit rest' := by
  refine alike.endsRun ends fun c blank other => ?_
  rw [Bool.eq_false_iff]
  exact fun digit => other (isNameChar_and_isBlank_iff.mp ⟨isNameChar_of_isDigit digit, blank⟩)

/-- Where no point follows in the first sequence, none follows in the second. A point is no blank,
so it would have to be the same character in both. -/
theorem endsRun_point (alike : LooksAlike rest rest') (ends : EndsRun (· = '.') rest) :
    EndsRun (· = '.') rest' :=
  alike.endsRun ends fun _ blank _ => decide_eq_false (ne_of_kind blank (by decide))

/-- Both or neither start like an expression, so a brace in front of them opens the same thing. -/
theorem isExpressionSign_eq (alike : LooksAlike rest rest') :
    rest.head?.any isExpressionSign = rest'.head?.any isExpressionSign := by
  have unsigned {chars : List Char} (blank : ∀ c ∈ chars.head?, isBlank c = true) :
      chars.head?.any isExpressionSign = false := by
    cases chars with
    | nil => rfl
    | cons c cs =>
        have other := @forall_ne_of_kind isBlank c ['$', ':', '|'] (blank c rfl) (by decide)
        simpa [isExpressionSign, and_assoc] using other
  cases alike with
  | same => rfl
  | blank blank blank' => rw [unsigned blank, unsigned fun c next => (blank' c next).1]

end LooksAlike

namespace Context

variable {context next : Context} {gap spelling rest rest' : List Char} {terminal : Terminal}

/-- What spells a terminal spells it in front of everything that looks alike. Only a number looks at
two characters, a point and the digit behind it, so outside a pattern no point may follow. -/
theorem Spells.of_looksAlike (spells : context.Spells spelling rest terminal next)
    (alike : LooksAlike rest rest') (noPoint : next.region ≠ .pattern → EndsRun (· = '.') rest) :
    context.Spells spelling rest' terminal next := by
  cases spells with
  | @openOutside mode =>
      rw [show opened mode rest = opened mode rest' by
        simp only [opened, alike.isExpressionSign_eq]]
      exact .openOutside
  | openInside => exact .openInside
  | closePattern => exact .closePattern
  | closeExpression inside => exact .closeExpression inside
  | text nonempty hidden stopped =>
      cases alike with
      | same => exact .text nonempty hidden stopped
      | blank blank _ =>
          have other := @forall_ne_of_kind isBlank _ ['{', '}'] (blank _ rfl) (by decide)
          rw [isBrace, Bool.or_eq_true, decide_eq_true_eq, decide_eq_true_eq] at stopped
          rcases stopped with rfl | rfl <;> simp at other
  | matchWord ends => exact .matchWord (alike.endsRun_isNameChar ends)
  | whenWord ends => exact .whenWord (alike.endsRun_isNameChar ends)
  | catchAll => exact .catchAll
  | bareKey shape ends notMatch notWhen =>
      exact .bareKey shape (alike.endsRun_isNameChar ends) notMatch notWhen
  | number literals start taken =>
      obtain ⟨sign, whole, fraction, split, parts, noDigit⟩ := exists_parts_of_startsNumber start
      rw [taken] at split noDigit
      have outside : context.region ≠ .pattern := by
        rintro pattern
        obtain ⟨region, mode⟩ := context
        subst pattern
        simp [readsLiterals, isExpression] at literals
      obtain ⟨taken', start'⟩ := parts.spanNumber_append (alike.endsRun_isDigit noDigit)
        (alike.endsRun_point (noPoint outside))
      rw [← show spelling = _ from split] at taken' start'
      exact .number literals start' taken'
  | quoted literals hidden => exact .quoted literals hidden
  | signed inside signs shape ends =>
      exact .signed inside signs shape (alike.endsRun_isNameChar ends)
  | option inside shape nameEnds blank blank' gapEnds valueShape ends =>
      exact .option inside shape nameEnds blank blank' gapEnds valueShape
        (alike.endsRun_isNameChar ends)

/-- Outside a pattern no token starts with a point. Together with `Yields.noPoint` this discharges
the condition on numbers wherever tokens are moved apart. -/
theorem Spells.noPoint (spells : context.Spells spelling rest terminal next)
    (outside : context.region ≠ .pattern) : EndsRun (· = '.') spelling := by
  have name {name : List Char} (shape : isNameChars name = true) : EndsRun (· = '.') name := by
    obtain ⟨c, cs, rfl, start⟩ := exists_cons_of_isNameChars shape
    exact endsRun_cons.mpr (decide_eq_false (ne_of_kind start (by decide)))
  cases spells with
  | text => exact absurd rfl outside
  | bareKey shape => exact name shape
  | number _ start taken =>
      have nonempty := spanNumber_ne_nil start
      rw [taken] at nonempty
      obtain ⟨c, cs, rfl⟩ := List.exists_cons_of_ne_nil nonempty
      obtain ⟨d, _, same, first⟩ := exists_cons_of_startsNumber start
      obtain ⟨rfl, _⟩ := List.cons.inj same
      rw [endsRun_cons, decide_eq_false_iff_not]
      rintro rfl
      simp at first
  | signed _ signs =>
      rw [endsRun_cons, decide_eq_false_iff_not]
      rintro rfl
      simp [signTerminal?] at signs
  | option _ shape =>
      rw [List.append_assoc, List.append_assoc, endsRun_append (isNameChars_ne_nil shape)]
      exact name shape
  | _ => simp [MessageTemplate.matchWord, MessageTemplate.whenWord]

/-- In a context, characters up to the end yield terminals and lead to a last mode outside all
braces. Every tail of a template that can be read from there does so in one way. -/
inductive Yields : Context → List Char → List Terminal → Mode → Prop
  | blank {mode : Mode} {chars : List Char} (blank : ∀ c ∈ chars, isBlank c = true) :
      Yields ⟨.outside, mode⟩ chars [] mode
  | cons {context next : Context} {gap spelling rest : List Char} {terminal : Terminal}
      {terminals : List Terminal} {last : Mode} (skips : context.Skips gap spelling)
      (spells : context.Spells spelling rest terminal next)
      (yields : Yields next rest terminals last) :
      Yields context (gap ++ spelling ++ rest) (terminal :: terminals) last

namespace Yields

variable {chars back : List Char} {terminals others : List Terminal} {mode last : Mode}

/-- The first terminal is spelled behind a gap, and the others are yielded behind it. -/
theorem uncons (yields : context.Yields chars (terminal :: terminals) last) :
    ∃ gap spelling rest next, chars = gap ++ spelling ++ rest ∧ context.Skips gap spelling ∧
      context.Spells spelling rest terminal next ∧ Yields next rest terminals last := by
  cases yields with
  | cons skips spells yields => exact ⟨_, _, _, _, rfl, skips, spells, yields⟩

/-- Outside a pattern no point comes next. -/
theorem noPoint (yields : context.Yields chars terminals last)
    (outside : context.region ≠ .pattern) : EndsRun (· = '.') chars := by
  have plain {gap : List Char} (blank : ∀ c ∈ gap, isBlank c = true) : EndsRun (· = '.') gap :=
    fun c next => decide_eq_false (ne_of_kind (blank c (List.mem_of_mem_head? next)) (by decide))
  cases yields with
  | blank blank => exact plain blank
  | @cons _ _ gap _ _ _ _ _ skips spells _ =>
      rw [skips_iff outside] at skips
      cases gap with
      | nil => exact (endsRun_append spells.ne_nil).mpr (spells.noPoint outside)
      | cons c cs =>
          rw [List.append_assoc, endsRun_append (by simp)]
          exact plain skips.1

/-- Outside all braces blanks may stand before what is yielded, since they are skipped there or
stand at the end. -/
theorem append_blank (yields : Yields ⟨.outside, mode⟩ chars terminals last)
    (blank : ∀ c ∈ gap, isBlank c = true) :
    Yields ⟨.outside, mode⟩ (gap ++ chars) terminals last := by
  cases yields with
  | blank blank' => exact .blank (List.forall_mem_append.mpr ⟨blank, blank'⟩)
  | cons skips spells yields =>
      rw [skips_iff (by simp)] at skips
      rw [← List.append_assoc, ← List.append_assoc]
      refine .cons ((skips_iff (by simp)).mpr ⟨?_, skips.2⟩) spells yields
      exact List.forall_mem_append.mpr ⟨blank, skips.1⟩

/-- What two sequences of characters yield one after the other, both together yield. The blank
between them keeps the last token of the first from growing into the second. -/
theorem append (front : context.Yields chars terminals mode)
    (ends : ∀ c ∈ back.head?, isBlank c = true ∧ c ≠ oghamSpace)
    (yields : Yields ⟨.outside, mode⟩ back others last) :
    context.Yields (chars ++ back) (terminals ++ others) last := by
  induction front with
  | blank blank => exact yields.append_blank blank
  | @cons _ _ gap spelling rest _ _ _ skips spells tail ih =>
      have alike : LooksAlike rest (rest ++ back) := by
        cases rest with
        | nil => exact .blank (by simp) ends
        | cons c cs => exact .same
      rw [List.append_assoc]
      exact .cons skips (spells.of_looksAlike alike tail.noPoint) (ih yields)

end Yields

end Context

/-- Segments in front of characters yield their terminals in front of what these yield. It turns a
segmentation into a sequence that can be changed at one place. -/
theorem Lexes.yields {context next : Context} {segments : List Segment} {rest : List Char}
    {terminals : List Terminal} {last : Mode} (lexes : Lexes context segments rest next)
    (yields : next.Yields rest terminals last) :
    context.Yields (source segments ++ rest) (segments.map Segment.terminal ++ terminals) last := by
  induction lexes with
  | nil => exact yields
  | cons reads _ ih =>
      rw [source_cons, List.append_assoc]
      exact .cons reads.skips reads.spells (ih yields)

/-- What characters yield is read from segments of them, with blanks behind the last. -/
theorem Context.Yields.exists_lexes {context : Context} {chars : List Char}
    {terminals : List Terminal} {mode : Mode} (yields : context.Yields chars terminals mode) :
    ∃ segments gap, chars = source segments ++ gap ∧ (∀ c ∈ gap, isBlank c = true) ∧
      Lexes context segments gap ⟨.outside, mode⟩ ∧ segments.map Segment.terminal = terminals := by
  induction yields with
  | @blank _ chars blank => exact ⟨[], chars, rfl, blank, .nil, rfl⟩
  | @cons _ _ gap spelling _ terminal _ _ skips spells _ ih =>
      obtain ⟨segments, behind, rfl, blank, lexes, rfl⟩ := ih
      exact ⟨⟨gap, spelling, terminal⟩ :: segments, behind, by simp, blank,
        .cons ⟨skips, spells⟩ lexes, rfl⟩

end MessageTemplate
