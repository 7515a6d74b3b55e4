import MessageTemplate.Proofs.Token.Spelling

/-! # The segments of a template

A template falls into segments: the blanks that are skipped, the characters of one token, and the
terminal that they spell. Segments chain through the contexts of the lexer
(`MessageTemplate.Lexes`), there is only one way to cut a template (`MessageTemplate.Lexes.split`),
and the tokens of a template are the terminals of its segments
(`MessageTemplate.Token.tokenize_of_segmented`, `MessageTemplate.Token.segmented_of_tokenize`).
-/

namespace MessageTemplate

/-- The characters of one token with the blanks before it, and the terminal they spell. A segment is
a tile without its place. -/
structure Segment where
  gap : List Char
  spelling : List Char
  terminal : Terminal
  deriving DecidableEq, Repr

/-- The characters of a segment, in the order in which they stand in the template. -/
def Segment.chars (segment : Segment) : List Char := segment.gap ++ segment.spelling

/-- The characters of a list of segments. -/
def source (segments : List Segment) : List Char := segments.flatMap Segment.chars

@[simp] theorem source_nil : source [] = [] := rfl

@[simp] theorem source_cons (segment : Segment) (segments : List Segment) :
    source (segment :: segments) = segment.gap ++ segment.spelling ++ source segments := rfl

@[simp] theorem source_append (front back : List Segment) :
    source (front ++ back) = source front ++ source back := List.flatMap_append

theorem Lexeme.kind_ne_eof {lexeme : Lexeme} (notLast : lexeme.terminal.isLast = false) :
    lexeme.kind ≠ .eof := by
  intro final
  rw [terminal, final] at notLast
  simp [Terminal.ofKind, Terminal.isLast] at notLast

namespace Context

variable {context next : Context} {segment : Segment} {rest : List Char}

/-- The gap is all that the context skips in front of the spelling: a run of blanks that the
spelling does not go on with, and nothing at all in a pattern. -/
def Skips (context : Context) (gap spelling : List Char) : Prop :=
  if context.region = .pattern then gap = []
  else (∀ c ∈ gap, isBlank c = true) ∧ EndsRun isBlank spelling

/-- Outside a pattern a gap consists of blanks, and the spelling behind it does not start with
one. -/
theorem skips_iff {gap spelling : List Char} (outside : context.region ≠ .pattern) :
    context.Skips gap spelling ↔ (∀ c ∈ gap, isBlank c = true) ∧ EndsRun isBlank spelling := by
  rw [Skips, if_neg outside]

theorem Skips.eq_nil {gap spelling : List Char} (skips : context.Skips gap spelling)
    (pattern : context.region = .pattern) : gap = [] := by
  rwa [Skips, if_pos pattern] at skips

/-- In a context, a segment in front of a rest is read and leads to a next context. The rest is
named because a spelling may depend on what follows it. -/
structure Reads (context : Context) (segment : Segment) (rest : List Char) (next : Context) :
    Prop where
  skips : context.Skips segment.gap segment.spelling
  spells : context.Spells segment.spelling rest segment.terminal next

/-- Every spelling has a character, the end of the input being spelled by none and left out of the
relation. -/
theorem Spells.ne_nil {spelling : List Char} {terminal : Terminal}
    (spells : context.Spells spelling rest terminal next) : spelling ≠ [] := by
  cases spells with
  | text nonempty => exact nonempty
  | bareKey shape => exact isNameChars_ne_nil shape
  | number _ start taken =>
      rintro rfl
      exact spanNumber_ne_nil start (by rw [taken])
  | _ => simp [MessageTemplate.matchWord, MessageTemplate.whenWord]

theorem terminal_of_sign {sign : Char} {make : String → Terminal}
    (signs : signTerminal? sign = some make) :
    make = .variable ∨ make = .function ∨ make = .markupOpen ∨ make = .markupClose := by
  unfold signTerminal? at signs
  split at signs <;> simp_all

/-- No characters spell the end of the input or an error. -/
theorem Spells.isLast_eq_false {spelling : List Char} {terminal : Terminal}
    (spells : context.Spells spelling rest terminal next) : terminal.isLast = false := by
  cases spells with
  | signed _ signs => rcases terminal_of_sign signs with rfl | rfl | rfl | rfl <;> rfl
  | _ => rfl

/-- The lexer skips exactly the gap in front of a spelling that does not start with a blank. -/
theorem skipBlanks_append_of_skips {gap spelling : List Char} (skips : context.Skips gap spelling)
    (nonempty : spelling ≠ []) (rest : List Char) :
    context.skipBlanks (gap ++ spelling ++ rest) = (gap, spelling ++ rest) := by
  unfold Skips at skips
  unfold skipBlanks
  split at skips
  · rename_i pattern
    rw [if_pos pattern, skips, List.nil_append]
  · rename_i blanks
    have ends : EndsRun isBlank (spelling ++ rest) := (endsRun_append nonempty).mpr skips.2
    rw [if_neg blanks, List.append_assoc, takeWhile_append_of_endsRun skips.1 ends,
      dropWhile_append_of_endsRun skips.1 ends]

/-- A segment that is read is what the lexer finds in front of the rest. This is the step from the
relation to the function, and `reads_of_scan` is the step back. -/
theorem Reads.scan (reads : context.Reads segment rest next) :
    context.skipBlanks (segment.gap ++ segment.spelling ++ rest) =
        (segment.gap, segment.spelling ++ rest) ∧
      ∃ lexeme, context.scan (segment.spelling ++ rest) = .ok (lexeme, next) ∧
        lexeme.terminal = segment.terminal ∧ lexeme.spelling = segment.spelling ∧
          lexeme.rest = rest :=
  ⟨skipBlanks_append_of_skips reads.skips reads.spells.ne_nil rest, scan_of_spells reads.spells⟩

/-- Only one segment can be read from given characters, because the lexer reads it and the lexer is
a function. -/
theorem Reads.unique {other : Segment} {next' : Context} {rest' : List Char}
    (first : context.Reads segment rest next) (second : context.Reads other rest' next')
    (same : segment.gap ++ segment.spelling ++ rest = other.gap ++ other.spelling ++ rest') :
    segment = other ∧ rest = rest' ∧ next = next' := by
  obtain ⟨skipped, lexeme, scanned, terminal, spelling, behind⟩ := first.scan
  obtain ⟨skipped', lexeme', scanned', terminal', spelling', behind'⟩ := second.scan
  rw [same, skipped', Prod.mk.injEq] at skipped
  rw [← skipped.2, scanned', Except.ok.injEq, Prod.mk.injEq] at scanned
  obtain ⟨rfl, rfl⟩ := scanned
  refine ⟨?_, behind.symm.trans behind', rfl⟩
  obtain ⟨gap, spell, term⟩ := segment
  obtain ⟨gap', spell', term'⟩ := other
  simp only [Segment.mk.injEq]
  exact ⟨skipped.1.symm, spelling.symm.trans spelling', terminal.symm.trans terminal'⟩

/-- The end of the input is found outside all braces, behind blanks. Inside braces it is an error
instead. -/
theorem blank_of_eof {chars gap cs : List Char} {lexeme : Lexeme}
    (skipped : context.skipBlanks chars = (gap, cs))
    (scanned : context.scan cs = .ok (lexeme, next)) (final : lexeme.kind = .eof) :
    context.region = .outside ∧ ∀ c ∈ chars, isBlank c = true := by
  rcases spells_of_scan scanned with ⟨_, outside, rfl⟩ | spells
  · rw [skipBlanks, if_neg (by simp [outside]), Prod.mk.injEq] at skipped
    exact ⟨outside, List.dropWhile_eq_nil_iff.mp skipped.2⟩
  · exact absurd final (Lexeme.kind_ne_eof spells.isLast_eq_false)

/-- What the lexer finds, the end of the input apart, is a segment that is read. -/
theorem reads_of_scan {chars gap cs : List Char} {lexeme : Lexeme}
    (skipped : context.skipBlanks chars = (gap, cs))
    (scanned : context.scan cs = .ok (lexeme, next)) (notEnd : lexeme.kind ≠ .eof) :
    context.Reads ⟨gap, lexeme.spelling, lexeme.terminal⟩ lexeme.rest next ∧
      gap ++ lexeme.spelling ++ lexeme.rest = chars := by
  have joined := context.skipBlanks_append chars
  rw [skipped] at joined
  rcases spells_of_scan scanned with ⟨final, _⟩ | spells
  · exact absurd final notEnd
  rcases splits_scan scanned with ⟨final, _⟩ | splits
  · exact absurd final notEnd
  refine ⟨⟨?_, spells⟩, by rw [List.append_assoc, splits.joined, joined]⟩
  unfold skipBlanks at skipped
  unfold Skips
  split at skipped
  · rename_i pattern
    rw [if_pos pattern]
    exact (Prod.mk.inj skipped).1.symm
  · rename_i outside
    obtain ⟨rfl, rfl⟩ := Prod.mk.inj skipped
    have ends : EndsRun isBlank (chars.dropWhile isBlank) := endsRun_dropWhile chars
    rw [← splits.joined, endsRun_append splits.nonempty] at ends
    rw [if_neg outside]
    exact ⟨fun _ => List.mem_takeWhile_imp, ends⟩

end Context

/-- In a context, segments in front of a rest are read one after the other and lead to a last
context. The rest is part of the relation, since a token may look at the character behind it. -/
inductive Lexes : Context → List Segment → (rest : List Char) → Context → Prop
  | nil {context : Context} {rest : List Char} : Lexes context [] rest context
  | cons {context next last : Context} {segment : Segment} {segments : List Segment}
      {rest : List Char} (reads : context.Reads segment (source segments ++ rest) next)
      (lexes : Lexes next segments rest last) : Lexes context (segment :: segments) rest last

namespace Lexes

variable {context middle last : Context} {front back segments : List Segment} {rest : List Char}

/-- Segments are read part by part, the first part in front of the characters of the second. -/
theorem append (first : Lexes context front (source back ++ rest) middle)
    (second : Lexes middle back rest last) : Lexes context (front ++ back) rest last := by
  induction front generalizing context with
  | nil =>
      cases first
      exact second
  | cons segment segments ih =>
      cases first with
      | cons reads lexes =>
          rw [List.cons_append]
          refine .cons ?_ (ih lexes)
          rwa [source_append, List.append_assoc]

theorem single {segment : Segment} (reads : context.Reads segment rest last) :
    Lexes context [segment] rest last := .cons reads .nil

/-- Every cut of a template to its end goes on from every partial one. So a template is cut in one
way only, and two cuts of it can be compared from the front. -/
theorem split {gap : List Char} {mode : Mode} (first : Lexes context front rest middle)
    (whole : Lexes context segments gap ⟨.outside, mode⟩) (blank : ∀ c ∈ gap, isBlank c = true)
    (same : source front ++ rest = source segments ++ gap) :
    ∃ back, segments = front ++ back ∧ Lexes middle back gap ⟨.outside, mode⟩ ∧
      rest = source back ++ gap := by
  induction first generalizing segments with
  | nil => exact ⟨segments, rfl, whole, same⟩
  | @cons context next middle segment front rest reads lexes ih =>
      cases whole with
      | nil =>
          -- only blanks are left, but a segment shows a character that is none
          have nonempty := reads.spells.ne_nil
          obtain ⟨skips, ends⟩ : (∀ c ∈ segment.gap, isBlank c = true) ∧
              EndsRun isBlank segment.spelling := by
            simpa [Context.Skips] using reads.skips
          obtain ⟨c, cs, spelled⟩ := List.exists_cons_of_ne_nil nonempty
          have member : c ∈ gap := by
            rw [source_nil, List.nil_append] at same
            rw [← same]
            simp [spelled]
          rw [spelled, endsRun_cons] at ends
          exact absurd (blank c member) (by simp [ends])
      | @cons _ other _ segment' segments _ reads' lexes' =>
          simp only [source_cons, List.append_assoc] at same
          obtain ⟨rfl, behind, rfl⟩ := reads.unique reads' (by simpa using same)
          obtain ⟨back, rfl, tail, rest'⟩ := ih lexes' behind
          exact ⟨back, rfl, tail, rest'⟩

end Lexes

/-! ### The tokens of segments -/

namespace Lexer

variable {lexer : Lexer}

/-- The tokens that the stream still has, without their places. -/
def terminals (lexer : Lexer) : List Terminal := lexer.tokens.map Token.terminal

theorem tokens_of_finished (finished : lexer.finished = true) : lexer.tokens = [] := by
  rw [tokens, drain, dif_neg (by simp [finished])]

theorem tokens_of_unfinished (unfinished : lexer.finished = false) :
    lexer.tokens = lexer.nextToken.1 :: lexer.nextToken.2.tokens := by
  rw [tokens, drain, dif_pos unfinished]
  rfl

theorem terminals_of_finished (finished : lexer.finished = true) : lexer.terminals = [] := by
  rw [terminals, tokens_of_finished finished, List.map_nil]

theorem terminals_of_unfinished (unfinished : lexer.finished = false) :
    lexer.terminals = lexer.nextToken.1.terminal :: lexer.nextToken.2.terminals := by
  rw [terminals, tokens_of_unfinished unfinished, List.map_cons, terminals]

/-- The next token where a lexeme is read, and the lexer behind it. Results about places use this
lemma, results about terminals the shorter one below. -/
theorem nextToken_eq_of_scan {gap cs : List Char} {lexeme : Lexeme} {next : Context}
    (unfinished : lexer.finished = false)
    (skipped : lexer.context.skipBlanks lexer.rest = (gap, cs))
    (scanned : lexer.context.scan cs = .ok (lexeme, next)) :
    lexer.nextToken =
      (⟨lexeme.kind, lexeme.text, lexer.offset + byteLength gap,
          min lexer.context.region.level next.region.level⟩,
        ⟨lexeme.rest, lexer.offset + byteLength gap + byteLength lexeme.spelling, next,
          lexeme.kind = .eof⟩) := by
  simp only [nextToken, unfinished, Bool.false_eq_true, ↓reduceIte, skipped, scanned]

/-- The next token where none can be read: an error behind the characters that were passed, and a
lexer that has finished. -/
theorem nextToken_eq_of_fault {gap cs : List Char} {failure : Lexeme.Failure}
    (unfinished : lexer.finished = false)
    (skipped : lexer.context.skipBlanks lexer.rest = (gap, cs))
    (scanned : lexer.context.scan cs = .error failure) :
    lexer.nextToken =
      (⟨.error, failure.fault.message, lexer.offset + byteLength gap + byteLength failure.passed,
          lexer.context.region.level⟩,
        ⟨cs.drop failure.consumed.length,
          lexer.offset + byteLength gap + byteLength failure.consumed, lexer.context, true⟩) := by
  simp only [nextToken, unfinished, Bool.false_eq_true, ↓reduceIte, skipped, scanned]

/-- What the grammar sees of the next token where a lexeme is read. -/
theorem nextToken_of_scan {gap cs : List Char} {lexeme : Lexeme} {next : Context}
    (unfinished : lexer.finished = false)
    (skipped : lexer.context.skipBlanks lexer.rest = (gap, cs))
    (scanned : lexer.context.scan cs = .ok (lexeme, next)) :
    lexer.nextToken.1.terminal = lexeme.terminal ∧ lexer.nextToken.2.rest = lexeme.rest ∧
      lexer.nextToken.2.context = next ∧
        lexer.nextToken.2.finished = decide (lexeme.kind = .eof) := by
  rw [nextToken_eq_of_scan unfinished skipped scanned]
  exact ⟨rfl, rfl, rfl, rfl⟩

/-- What the grammar sees where no token can be read. -/
theorem nextToken_of_fault {gap cs : List Char} {failure : Lexeme.Failure}
    (unfinished : lexer.finished = false)
    (skipped : lexer.context.skipBlanks lexer.rest = (gap, cs))
    (scanned : lexer.context.scan cs = .error failure) :
    lexer.nextToken.1.terminal = .error failure.fault.message ∧
      lexer.nextToken.2.finished = true := by
  rw [nextToken_eq_of_fault unfinished skipped scanned]
  exact ⟨rfl, rfl⟩

/-- Where segments are read, the stream has their terminals and goes on behind them. The induction
is on the chain of segments. -/
theorem terminals_of_lexes {context last : Context} {segments : List Segment} {rest : List Char}
    (lexes : Lexes context segments rest last) (unfinished : lexer.finished = false)
    (here : lexer.context = context) (ahead : lexer.rest = source segments ++ rest) :
    ∃ final : Lexer, lexer.terminals = segments.map Segment.terminal ++ final.terminals ∧
      final.finished = false ∧ final.context = last ∧ final.rest = rest := by
  induction lexes generalizing lexer with
  | nil => exact ⟨lexer, rfl, unfinished, here, ahead⟩
  | @cons context next last segment segments rest reads lexes ih =>
      obtain ⟨skipped, lexeme, scanned, terminal, _, behind⟩ := reads.scan
      rw [source_cons, List.append_assoc] at ahead
      rw [← ahead, ← here] at skipped
      rw [← here] at scanned
      obtain ⟨first, rest', context', finished'⟩ := nextToken_of_scan unfinished skipped scanned
      have unfinished' : lexer.nextToken.2.finished = false := by
        rw [finished', decide_eq_false_iff_not]
        exact Lexeme.kind_ne_eof (terminal ▸ reads.spells.isLast_eq_false)
      obtain ⟨final, tail, going⟩ := ih unfinished' context' (rest'.trans behind)
      refine ⟨final, ?_, going⟩
      rw [terminals_of_unfinished unfinished, first, terminal, tail]
      rfl

/-- Outside all braces, where only blanks are left, the stream has the end of the input left. -/
theorem terminals_of_blank (unfinished : lexer.finished = false)
    (outside : lexer.context.region = .outside) (blank : ∀ c ∈ lexer.rest, isBlank c = true) :
    lexer.terminals = [.eof] := by
  have skipped : lexer.context.skipBlanks lexer.rest = (lexer.rest, []) := by
    rw [Context.skipBlanks, outside, if_neg (by decide), List.takeWhile_eq_self_iff.mpr blank,
      List.dropWhile_eq_nil_iff.mpr blank]
  have scanned : lexer.context.scan [] = .ok (.verbatim .eof ([], []), lexer.context) := by
    generalize lexer.context = context at outside
    obtain ⟨region, mode⟩ := context
    cases outside
    rfl
  obtain ⟨first, _, _, finished⟩ := nextToken_of_scan unfinished skipped scanned
  rw [terminals_of_unfinished unfinished, first, terminals_of_finished (finished.trans (by rfl))]
  rfl

/-- The stream has the terminals of segments, and then the end of the input behind blanks or an
error. The induction is on the budget of the lexer. -/
theorem exists_lexes (unfinished : lexer.finished = false) :
    ∃ segments rest last, lexer.rest = source segments ++ rest ∧
      Lexes lexer.context segments rest last ∧
        ((last.region = .outside ∧ (∀ c ∈ rest, isBlank c = true) ∧
            lexer.terminals = segments.map Segment.terminal ++ [.eof]) ∨
          ∃ text, lexer.terminals = segments.map Segment.terminal ++ [.error text]) := by
  -- on the budget, since the lexer goes on from another lexer, not from a part of its input
  generalize size : lexer.budget = budget
  induction budget using Nat.strong_induction_on generalizing lexer with
  | _ budget ih =>
      obtain ⟨gap, cs, skipped⟩ : ∃ gap cs, lexer.context.skipBlanks lexer.rest = (gap, cs) :=
        ⟨_, _, rfl⟩
      cases scanned : lexer.context.scan cs with
      | error failure =>
          obtain ⟨first, finished⟩ := nextToken_of_fault unfinished skipped scanned
          refine ⟨[], lexer.rest, lexer.context, rfl, .nil, .inr ⟨failure.fault.message, ?_⟩⟩
          rw [terminals_of_unfinished unfinished, first, terminals_of_finished finished]
          rfl
      | ok result =>
          obtain ⟨lexeme, next⟩ := result
          obtain ⟨first, rest', context', finished'⟩ :=
            nextToken_of_scan unfinished skipped scanned
          by_cases final : lexeme.kind = .eof
          · obtain ⟨outside, blank⟩ := Context.blank_of_eof skipped scanned final
            refine ⟨[], lexer.rest, lexer.context, rfl, .nil, .inl ⟨outside, blank, ?_⟩⟩
            exact terminals_of_blank unfinished outside blank
          · obtain ⟨reads, joined⟩ := Context.reads_of_scan skipped scanned final
            have unfinished' : lexer.nextToken.2.finished = false := by simp [finished', final]
            obtain ⟨segments, rest, last, ahead, lexes, tokens⟩ :=
              ih _ (size ▸ budget_nextToken_lt unfinished) unfinished' rfl
            rw [rest'] at ahead
            rw [context'] at lexes
            refine ⟨_ :: segments, rest, last, ?_, .cons (ahead ▸ reads) lexes, ?_⟩
            · rw [source_cons, List.append_assoc, ← ahead, joined]
            · rw [terminals_of_unfinished unfinished, first]
              rcases tokens with ⟨outside, blank, ended⟩ | ⟨text, failed⟩
              · exact .inl ⟨outside, blank, by rw [ended]; rfl⟩
              · exact .inr ⟨text, by rw [failed]; rfl⟩

end Lexer

/-- The segments make up the template, apart from blanks at its end, and are read to its end. It is
what a template that has tokens looks like. -/
structure Segmented (template : String) (segments : List Segment) (gap : List Char) (mode : Mode) :
    Prop where
  joined : template.toList = source segments ++ gap
  blank : ∀ c ∈ gap, isBlank c = true
  lexes : Lexes {} segments gap ⟨.outside, mode⟩

/-- No segment stands for the end of the input or for an error. -/
theorem Lexes.isLast_eq_false {context last : Context} {segments : List Segment} {rest : List Char}
    (lexes : Lexes context segments rest last) :
    ∀ segment ∈ segments, segment.terminal.isLast = false := by
  induction lexes with
  | nil => simp
  | cons reads _ ih => exact List.forall_mem_cons.mpr ⟨reads.spells.isLast_eq_false, ih⟩

namespace Token

theorem terminal_eq_error_iff {token : Token} :
    (∃ text, token.terminal = .error text) ↔ token.kind = .error := by
  obtain ⟨kind, text, offset, level⟩ := token
  cases kind <;> simp [terminal, Terminal.ofKind]

theorem firstError?_eq_none_iff {tokens : List Token} :
    firstError? tokens = none ↔ ∀ token ∈ tokens, token.kind ≠ .error := by
  simp [firstError?]

/-- The tokens of a template are the terminals of its segments, and the end of the input. So what a
template means can be computed from any segmentation of it. -/
theorem tokenize_of_segmented {template : String} {segments : List Segment} {gap : List Char}
    {mode : Mode} (segmented : Segmented template segments gap mode) :
    ∃ tokens, tokenize template = .ok tokens ∧
      tokens.map terminal = segments.map Segment.terminal ++ [.eof] := by
  obtain ⟨final, terminals, unfinished, context, rest⟩ :=
    @Lexer.terminals_of_lexes (Lexer.ofString template) _ _ _ _ segmented.lexes rfl rfl
      segmented.joined
  rw [Lexer.terminals_of_blank unfinished (by rw [context]) (rest ▸ segmented.blank)] at terminals
  have noError : firstError? (Lexer.ofString template).tokens = none := by
    rw [firstError?_eq_none_iff]
    intro token member failed
    obtain ⟨text, failed⟩ := terminal_eq_error_iff.mpr failed
    have listed : token.terminal ∈ segments.map Segment.terminal ++ [.eof] := by
      rw [← terminals]
      exact List.mem_map_of_mem member
    rw [failed] at listed
    simp only [List.mem_append, List.mem_map, List.mem_singleton, reduceCtorEq, or_false] at listed
    obtain ⟨segment, member, same⟩ := listed
    have notLast := segmented.lexes.isLast_eq_false segment member
    rw [same] at notLast
    simp [Terminal.isLast] at notLast
  exact ⟨_, by simp only [tokenize, noError], terminals⟩

/-- A template that has tokens can be cut into segments, and the tokens are their terminals. Nothing
is assumed about the template beyond that it has tokens. -/
theorem segmented_of_tokenize {template : String} {tokens : List Token}
    (found : tokenize template = .ok tokens) :
    ∃ segments gap mode, Segmented template segments gap mode ∧
      tokens.map terminal = segments.map Segment.terminal ++ [.eof] := by
  obtain ⟨segments, rest, ⟨region, mode⟩, joined, lexes, finished⟩ :=
    @Lexer.exists_lexes (Lexer.ofString template) rfl
  rcases finished with ⟨outside, blank, ended⟩ | ⟨text, failed⟩
  · simp only at outside
    subst outside
    refine ⟨segments, rest, mode, ⟨joined, blank, lexes⟩, ?_⟩
    simp only [tokenize] at found
    split at found
    · simp at found
    · cases found
      exact ended
  · simp only [tokenize] at found
    split at found
    · simp at found
    · rename_i noError
      rw [firstError?_eq_none_iff] at noError
      have listed : Terminal.error text ∈ (Lexer.ofString template).terminals := by
        rw [failed]
        simp
      obtain ⟨token, member, same⟩ := List.mem_map.mp listed
      exact absurd (terminal_eq_error_iff.mp ⟨text, same⟩) (noError token member)

end Token

end MessageTemplate
