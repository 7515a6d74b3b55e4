import Mathlib.Data.List.Basic
import MessageTemplate.Message.Equality
import MessageTemplate.Proofs.Message.Descent
import MessageTemplate.Proofs.Token.Lookahead

/-! # Spacing

The blanks that the lexer skips are interchangeable: a template is parsed to the same message when
a run of them is replaced by other blanks, the ogham space mark apart
(`MessageTemplate.Message.parse_respaced`). Blanks are skipped in front of a token, and in an option
around its equals sign.
-/

namespace MessageTemplate

/-- A template is parsed to the message that the terminals derive that it yields. What is proved of
yielding, therefore, holds of parsing. -/
theorem Message.parse_eq_ok_iff_yields {template : String} {message : Message} :
    parse template = .ok message ↔
      ∃ terminals mode, Context.Yields {} template.toList terminals mode ∧
        Grammar.DerivesMessage terminals message := by
  rw [parse_eq_ok_iff]
  constructor
  · rintro ⟨segments, gap, mode, ⟨joined, blank, lexes⟩, derives⟩
    have yields := lexes.yields (.blank blank)
    rw [← joined, List.append_nil] at yields
    exact ⟨_, mode, yields, derives⟩
  · rintro ⟨terminals, mode, yields, derives⟩
    obtain ⟨segments, gap, joined, blank, lexes, rfl⟩ := yields.exists_lexes
    exact ⟨segments, gap, mode, ⟨joined, blank, lexes⟩, derives⟩

namespace Lexer

variable {lexer : Lexer} {run run' back : List Char}

/-- From here on the lexer skips a run of blanks at some point, and has the other characters still
to read. The constructors name all places at which blanks are skipped. -/
inductive SkipsRun : Lexer → (run back : List Char) → Prop
  /-- The run stands in front of the next token. -/
  | ahead {lexer : Lexer} {run back : List Char} (unfinished : lexer.finished = false)
      (skipped : lexer.context.skipBlanks lexer.rest = (run, back)) : SkipsRun lexer run back
  /-- The next token is an option, and the run stands behind its name. -/
  | beforeEquals {lexer : Lexer} {run back : List Char} (option : lexer.nextToken.1.kind = .option)
      (named : (spanName (lexer.context.skipBlanks lexer.rest).2).2 = run ++ back)
      (longest : (run ++ back).takeWhile isBlank = run) : SkipsRun lexer run back
  /-- The next token is an option, and the run stands behind its equals sign. -/
  | behindEquals {lexer : Lexer} {run back : List Char} (option : lexer.nextToken.1.kind = .option)
      (named : (spanName (lexer.context.skipBlanks lexer.rest).2).2.dropWhile isBlank =
        '=' :: (run ++ back))
      (longest : (run ++ back).takeWhile isBlank = run) : SkipsRun lexer run back
  /-- The run is skipped behind the next token. -/
  | later {lexer : Lexer} {run back : List Char} (unfinished : lexer.finished = false)
      (skips : SkipsRun lexer.nextToken.2 run back) : SkipsRun lexer run back

theorem unfinished_of_option (option : lexer.nextToken.1.kind = .option) :
    lexer.finished = false := by
  rw [Bool.eq_false_iff]
  intro finished
  simp [nextToken, finished] at option

theorem SkipsRun.unfinished (skips : lexer.SkipsRun run back) : lexer.finished = false := by
  cases skips with
  | ahead unfinished => exact unfinished
  | beforeEquals option => exact unfinished_of_option option
  | behindEquals option => exact unfinished_of_option option
  | later unfinished => exact unfinished

/-- Where only blanks are left outside all braces, the next token is the last. -/
theorem finished_of_blank (unfinished : lexer.finished = false)
    (outside : lexer.context.region = .outside) (blank : ∀ c ∈ lexer.rest, isBlank c = true) :
    lexer.nextToken.1.kind = .eof ∧ lexer.nextToken.2.finished = true := by
  have ended := terminals_of_blank unfinished outside blank
  rw [terminals_of_unfinished unfinished, List.cons.injEq] at ended
  obtain ⟨first, none⟩ := ended
  refine ⟨(Token.terminal_eq_iff.mp first).1, ?_⟩
  rw [← Bool.not_eq_false]
  intro going
  simp [terminals_of_unfinished going] at none

/-- Where a segment is read, the next token has its terminal, and the lexer goes on behind it.
Offsets are left out, as they change with the blanks. -/
theorem nextToken_of_reads {segment : Segment} {rest : List Char} {next : Context}
    (unfinished : lexer.finished = false) (reads : lexer.context.Reads segment rest next)
    (ahead : lexer.rest = segment.gap ++ segment.spelling ++ rest) :
    lexer.context.skipBlanks lexer.rest = (segment.gap, segment.spelling ++ rest) ∧
      lexer.nextToken.1.terminal = segment.terminal ∧ lexer.nextToken.2.rest = rest ∧
        lexer.nextToken.2.context = next := by
  obtain ⟨skipped, lexeme, scanned, terminal, _, behind⟩ := reads.scan
  rw [← ahead] at skipped
  obtain ⟨first, rest', context', _⟩ := nextToken_of_scan unfinished skipped scanned
  exact ⟨skipped, first.trans terminal, rest'.trans behind, context'⟩

end Lexer

namespace Context

variable {context next : Context} {name gap gap' value rest : List Char}

/-- An option is spelled by a name and a value, and blanks on both sides of the equals sign. The
conditions on the gaps are those that keep name and value whole. -/
structure SpellsOption (context : Context) (name gap gap' value rest : List Char) : Prop where
  inside : context.isExpression = true
  shape : isNameChars name = true
  nameEnds : EndsRun isNameChar (gap ++ ['='])
  blank : ∀ c ∈ gap, isBlank c = true
  blank' : ∀ c ∈ gap', isBlank c = true
  gapEnds : EndsRun isBlank value
  valueShape : Lexeme.isOptionValue value = true
  ends : EndsRun isNameChar rest

theorem SpellsOption.spells (option : context.SpellsOption name gap gap' value rest) :
    context.Spells (name ++ gap ++ '=' :: gap' ++ value) rest
      (.option (String.ofList (name ++ '=' :: value))) context :=
  .option option.inside option.shape option.nameEnds option.blank option.blank' option.gapEnds
    option.valueShape option.ends

/-- Whatever is read as an option is spelled in this way. -/
theorem Spells.exists_option {spelling : List Char} {source : String}
    (spells : context.Spells spelling rest (.option source) next) :
    next = context ∧ ∃ name gap gap' value, spelling = name ++ gap ++ '=' :: gap' ++ value ∧
      source = String.ofList (name ++ '=' :: value) ∧
        context.SpellsOption name gap gap' value rest := by
  generalize same : Terminal.option source = terminal at spells
  cases spells with
  | signed _ signs => rcases terminal_of_sign signs with rfl | rfl | rfl | rfl <;> cases same
  | option inside shape nameEnds blank blank' gapEnds valueShape ends =>
      exact ⟨rfl, _, _, _, _, rfl, Terminal.option.inj same,
        ⟨inside, shape, nameEnds, blank, blank', gapEnds, valueShape, ends⟩⟩
  | _ => cases same

/-- The name of an option is what the lexer takes first. -/
theorem SpellsOption.spanName_eq (option : context.SpellsOption name gap gap' value rest) :
    spanName (name ++ gap ++ '=' :: gap' ++ value ++ rest) =
      (name, gap ++ '=' :: (gap' ++ value ++ rest)) := by
  have ends : EndsRun isNameChar (gap ++ '=' :: (gap' ++ value ++ rest)) := by
    rw [List.append_cons, endsRun_append (by simp)]
    exact option.nameEnds
  rw [← spanName_append_of_endsRun (all_isNameChar_of_isNameChars option.shape) ends]
  simp

theorem SpellsOption.value_ne_nil (option : context.SpellsOption name gap gap' value rest) :
    value ≠ [] := by
  rintro rfl
  exact absurd option.valueShape (by decide)

end Context

namespace Lexer

open Context

variable {lexer : Lexer} {run run' back : List Char}

/-- What the lexer yields stays the same when another run stands in front of the characters that are
left behind one. The two inputs also look alike, so that a token before them does not notice. -/
def Respaces (lexer : Lexer) (run run' back : List Char) (terminals : List Terminal)
    (last : Mode) : Prop :=
  ∃ front, lexer.rest = front ++ run ++ back ∧ LooksAlike lexer.rest (front ++ run' ++ back) ∧
    lexer.context.Yields (front ++ run' ++ back) terminals last

variable {terminals : List Terminal} {last : Mode}

/-- A run in front of the next token can be replaced, since all of it is skipped. -/
theorem respaces_ahead (skipped : lexer.context.skipBlanks lexer.rest = (run, back))
    (nonempty : run ≠ []) (nonempty' : run' ≠ [])
    (plain : ∀ c ∈ run', isBlank c = true ∧ c ≠ oghamSpace)
    (yields : lexer.context.Yields lexer.rest terminals last) :
    lexer.Respaces run run' back terminals last := by
  have blank' : ∀ c ∈ run', isBlank c = true := fun c member => (plain c member).1
  have joined := lexer.context.skipBlanks_append lexer.rest
  have outside : lexer.context.region ≠ .pattern := by
    intro pattern
    rw [skipBlanks, if_pos pattern] at skipped
    exact nonempty (Prod.mk.inj skipped).1.symm
  rw [skipped] at joined
  rw [skipBlanks, if_neg outside, Prod.mk.injEq] at skipped
  have blank : ∀ c ∈ run, isBlank c = true := by
    rw [← skipped.1]
    exact fun _ => List.mem_takeWhile_imp
  refine ⟨[], joined.symm, .blank ?_ ?_, ?_⟩
  · rw [← joined, List.head?_append_of_ne_nil _ nonempty]
    exact fun c next => blank c (List.mem_of_mem_head? next)
  · rw [List.nil_append, List.head?_append_of_ne_nil _ nonempty']
    exact fun c next => plain c (List.mem_of_mem_head? next)
  · generalize lexer.context = context at *
    generalize lexer.rest = chars at *
    cases yields with
    | blank allBlank =>
        refine .blank (List.forall_mem_append.mpr ⟨blank', fun c member => allBlank c ?_⟩)
        rw [← joined]
        exact List.mem_append_right _ member
    | @cons _ _ gap spelling rest _ _ _ skips spells yields =>
        have ends := ((skips_iff outside).mp skips).2
        have cut := skipBlanks_append_of_skips skips spells.ne_nil rest
        rw [skipBlanks, if_neg outside, skipped.1, skipped.2, Prod.mk.injEq] at cut
        rw [cut.2, List.nil_append, ← List.append_assoc]
        exact .cons ((skips_iff outside).mpr ⟨blank', ends⟩) spells yields

/-- Where the next token is an option, it could have other gaps. What is yielded stays the same with
all of them. -/
theorem exists_option (option : lexer.nextToken.1.kind = .option)
    (yields : lexer.context.Yields lexer.rest terminals last) :
    ∃ before name gap gap' value rest,
      lexer.rest = before ++ (name ++ gap ++ '=' :: gap' ++ value) ++ rest ∧
        (lexer.context.skipBlanks lexer.rest).2 = name ++ gap ++ '=' :: gap' ++ value ++ rest ∧
          lexer.context.SpellsOption name gap gap' value rest ∧
            ∀ other other', lexer.context.SpellsOption name other other' value rest →
              lexer.context.Yields (before ++ (name ++ other ++ '=' :: other' ++ value) ++ rest)
                terminals last := by
  have unfinished := unfinished_of_option option
  generalize ahead : lexer.rest = chars at yields
  generalize here : lexer.context = context at *
  cases yields with
  | blank blank =>
      have ended := (finished_of_blank unfinished (by rw [here]) (ahead ▸ blank)).1
      rw [option] at ended
      cases ended
  | @cons _ next before spelling rest terminal others _ skips spells yields =>
      have reads : lexer.context.Reads ⟨before, spelling, terminal⟩ rest next :=
        here ▸ ⟨skips, spells⟩
      obtain ⟨skipped, first, _⟩ := nextToken_of_reads unfinished reads ahead
      obtain ⟨source, rfl⟩ : ∃ source, terminal = .option source := by
        rw [← show lexer.nextToken.1.terminal = terminal from first, Token.terminal, option]
        exact ⟨_, rfl⟩
      obtain ⟨rfl, name, gap, gap', value, rfl, rfl, parts⟩ := spells.exists_option
      rw [here, ahead] at skipped
      refine ⟨before, name, gap, gap', value, rest, rfl, congrArg Prod.snd skipped, parts, ?_⟩
      intro other other' parts'
      refine .cons ?_ parts'.spells yields
      have outside := (isExpression_cases parts.inside).2
      rw [skips_iff outside, List.append_assoc, List.append_assoc,
        endsRun_append (isNameChars_ne_nil parts.shape)] at skips ⊢
      exact skips

/-- When a run that the lexer skips is replaced by another one, what it yields stays the same. The
induction is on the place of the run, and each token in front of it is read again. -/
theorem SkipsRun.respaces (skips : lexer.SkipsRun run back) (nonempty : run ≠ [])
    (nonempty' : run' ≠ []) (plain : ∀ c ∈ run', isBlank c = true ∧ c ≠ oghamSpace)
    (yields : lexer.context.Yields lexer.rest terminals last) :
    lexer.Respaces run run' back terminals last := by
  have blank' : ∀ c ∈ run', isBlank c = true := fun c member => (plain c member).1
  have equals : EndsRun isNameChar (run' ++ ['=']) := by
    rw [endsRun_append nonempty']
    intro c next
    rw [Bool.eq_false_iff]
    intro name
    obtain ⟨blank, other⟩ := plain c (List.mem_of_mem_head? next)
    exact other (isNameChar_and_isBlank_iff.mp ⟨name, blank⟩)
  induction skips generalizing terminals with
  | ahead unfinished skipped => exact respaces_ahead skipped nonempty nonempty' plain yields
  | @beforeEquals lexer run back option named longest =>
      obtain ⟨before, name, gap, gap', value, rest, joined, behind, parts, again⟩ :=
        exists_option option yields
      rw [behind, parts.spanName_eq] at named
      simp only at named
      rw [← named, takeWhile_append_of_endsRun parts.blank (endsRun_equals _)]
        at longest
      subst longest
      obtain rfl := List.append_cancel_left named
      have front : before ++ name ≠ [] := by simp [isNameChars_ne_nil parts.shape]
      have yields' := again run' gap' { parts with nameEnds := equals, blank := blank' }
      refine ⟨before ++ name, by simp [joined], ?_, by simpa using yields'⟩
      rw [joined]
      simpa using LooksAlike.append_left front
  | @behindEquals lexer run back option named longest =>
      obtain ⟨before, name, gap, gap', value, rest, joined, behind, parts, again⟩ :=
        exists_option option yields
      rw [behind, parts.spanName_eq] at named
      simp only at named
      rw [dropWhile_append_of_endsRun parts.blank (endsRun_equals _),
        List.cons.injEq] at named
      have ends : EndsRun isBlank (value ++ rest) :=
        (endsRun_append parts.value_ne_nil).mpr parts.gapEnds
      rw [← named.2, List.append_assoc, takeWhile_append_of_endsRun parts.blank' ends] at longest
      subst longest
      obtain rfl := List.append_cancel_left ((List.append_assoc ..).symm.trans named.2)
      have front : before ++ name ++ gap ++ ['='] ≠ [] := by simp
      have yields' := again gap run' { parts with blank' := blank' }
      refine ⟨before ++ name ++ gap ++ ['='], by simp [joined], ?_, by simpa using yields'⟩
      rw [joined]
      simpa using LooksAlike.append_left front
  | @later lexer run back unfinished skips ih =>
      generalize ahead : lexer.rest = chars at yields
      generalize here : lexer.context = context at *
      cases yields with
      | blank blank =>
          have ended := (finished_of_blank unfinished (by rw [here]) (ahead ▸ blank)).2
          rw [skips.unfinished] at ended
          cases ended
      | @cons _ next gap spelling rest terminal others _ gapSkips spells yields =>
          have reads : lexer.context.Reads ⟨gap, spelling, terminal⟩ rest next :=
            here ▸ ⟨gapSkips, spells⟩
          obtain ⟨_, _, rest', context'⟩ := nextToken_of_reads unfinished reads ahead
          obtain ⟨front, joined, alike, yields'⟩ := ih nonempty (rest' ▸ context' ▸ yields)
          rw [rest'] at joined alike
          rw [context'] at yields'
          have front' : gap ++ spelling ≠ [] := by simp [spells.ne_nil]
          have spells' := spells.of_looksAlike alike yields.noPoint
          refine ⟨gap ++ spelling ++ front, by simp [ahead, joined], ?_, ?_⟩
          · rw [ahead]
            simpa using LooksAlike.append_left front'
          · rw [here]
            simpa using Yields.cons gapSkips spells' yields'

end Lexer

namespace Message

/-- A template in which a run of blanks that the lexer skips is replaced by other blanks, the ogham
space mark apart, is parsed to the same message. -/
theorem parse_respaced {template : String} {front run run' back : List Char} {message : Message}
    (split : template.toList = front ++ run ++ back)
    (skips : (Lexer.ofString template).SkipsRun run back)
    (nonempty : run ≠ []) (nonempty' : run' ≠ [])
    (plain : ∀ c ∈ run', isBlank c = true ∧ c ≠ oghamSpace)
    (parsed : parse template = .ok message) :
    parse (String.ofList (front ++ run' ++ back)) = .ok message := by
  obtain ⟨terminals, mode, yields, derives⟩ := parse_eq_ok_iff_yields.mp parsed
  obtain ⟨front', joined, _, (yields' : Context.Yields {} _ _ _)⟩ :=
    skips.respaces nonempty nonempty' plain yields
  have same : front ++ run ++ back = front' ++ run ++ back := split.symm.trans joined
  obtain rfl : front = front' := by simpa using same
  exact parse_eq_ok_iff_yields.mpr ⟨terminals, mode, by simpa using yields', derives⟩

/-- A blank behind the name of an option, and a tab and an ideographic space in its place. -/
theorem parse_respaced_option :
    (Lexer.ofString "\x7b:f x = 1\x7d").SkipsRun [' '] "= 1\x7d".toList ∧
      parse (String.ofList ("\x7b:f x".toList ++ ['\t', '\u3000'] ++ "= 1\x7d".toList)) =
        .ok [.expression ⟨none, some ⟨"f", [⟨"x", .int 1⟩]⟩⟩] := by
  have skips : (Lexer.ofString "\x7b:f x = 1\x7d").SkipsRun [' '] "= 1\x7d".toList := by
    -- the option is the third token
    refine .later ?_ (.later ?_ (.beforeEquals ?_ ?_ ?_)) <;> decide +kernel
  have parsed : parse "\x7b:f x = 1\x7d" =
      .ok [.expression ⟨none, some ⟨"f", [⟨"x", .int 1⟩]⟩⟩] := by decide +kernel
  have plain : ∀ c ∈ ['\t', '\u3000'], isBlank c = true ∧ c ≠ oghamSpace := by
    rw [List.forall_mem_cons, List.forall_mem_singleton]
    decide
  exact ⟨skips, parse_respaced (by decide +kernel) skips (by simp) (by simp) plain parsed⟩

end Message

end MessageTemplate
