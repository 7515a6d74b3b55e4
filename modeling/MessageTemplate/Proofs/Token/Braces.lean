import MessageTemplate.Proofs.Token.Tiling

/-! # Braces among the tokens

The level of a token is the number of braces that are open where it stands. Braces are open at most
two deep, each closes with the level that it opened with, and texts stand only directly inside
braces that open a pattern (`MessageTemplate.Lexer.placed_of_tokens`). What carries this through the
stream is that the region of the lexer tells which braces are open among the tokens that it has
given so far (`MessageTemplate.Lexer.Stands`).
-/

namespace MessageTemplate

/-- The mode behind a token of a kind with a text: words announce, and the pattern behind keys
completes a variant. -/
def Mode.behind (mode : Mode) (kind : Token.Kind) (text : String) : Mode :=
  match kind with
  | .keyword => if text = matchWord then .selectors else .keys
  | .openBrace => if mode = .keys then .message else mode
  | _ => mode

namespace Token

/-- The number of braces that open among tokens. -/
def openings (tokens : List Token) : Nat := tokens.countP (·.kind = .openBrace)

/-- The number of braces that close among tokens. -/
def closings (tokens : List Token) : Nat := tokens.countP (·.kind = .closeBrace)

/-- Every brace that opens among the tokens closes among them, and the other way round. The relation
follows the nesting, so that the brace that closes another one can be named. -/
inductive Balanced : List Token → Prop
  | nil : Balanced []
  | cons {token : Token} {tokens : List Token} (notOpen : token.kind ≠ .openBrace)
      (notClose : token.kind ≠ .closeBrace) (balanced : Balanced tokens) :
      Balanced (token :: tokens)
  | braces {opening closing : Token} {inside behind : List Token}
      (opens : opening.kind = .openBrace) (closes : closing.kind = .closeBrace)
      (inner : Balanced inside) (outer : Balanced behind) :
      Balanced (opening :: (inside ++ closing :: behind))

/-- Behind the tokens, a brace is the innermost one that is open. In front of it stand the given
tokens. -/
structure Innermost (tokens front : List Token) (opening : Token) : Prop where
  opens : opening.kind = .openBrace
  inside : ∃ inside, tokens = front ++ opening :: inside ∧ Balanced inside

/-- What the words among tokens have announced. It is the mode of the lexer, computed from the
tokens alone. -/
def announced (tokens : List Token) : Mode :=
  tokens.foldl (fun mode token => mode.behind token.kind token.text) .message

/-- A brace behind the given tokens opens a pattern: it stands outside all others, behind the keys
of a variant, or where a whole message can stand and no sign of an expression follows. -/
structure OpensPattern (template : String) (front : List Token) (opening : Token) : Prop where
  outermost : opening.level = 0
  announced : announced front = .keys ∨ announced front = .message ∧
    ∃ head following, template.toList = head ++ '{' :: following ∧
      byteLength head = opening.offset ∧ following.head?.any isExpressionSign = false

/-- The place of a token behind the tokens before it: how many braces are open there, which of them
is the innermost, and which kinds of tokens may stand there at all. -/
structure Placed (template : String) (before : List Token) (token : Token) : Prop where
  /-- The level counts the braces that are open, one that closes here no longer among them. -/
  level : openings before = closings (before ++ [token]) + token.level
  bounded : token.level ≤ 2
  opens : token.kind = .openBrace → token.level ≤ 1
  closes : token.kind = .closeBrace → (∃ front opening, Innermost before front opening) ∧
    ∀ front opening, Innermost before front opening → opening.level = token.level
  text : token.kind = .text → (∃ front opening, Innermost before front opening) ∧
    ∀ front opening, Innermost before front opening → OpensPattern template front opening
  keyword : token.kind = .keyword → token.level = 0
  eof : token.kind = .eof → Balanced before

/-! ### Balanced tokens -/

variable {tokens front behind : List Token} {token opening closing : Token}

@[simp] theorem openings_append (front behind : List Token) :
    openings (front ++ behind) = openings front + openings behind := List.countP_append

@[simp] theorem closings_append (front behind : List Token) :
    closings (front ++ behind) = closings front + closings behind := List.countP_append

theorem openings_cons (token : Token) (tokens : List Token) :
    openings (token :: tokens) = openings tokens + if token.kind = .openBrace then 1 else 0 := by
  simp [openings, List.countP_cons]

theorem closings_cons (token : Token) (tokens : List Token) :
    closings (token :: tokens) =
      closings tokens + if token.kind = .closeBrace then 1 else 0 := by
  simp [closings, List.countP_cons]

/-- Balanced tokens behind balanced tokens are balanced. -/
theorem Balanced.append (first : Balanced front) (second : Balanced behind) :
    Balanced (front ++ behind) := by
  induction first with
  | nil => exact second
  | cons notOpen notClose _ ih => exact .cons notOpen notClose ih
  | braces opens closes inner _ _ ih =>
      rw [List.cons_append, List.append_assoc, List.cons_append]
      exact .braces opens closes inner ih

/-- Balanced tokens have as many closing as opening braces. The converse fails, since the order
matters too. -/
theorem Balanced.openings_eq (balanced : Balanced tokens) : openings tokens = closings tokens := by
  induction balanced with
  | nil => rfl
  | cons notOpen notClose _ ih => simp [openings_cons, closings_cons, notOpen, notClose, ih]
  | braces opens closes _ _ ih ih' =>
      simp [openings_cons, closings_cons, opens, closes, ih, ih']
      omega

/-- Behind every place in balanced tokens, no more braces open than close. This is the part that
counting alone does not give. -/
theorem Balanced.openings_le (balanced : Balanced tokens) :
    ∀ front behind, tokens = front ++ behind → openings behind ≤ closings behind := by
  induction balanced with
  | nil =>
      intro front behind same
      obtain ⟨rfl, rfl⟩ := List.append_eq_nil_iff.mp same.symm
      exact Nat.le_refl 0
  | @cons token tokens notOpen notClose balanced ih =>
      intro front behind same
      cases front with
      | nil =>
          rw [List.nil_append] at same
          rw [← same, (Balanced.cons notOpen notClose balanced).openings_eq]
      | cons other front => exact ih front behind (List.cons.inj same).2
  | @braces opening closing inside behind opens closes inner outer ih ih' =>
      intro front back same
      cases front with
      | nil =>
          rw [List.nil_append] at same
          rw [← same, (Balanced.braces opens closes inner outer).openings_eq]
      | cons other front =>
          obtain ⟨between, rfl, tail⟩ | ⟨between, rfl, rfl⟩ :=
            List.append_eq_append_iff.mp (List.cons.inj same).2
          · cases between with
            | nil =>
                have even := outer.openings_eq
                rw [← List.nil_append back, ← tail]
                simp [openings_cons, closings_cons, closes, even]
            | cons _ between => exact ih' between back (List.cons.inj tail).2
          · have inside := ih front between rfl
            have even := outer.openings_eq
            simp only [openings_append, closings_append, openings_cons, closings_cons, closes,
              reduceCtorEq, if_true, if_false]
            omega

/-- Only one brace is the innermost one that is open. Of two of them the later one would close
within the balanced tokens behind the earlier one, which leaves a brace too many open. -/
theorem Innermost.unique {front' : List Token} {opening' : Token}
    (first : Innermost tokens front opening) (second : Innermost tokens front' opening') :
    front = front' ∧ opening = opening' := by
  -- of two such braces the outer one would have the inner one, which does not close, inside
  have inner {front front' : List Token} {opening opening' : Token} {inside inside' : List Token}
      (opens : opening'.kind = .openBrace) (balanced : Balanced inside)
      (balanced' : Balanced inside')
      (same : front ++ opening :: inside = front' ++ opening' :: inside') :
      ¬∃ token between, front' = front ++ token :: between := by
    rintro ⟨token, between, rfl⟩
    rw [List.append_assoc, List.cons_append, List.append_cancel_left_eq] at same
    have bound := balanced.openings_le _ _ (List.cons.inj same).2
    rw [openings_cons, closings_cons, opens, balanced'.openings_eq] at bound
    exact Nat.not_succ_le_self _ bound
  obtain ⟨opens, inside, rfl, balanced⟩ := first
  obtain ⟨opens', inside', same, balanced'⟩ := second
  obtain ⟨between, split, tail⟩ | ⟨between, split, tail⟩ := List.append_eq_append_iff.mp same
  · cases between with
    | nil =>
        rw [List.append_nil] at split
        exact ⟨split.symm, (List.cons.inj tail).1⟩
    | cons token between =>
        exact absurd ⟨token, between, split⟩ (inner opens' balanced balanced' same)
  · cases between with
    | nil =>
        rw [List.append_nil] at split
        exact ⟨split, (List.cons.inj tail).1.symm⟩
    | cons token between =>
        exact absurd ⟨token, between, split⟩ (inner opens balanced' balanced same.symm)

/-- Behind the innermost open brace everything closes, so it counts as one more than the braces
before it. -/
theorem Innermost.openings_eq (innermost : Innermost tokens front opening) :
    openings tokens + closings front = closings tokens + openings front + 1 := by
  obtain ⟨opens, inside, rfl, balanced⟩ := innermost
  have even := balanced.openings_eq
  simp [openings_cons, closings_cons, opens]
  omega

/-- A token that is no brace leaves the innermost brace open, and so do braces that close again. -/
theorem Innermost.append (innermost : Innermost tokens front opening)
    (balanced : Balanced behind) : Innermost (tokens ++ behind) front opening := by
  obtain ⟨opens, inside, rfl, inner⟩ := innermost
  exact ⟨opens, inside ++ behind, by simp, inner.append balanced⟩

/-- A brace that closes makes balanced tokens from the innermost open brace on. What was open around
that brace is then open again. -/
theorem Innermost.close (innermost : Innermost tokens front opening)
    (closes : closing.kind = .closeBrace) :
    ∃ braces, tokens ++ [closing] = front ++ braces ∧ Balanced braces := by
  obtain ⟨opens, inside, rfl, inner⟩ := innermost
  exact ⟨opening :: (inside ++ [closing]), by simp, .braces opens closes inner .nil⟩

theorem innermost_append_singleton (opens : opening.kind = .openBrace) (tokens : List Token) :
    Innermost (tokens ++ [opening]) tokens opening := ⟨opens, [], rfl, .nil⟩

theorem announced_append_singleton (tokens : List Token) (token : Token) :
    announced (tokens ++ [token]) = (announced tokens).behind token.kind token.text := by
  simp [announced]

end Token

/-! ### The moves of the lexer -/

/-- The region around the innermost brace of a region. Outside all braces there is no such brace,
and the value there is never used. -/
def Region.outer : Region → Region
  | .outside | .pattern | .loneExpression => .outside
  | .innerExpression => .pattern

theorem Region.level_le_two (region : Region) : region.level ≤ 2 := by
  cases region <;> decide

theorem Region.level_outer {region : Region} (inside : region ≠ .outside) :
    region.outer.level + 1 = region.level := by
  cases region <;> simp [outer, level] at inside ⊢

namespace Context

/-- The ways in which a lexeme leads from one context to the next. This says once what reading a
token can do to the context; the invariant is then kept by cases on these ways and not on the
scanner. -/
inductive Moves : Context → Lexeme → Context → Prop
  | eof {mode : Mode} {lexeme : Lexeme} (kind : lexeme.kind = .eof) :
      Moves ⟨.outside, mode⟩ lexeme ⟨.outside, mode⟩
  | openOutside {mode : Mode} {lexeme : Lexeme} (kind : lexeme.kind = .openBrace) :
      Moves ⟨.outside, mode⟩ lexeme (opened mode lexeme.rest)
  | openInside {mode : Mode} {lexeme : Lexeme} (kind : lexeme.kind = .openBrace) :
      Moves ⟨.pattern, mode⟩ lexeme ⟨.innerExpression, mode⟩
  | close {context : Context} {lexeme : Lexeme} (kind : lexeme.kind = .closeBrace)
      (inside : context.region ≠ .outside) :
      Moves context lexeme ⟨context.region.outer, context.mode⟩
  | keyword {mode : Mode} {lexeme : Lexeme} (kind : lexeme.kind = .keyword) :
      Moves ⟨.outside, mode⟩ lexeme ⟨.outside, mode.behind .keyword lexeme.text⟩
  | text {mode : Mode} {lexeme : Lexeme} (kind : lexeme.kind = .text) :
      Moves ⟨.pattern, mode⟩ lexeme ⟨.pattern, mode⟩
  | stay {context : Context} {lexeme : Lexeme}
      (kind : lexeme.kind ∉ [.eof, .openBrace, .closeBrace, .keyword, .text]) :
      Moves context lexeme context

end Context

theorem Terminal.kind_eq_of_ofKind {kind kind' : Token.Kind} {text text' : String}
    (same : Terminal.ofKind kind text = Terminal.ofKind kind' text') : kind = kind' := by
  cases kind <;> cases kind' <;> simp_all [Terminal.ofKind]

namespace Context

variable {context next : Context} {cs : List Char} {lexeme : Lexeme}

theorem closed_eq (inside : context.isExpression = true) :
    context.closed = ⟨context.region.outer, context.mode⟩ ∧ context.region ≠ .outside := by
  obtain ⟨region, mode⟩ := context
  cases region <;> simp [isExpression, closed, Region.outer] at inside ⊢

/-- A brace that opens outside all others leads one level deep, whatever it opens. -/
theorem level_opened (mode : Mode) (rest : List Char) : (opened mode rest).region.level = 1 := by
  unfold opened
  split
  · split <;> rfl
  · rfl
  · rfl

/-- Every lexeme that is read leads on in one of these ways. The cases are those of the spellings,
the end of the input apart. -/
theorem moves_of_scan (found : context.scan cs = .ok (lexeme, next)) :
    context.Moves lexeme next := by
  rcases spells_of_scan found with ⟨final, outside, rfl⟩ | spells
  · obtain ⟨region, mode⟩ := context
    cases outside
    cases found
    exact .eof rfl
  obtain ⟨kind, text, spelling, rest⟩ := lexeme
  generalize same : Lexeme.terminal ⟨kind, text, spelling, rest⟩ = terminal at spells
  simp only [Lexeme.terminal] at same spells
  cases spells with
  | openOutside => exact .openOutside (@Terminal.kind_eq_of_ofKind _ .openBrace _ "" same)
  | openInside => exact .openInside (@Terminal.kind_eq_of_ofKind _ .openBrace _ "" same)
  | closePattern =>
      exact @Moves.close ⟨.pattern, _⟩ _ (@Terminal.kind_eq_of_ofKind _ .closeBrace _ "" same)
        (by simp)
  | closeExpression inside =>
      obtain ⟨closed, notOutside⟩ := closed_eq inside
      rw [closed]
      exact .close (@Terminal.kind_eq_of_ofKind _ .closeBrace _ "" same) notOutside
  | text => exact .text (@Terminal.kind_eq_of_ofKind _ .text _ _ same)
  | matchWord =>
      obtain ⟨rfl, rfl⟩ := @Terminal.ofKind_inj _ .keyword _ _ (by decide) same
      exact .keyword rfl
  | whenWord =>
      obtain ⟨rfl, rfl⟩ := @Terminal.ofKind_inj _ .keyword _ _ (by decide) same
      exact .keyword rfl
  | signed _ signs =>
      refine .stay ?_
      have signed := terminal_of_sign signs
      cases kind <;> rcases signed with rfl | rfl | rfl | rfl <;>
        simp [Terminal.ofKind] at same ⊢
  | option =>
      obtain rfl := @Terminal.kind_eq_of_ofKind _ .option _ _ same
      exact .stay (by simp)
  | _ =>
      obtain rfl := @Terminal.kind_eq_of_ofKind _ .literal _ _ same
      exact .stay (by simp)

end Context

/-! ### The braces around the lexer -/

open Token

/-- The braces that are open among tokens are those around a region. A pattern remembers that its
brace opens one, an expression the level of its brace. -/
inductive Region.Shows (template : String) : Region → List Token → Prop
  | outside {tokens : List Token} (balanced : Balanced tokens) : Shows template .outside tokens
  | pattern {tokens front : List Token} {opening : Token}
      (innermost : Innermost tokens front opening) (opens : OpensPattern template front opening)
      (outer : Balanced front) : Shows template .pattern tokens
  | loneExpression {tokens front : List Token} {opening : Token}
      (innermost : Innermost tokens front opening) (outermost : opening.level = 0)
      (outer : Balanced front) : Shows template .loneExpression tokens
  | innerExpression {tokens front : List Token} {opening : Token}
      (innermost : Innermost tokens front opening) (level : opening.level = 1)
      (outer : Shows template .pattern front) : Shows template .innerExpression tokens

namespace Region.Shows

variable {template : String} {region : Region} {tokens : List Token} {closing : Token}

/-- The level of a region counts the braces that are open. This links the level that a token carries
with the tokens before it. -/
theorem openings_eq (shows : region.Shows template tokens) :
    openings tokens = closings tokens + region.level := by
  induction shows with
  | outside balanced => exact balanced.openings_eq
  | pattern innermost _ outer =>
      have count := innermost.openings_eq
      rw [outer.openings_eq] at count
      simp only [Region.level]
      omega
  | loneExpression innermost _ outer =>
      have count := innermost.openings_eq
      rw [outer.openings_eq] at count
      simp only [Region.level]
      omega
  | innerExpression innermost _ _ ih =>
      have count := innermost.openings_eq
      simp only [Region.level] at ih ⊢
      omega

/-- Balanced tokens change nothing about the braces that are open. -/
theorem append (shows : region.Shows template tokens) {behind : List Token}
    (balanced : Balanced behind) : region.Shows template (tokens ++ behind) := by
  cases shows with
  | outside outer => exact .outside (outer.append balanced)
  | pattern innermost opens outer => exact .pattern (innermost.append balanced) opens outer
  | loneExpression innermost outermost outer =>
      exact .loneExpression (innermost.append balanced) outermost outer
  | innerExpression innermost level outer =>
      exact .innerExpression (innermost.append balanced) level outer

/-- Inside braces there is an innermost one, with the level outside it, and behind a brace that
closes the region around it shows. -/
theorem innermost (shows : region.Shows template tokens) (inside : region ≠ .outside) :
    ∃ front opening, Innermost tokens front opening ∧ opening.level = region.outer.level ∧
      region.outer.Shows template front := by
  cases shows with
  | outside => exact absurd rfl inside
  | pattern innermost opens outer => exact ⟨_, _, innermost, opens.outermost, .outside outer⟩
  | loneExpression innermost outermost outer => exact ⟨_, _, innermost, outermost, .outside outer⟩
  | innerExpression innermost level outer => exact ⟨_, _, innermost, level, outer⟩

end Region.Shows

namespace Lexer

/-- A lexer has come to its place in the template, and the tokens before tell its context. This is
the invariant of the stream. -/
structure Stands (template : String) (before : List Token) (lexer : Lexer) : Prop where
  joined : ∃ consumed, consumed ++ lexer.rest = template.toList ∧
    byteLength consumed = lexer.offset
  announced : announced before = lexer.context.mode
  shows : lexer.context.region.Shows template before
  keys : lexer.context.mode = .keys → lexer.context.region = .outside

variable {template : String} {before : List Token} {lexer : Lexer}

/-- A token that closes no brace is placed by the region in which it is read. The hypotheses list
what its kind has to say about that region. -/
theorem Stands.placed_of_level {token : Token} (stands : Stands template before lexer)
    (notClose : token.kind ≠ .closeBrace) (level : token.level = lexer.context.region.level)
    (opens : token.kind = .openBrace → token.level ≤ 1)
    (text : token.kind = .text → lexer.context.region = .pattern)
    (outside : token.kind = .keyword ∨ token.kind = .eof → lexer.context.region = .outside) :
    Placed template before token where
  level := by
    rw [stands.shows.openings_eq, level, closings_append, closings_cons, if_neg notClose]
    rfl
  bounded := level ▸ Region.level_le_two _
  opens := opens
  closes closes := absurd closes notClose
  text isText := by
    have shows := stands.shows
    rw [text isText] at shows
    cases shows with
    | pattern innermost opens _ =>
        refine ⟨⟨_, _, innermost⟩, fun front opening other => ?_⟩
        obtain ⟨rfl, rfl⟩ := innermost.unique other
        exact opens
  keyword isKeyword := by rw [level, outside (.inl isKeyword), Region.level]
  eof isEof := by
    have shows := stands.shows
    rw [outside (.inr isEof)] at shows
    obtain ⟨balanced⟩ := shows
    exact balanced

/-- A token that closes a brace is placed by the brace that it closes. Its level is that of the
region outside this brace, not of the one in which it is read. -/
theorem Stands.placed_of_close {token : Token} (stands : Stands template before lexer)
    (closes : token.kind = .closeBrace) (inside : lexer.context.region ≠ .outside)
    (level : token.level + 1 = lexer.context.region.level)
    (outer : token.level = lexer.context.region.outer.level) : Placed template before token where
  level := by
    rw [stands.shows.openings_eq, ← level, closings_append, closings_cons, if_pos closes]
    simp [closings]
    omega
  bounded := outer ▸ Region.level_le_two _
  opens opens := by simp [closes] at opens
  closes _ := by
    obtain ⟨front, opening, innermost, same, _⟩ := stands.shows.innermost inside
    refine ⟨⟨front, opening, innermost⟩, fun front' opening' other => ?_⟩
    obtain ⟨rfl, rfl⟩ := innermost.unique other
    rw [same, outer]
  text text := by simp [closes] at text
  keyword keyword := by simp [closes] at keyword
  eof final := by simp [closes] at final

/-- The next token has its place. A token is placed by its region or, where it closes a brace, by
the brace that it closes. -/
theorem Stands.placed (stands : Stands template before lexer)
    (unfinished : lexer.finished = false) : Placed template before lexer.nextToken.1 := by
  obtain ⟨gap, cs, skipped⟩ : ∃ gap cs, lexer.context.skipBlanks lexer.rest = (gap, cs) :=
    ⟨_, _, rfl⟩
  cases scanned : lexer.context.scan cs with
  | error failure =>
      rw [nextToken_eq_of_fault unfinished skipped scanned]
      exact stands.placed_of_level (by simp) rfl (by simp) (by simp) (by simp)
  | ok result =>
      obtain ⟨lexeme, next⟩ := result
      rw [nextToken_eq_of_scan unfinished skipped scanned]
      have moves := Context.moves_of_scan scanned
      generalize same : lexer.context = context at moves
      cases moves with
      | eof kind =>
          exact stands.placed_of_level (by simp [kind]) (by simp [same]) (by simp [kind])
            (by simp [kind]) (by simp [same])
      | openOutside kind =>
          refine stands.placed_of_level (by simp [kind]) ?_ ?_ (by simp [kind]) (by simp [kind])
          · simp [same, Region.level]
          · exact fun _ => (Nat.min_le_right _ _).trans (Context.level_opened _ _).le
      | openInside kind =>
          refine stands.placed_of_level (by simp [kind]) ?_ ?_ (by simp [kind]) (by simp [kind])
          · simp [same, Region.level]
          · simp [Region.level]
      | close kind inside =>
          have outer := Region.level_outer inside
          subst same
          refine stands.placed_of_close kind inside ?_ ?_
          · simp only
            omega
          · simp only
            omega
      | keyword kind =>
          exact stands.placed_of_level (by simp [kind]) (by simp [same]) (by simp [kind])
            (by simp [kind]) (by simp [same])
      | text kind =>
          exact stands.placed_of_level (by simp [kind]) (by simp [same]) (by simp [kind])
            (by simp [same]) (by simp [kind])
      | stay kind =>
          simp only [List.mem_cons, List.not_mem_nil, or_false, not_or] at kind
          obtain ⟨final, opens, closes, keyword, text⟩ := kind
          refine stands.placed_of_level closes ?_ (by simp [opens]) (by simp [text]) ?_
          · simp [same]
          · simp [final, keyword]

/-- A brace that opens outside all others shows as the lexer takes it. What it opens is decided by
the mode and, for a whole message, by the character behind it. -/
theorem Stands.shows_opened {opening : Token} {head following : List Char}
    (stands : Stands template before lexer) (outside : lexer.context.region = .outside)
    (opens : opening.kind = .openBrace) (level : opening.level = 0)
    (split : template.toList = head ++ '{' :: following)
    (place : byteLength head = opening.offset) :
    (Context.opened lexer.context.mode following).region.Shows template (before ++ [opening]) := by
  have innermost := innermost_append_singleton opens before
  have announced := stands.announced
  have shows := stands.shows
  rw [outside] at shows
  obtain ⟨balanced⟩ := shows
  unfold Context.opened
  split
  · rename_i mode
    rw [mode] at announced
    split
    · exact .loneExpression innermost level balanced
    · rename_i plain
      rw [Bool.not_eq_true] at plain
      exact .pattern innermost
        ⟨level, .inr ⟨announced, head, following, split, place, plain⟩⟩ balanced
  · exact .loneExpression innermost level balanced
  · rename_i mode
    rw [mode] at announced
    exact .pattern innermost ⟨level, .inl announced⟩ balanced

theorem spelling_of_openBrace {text : String} {spelling : List Char}
    (spelled : Token.Spelled .openBrace text spelling) : spelling = ['{'] := by
  cases spelled with
  | openBrace => rfl
  | signed signs => simp [Token.Kind.sign?] at signs

/-- What the words and braces have announced is the mode behind the next token, and only outside all
braces keys are announced. -/
theorem mode_of_moves {context next : Context} {lexeme : Lexeme}
    (moves : context.Moves lexeme next) (keys : context.mode = .keys → context.region = .outside) :
    next.mode = context.mode.behind lexeme.kind lexeme.text ∧
      (next.mode = .keys → next.region = .outside) := by
  cases moves with
  | eof kind => simp [Mode.behind, kind]
  | @openOutside mode lexeme kind =>
      cases mode with
      | message =>
          simp only [Context.opened, Mode.behind, kind]
          split <;> simp
      | selectors => simp [Context.opened, Mode.behind, kind]
      | keys => simp [Context.opened, Mode.behind, kind]
  | @openInside mode lexeme kind =>
      have notKeys : mode ≠ .keys := by simpa using keys
      simp [Mode.behind, kind, notKeys]
  | close kind inside =>
      refine ⟨by simp [Mode.behind, kind], fun mode => ?_⟩
      exact absurd (keys mode) inside
  | keyword kind => simp [Mode.behind, kind]
  | text kind =>
      refine ⟨by simp [Mode.behind, kind], fun mode => ?_⟩
      exact absurd (keys mode) (by simp)
  | stay kind =>
      refine ⟨?_, keys⟩
      simp only [List.mem_cons, List.not_mem_nil, or_false, not_or] at kind
      obtain ⟨_, opens, _, keyword, _⟩ := kind
      unfold Mode.behind
      split
      · exact absurd ‹_› keyword
      · exact absurd ‹_› opens
      · rfl

/-- The braces that are open behind the next token are those around the next region, by cases on the
way in which the token moves the context. -/
theorem Stands.shows_next {gap cs : List Char} {lexeme : Lexeme} {next : Context} {token : Token}
    (stands : Stands template before lexer)
    (skipped : lexer.context.skipBlanks lexer.rest = (gap, cs))
    (scanned : lexer.context.scan cs = .ok (lexeme, next)) (notEnd : lexeme.kind ≠ .eof)
    (kind : token.kind = lexeme.kind) (offset : token.offset = lexer.offset + byteLength gap)
    (level : token.level = min lexer.context.region.level next.region.level) :
    next.region.Shows template (before ++ [token]) := by
  obtain ⟨_, joined⟩ := Context.reads_of_scan skipped scanned notEnd
  have spelled := Context.spelled_of_scan scanned
  have moves := Context.moves_of_scan scanned
  have plain (notOpen : lexeme.kind ≠ .openBrace) (notClose : lexeme.kind ≠ .closeBrace) :
      Balanced [token] := .cons (kind ▸ notOpen) (kind ▸ notClose) .nil
  generalize same : lexer.context = context at moves level
  cases moves with
  | eof final => exact absurd final notEnd
  | openOutside opens =>
      rw [opens] at spelled
      obtain ⟨consumed, split, place⟩ := stands.joined
      rw [← joined, spelling_of_openBrace spelled, List.append_assoc, ← List.append_assoc] at split
      rw [Context.level_opened] at level
      have shows := stands.shows_opened (by rw [same]) (kind.trans opens) level split.symm
        (by rw [offset, ← place, byteLength_append])
      rwa [same] at shows
  | openInside opens =>
      have shows := stands.shows
      rw [same] at shows
      exact .innerExpression (innermost_append_singleton (kind.trans opens) before) level shows
  | close closes inside =>
      subst same
      obtain ⟨front, opening, innermost, _, outer⟩ := stands.shows.innermost inside
      obtain ⟨braces, split, balanced⟩ := innermost.close (kind.trans closes)
      rw [split]
      exact outer.append balanced
  | keyword word =>
      have shows := stands.shows
      rw [same] at shows
      exact shows.append (plain (by simp [word]) (by simp [word]))
  | text text =>
      have shows := stands.shows
      rw [same] at shows
      exact shows.append (plain (by simp [text]) (by simp [text]))
  | stay other =>
      subst same
      simp only [List.mem_cons, List.not_mem_nil, or_false, not_or] at other
      exact stands.shows.append (plain other.2.1 other.2.2.1)

/-- Behind the next token, unless it is the last one, the lexer stands again: one step of the
invariant. -/
theorem Stands.next (stands : Stands template before lexer) (unfinished : lexer.finished = false)
    (unfinished' : lexer.nextToken.2.finished = false) :
    Stands template (before ++ [lexer.nextToken.1]) lexer.nextToken.2 := by
  obtain ⟨gap, cs, skipped⟩ : ∃ gap cs, lexer.context.skipBlanks lexer.rest = (gap, cs) :=
    ⟨_, _, rfl⟩
  cases scanned : lexer.context.scan cs with
  | error failure =>
      rw [nextToken_eq_of_fault unfinished skipped scanned] at unfinished'
      simp at unfinished'
  | ok result =>
      obtain ⟨lexeme, next⟩ := result
      have read := nextToken_eq_of_scan unfinished skipped scanned
      have notEnd : lexeme.kind ≠ .eof := by simpa [read] using unfinished'
      obtain ⟨_, joined⟩ := Context.reads_of_scan skipped scanned notEnd
      obtain ⟨mode, keys⟩ := mode_of_moves (Context.moves_of_scan scanned) stands.keys
      obtain ⟨consumed, split, place⟩ := stands.joined
      rw [read]
      refine ⟨⟨consumed ++ gap ++ lexeme.spelling, ?_, ?_⟩, ?_, ?_, keys⟩
      · rw [← split, ← joined]
        simp
      · simp only [byteLength_append, place]
      · rw [announced_append_singleton, stands.announced, mode]
      · exact stands.shows_next skipped scanned notEnd rfl rfl rfl

/-- Every token that the stream still has is in its place, by induction over the tokens in front of
it. -/
theorem Stands.placed_later {inside after : List Token} {token : Token}
    (stands : Stands template before lexer) (read : lexer.tokens = inside ++ token :: after) :
    Placed template (before ++ inside) token := by
  have unfinished {lexer : Lexer} {inside : List Token}
      (read : lexer.tokens = inside ++ token :: after) : lexer.finished = false := by
    rw [← Bool.not_eq_true]
    intro finished
    simp [tokens_of_finished finished] at read
  induction inside generalizing before lexer with
  | nil =>
      have goesOn := unfinished read
      rw [tokens_of_unfinished goesOn] at read
      obtain ⟨rfl, _⟩ := List.cons.inj read
      rw [List.append_nil]
      exact stands.placed goesOn
  | cons first inside ih =>
      have goesOn := unfinished read
      rw [tokens_of_unfinished goesOn] at read
      rw [List.cons_append, List.cons.injEq] at read
      obtain ⟨rfl, read⟩ := read
      rw [List.append_cons]
      exact ih (stands.next goesOn (unfinished read)) read

/-- Every token of a template is in its place among the braces. This covers every token of every
stream, also of one that ends with an error. -/
theorem placed_of_tokens {before after : List Token} {token : Token}
    (read : (ofString template).tokens = before ++ token :: after) :
    Placed template before token := by
  have stands : Stands template [] (ofString template) :=
    ⟨⟨[], rfl, rfl⟩, rfl, .outside .nil, by simp [ofString]⟩
  exact stands.placed_later read

/-- The text behind an expression is directly inside the pattern that a variant opens. -/
theorem placed_text_in_variant :
    (ofString "match \x7b$n\x7d when * \x7b\x7b$n\x7d a\x7d").tokens =
        [⟨.keyword, "match", 0, 0⟩, ⟨.openBrace, "\x7b", 6, 0⟩, ⟨.variable, "n", 7, 1⟩,
          ⟨.closeBrace, "\x7d", 9, 0⟩, ⟨.keyword, "when", 11, 0⟩, ⟨.literal, "*", 16, 0⟩,
          ⟨.openBrace, "\x7b", 18, 0⟩, ⟨.openBrace, "\x7b", 19, 1⟩, ⟨.variable, "n", 20, 2⟩,
          ⟨.closeBrace, "\x7d", 22, 1⟩] ++ ⟨.text, " a", 23, 1⟩ ::
            [⟨.closeBrace, "\x7d", 25, 0⟩, ⟨.eof, "", 26, 0⟩] ∧
      Placed "match \x7b$n\x7d when * \x7b\x7b$n\x7d a\x7d"
        [⟨.keyword, "match", 0, 0⟩, ⟨.openBrace, "\x7b", 6, 0⟩, ⟨.variable, "n", 7, 1⟩,
          ⟨.closeBrace, "\x7d", 9, 0⟩, ⟨.keyword, "when", 11, 0⟩, ⟨.literal, "*", 16, 0⟩,
          ⟨.openBrace, "\x7b", 18, 0⟩, ⟨.openBrace, "\x7b", 19, 1⟩, ⟨.variable, "n", 20, 2⟩,
          ⟨.closeBrace, "\x7d", 22, 1⟩] ⟨.text, " a", 23, 1⟩ := by
  have read : (ofString "match \x7b$n\x7d when * \x7b\x7b$n\x7d a\x7d").tokens =
      [⟨.keyword, "match", 0, 0⟩, ⟨.openBrace, "\x7b", 6, 0⟩, ⟨.variable, "n", 7, 1⟩,
        ⟨.closeBrace, "\x7d", 9, 0⟩, ⟨.keyword, "when", 11, 0⟩, ⟨.literal, "*", 16, 0⟩,
        ⟨.openBrace, "\x7b", 18, 0⟩, ⟨.openBrace, "\x7b", 19, 1⟩, ⟨.variable, "n", 20, 2⟩,
        ⟨.closeBrace, "\x7d", 22, 1⟩] ++ ⟨.text, " a", 23, 1⟩ ::
          [⟨.closeBrace, "\x7d", 25, 0⟩, ⟨.eof, "", 26, 0⟩] := by
    decide +kernel
  exact ⟨read, placed_of_tokens read⟩

end Lexer

end MessageTemplate
