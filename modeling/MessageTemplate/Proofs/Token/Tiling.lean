import Mathlib.Data.List.Chain
import MessageTemplate.Proofs.Token.Segment

/-! # Tokens tile the input

A token lies in the template with the characters that spell it at its offset, behind blanks that
are skipped. The tokens of a template lie side by side and leave nothing out, up to its end or up
to the place where no token can be read (`MessageTemplate.Token.tokenize_eq_tiles`).
-/

namespace MessageTemplate

/-- The sign in front of the name that a token of the kind carries. -/
def Token.Kind.sign? : Token.Kind → Option Char
  | .variable => some '$'
  | .function => some ':'
  | .markupOpen => some '+'
  | .markupClose => some '-'
  | _ => none

/-- The characters that spell a token of a kind with a text. Only literals, names behind a sign and
options differ from their text: a quoted literal has its bars and backslashes, a name its sign, and
an option may have blanks around the equals sign. -/
inductive Token.Spelled : Token.Kind → (text : String) → (spelling : List Char) → Prop
  | eof : Spelled .eof "" []
  | openBrace : Spelled .openBrace "\x7b" ['{']
  | closeBrace : Spelled .closeBrace "\x7d" ['}']
  | text {value : List Char} : Spelled .text (String.ofList value) value
  | keyword {word : List Char} : Spelled .keyword (String.ofList word) word
  | literal {value : List Char} (bare : value.head? ≠ some '|') :
      Spelled .literal (String.ofList value) value
  | quoted {inside : List Char} (hidden : hides (· = '|') inside = true) :
      Spelled .literal (String.ofList (unescapeChars inside)) ('|' :: inside ++ ['|'])
  | signed {kind : Token.Kind} {sign : Char} {name : List Char} (signs : kind.sign? = some sign) :
      Spelled kind (String.ofList name) (sign :: name)
  | option {name gap gap' value : List Char} (named : isNameChars name = true)
      (blank : ∀ c ∈ gap, isBlank c = true) (blank' : ∀ c ∈ gap', isBlank c = true)
      (valued : Lexeme.isOptionValue value = true) :
      Spelled .option (String.ofList (name ++ '=' :: value)) (name ++ gap ++ '=' :: gap' ++ value)

/-- Of all terminals only the end of the input and the braces have no text of their own. Any other
terminal therefore fixes both the kind and the text of its token. -/
theorem Terminal.ofKind_inj {kind kind' : Token.Kind} {text text' : String}
    (carried : kind' ∉ [.eof, .openBrace, .closeBrace])
    (same : Terminal.ofKind kind text = Terminal.ofKind kind' text') :
    kind = kind' ∧ text = text' := by
  cases kind' <;> cases kind <;> simp_all [Terminal.ofKind]

/-- A name behind its sign spells the token whose terminal the sign makes of it. The relation on
terminals keeps the four signs apart by their constructors, this one by the kind of the token. -/
theorem Token.Spelled.of_sign {kind : Token.Kind} {text : String} {sign : Char}
    {make : String → Terminal} {name : List Char} (signs : signTerminal? sign = some make)
    (same : Terminal.ofKind kind text = make (String.ofList name)) :
    Token.Spelled kind text (sign :: name) := by
  unfold signTerminal? at signs
  split at signs <;> cases signs
  · obtain ⟨rfl, rfl⟩ := @Terminal.ofKind_inj _ .variable _ _ (by decide) same
    exact .signed rfl
  · obtain ⟨rfl, rfl⟩ := @Terminal.ofKind_inj _ .function _ _ (by decide) same
    exact .signed rfl
  · obtain ⟨rfl, rfl⟩ := @Terminal.ofKind_inj _ .markupOpen _ _ (by decide) same
    exact .signed rfl
  · obtain ⟨rfl, rfl⟩ := @Terminal.ofKind_inj _ .markupClose _ _ (by decide) same
    exact .signed rfl

/-- A number does not start with the bar of a quoted literal, so the two ways to spell a literal
cannot be confused. -/
theorem head?_ne_bar_of_number {number rest : List Char}
    (start : startsNumber (number ++ rest) = true)
    (taken : spanNumber (number ++ rest) = (number, rest)) : number.head? ≠ some '|' := by
  have nonempty : number ≠ [] := by simpa [taken] using spanNumber_ne_nil start
  obtain ⟨c, cs, spelled, first⟩ := exists_cons_of_startsNumber start
  have other : c ≠ '|' := by
    rcases first with rfl | digit
    · decide
    · exact ne_of_kind digit (by decide)
  rw [← List.head?_append_of_ne_nil number nonempty, spelled]
  simpa using other

/-- A token with the characters that spell it and those skipped in front of them. Tiles carry all
characters of the input, tokens only what they mean. -/
structure Tile where
  gap : List Char
  spelling : List Char
  token : Token
  deriving DecidableEq, Repr

/-- All the characters of a tile, in the order in which they stand in the input. -/
def Tile.chars (tile : Tile) : List Char := tile.gap ++ tile.spelling

/-- The characters that tiles cover, laid side by side. -/
def covered (tiles : List Tile) : List Char := tiles.flatMap Tile.chars

@[simp] theorem covered_nil : covered [] = [] := rfl

@[simp] theorem covered_cons (tile : Tile) (tiles : List Tile) :
    covered (tile :: tiles) = tile.gap ++ tile.spelling ++ covered tiles := rfl

/-- A tile that fits a byte offset shows its token where its gap ends. A text has no gap in front of
it, since a pattern skips no blanks. -/
structure Tile.Fits (tile : Tile) (start : Nat) : Prop where
  blank : ∀ c ∈ tile.gap, isBlank c = true
  spelled : Token.Spelled tile.token.kind tile.token.text tile.spelling
  placed : tile.token.offset = start + byteLength tile.gap
  beforeText : tile.token.kind = .text → tile.gap = []

/-- Tiles laid side by side from a byte offset on, without a gap behind a text. Each tile starts
where those in front of it end. -/
structure Tiling (start : Nat) (tiles : List Tile) : Prop where
  fits : ∀ front tile back, tiles = front ++ tile :: back →
    tile.Fits (start + byteLength (covered front))
  behindText : tiles.IsChain fun left right => left.token.kind = .text → right.gap = []

/-- The bytes counted character by character are those of the string, so that the offsets here are
the positions of strings. -/
theorem byteLength_eq_utf8ByteSize (cs : List Char) :
    byteLength cs = (String.ofList cs).utf8ByteSize := by
  induction cs with
  | nil => rfl
  | cons c cs ih =>
      rw [byteLength_cons, ih, String.ofList_cons, String.utf8ByteSize_append,
        String.utf8ByteSize_singleton]

/-! ### What a scanner passes -/

namespace Lexeme

variable {cs : List Char} {failure : Failure}

/-- A text that has no end has been read to the end of the input, and not further. The other
scanners have a lemma of the same form, and each fault is met within what they read. -/
theorem consumed_of_scanText (failed : scanText cs = .error failure) :
    failure.consumed <+: cs := by
  unfold scanText at failed
  split at failed
  · simp at failed
  · cases failed
    simp [Failure.consumed, Token.Fault.taken]
  · cases failed
    simp [Failure.consumed, Token.Fault.taken]

/-- A quoted literal that has no end has been read to the end of the input, its opening bar
included. -/
theorem consumed_of_scanQuoted {bar : Char} (failed : scanQuoted bar cs = .error failure) :
    failure.consumed <+: bar :: cs := by
  unfold scanQuoted at failed
  split at failed
  · simp at failed
  · cases failed
    simp [Failure.consumed, Token.Fault.taken]

/-- Where a sign has no name behind it, the sign alone has been read. -/
theorem consumed_of_scanName {kind : Token.Kind} {sign : Char}
    (failed : scanName kind sign cs = .error failure) : failure.consumed <+: sign :: cs := by
  unfold scanName at failed
  split at failed
  · cases failed
    exact List.prefix_rfl
  · split at failed
    · simp at failed
    · cases failed
      exact ⟨_, rfl⟩

/-- Of an option that goes wrong, the name, the blanks and the equals sign have been read as far as
they are there, and the value when it is one that cannot stand. -/
theorem consumed_of_scanOption (failed : scanOption cs = .error failure) :
    failure.consumed <+: cs := by
  have behindName := List.takeWhile_append_dropWhile (p := isBlank) (l := (spanName cs).2)
  have joined := spanName_append cs
  rw [← behindName] at joined
  simp only [scanOption] at failed
  split at failed
  · rename_i afterEquals dropped
    have behindSign := List.takeWhile_append_dropWhile (p := isBlank) (l := afterEquals)
    have behindValue := spanName_append (afterEquals.dropWhile isBlank)
    split at failed
    · simp at failed
    · split at failed
      · cases failed
        refine ⟨afterEquals.dropWhile isBlank, ?_⟩
        simp [Failure.consumed, Token.Fault.taken, behindSign, ← dropped]
      · cases failed
        refine ⟨(spanName (afterEquals.dropWhile isBlank)).2, ?_⟩
        simp [Failure.consumed, Token.Fault.taken, behindValue, behindSign, ← dropped]
  · cases failed
    refine ⟨(spanName cs).2.dropWhile isBlank, ?_⟩
    simp [Failure.consumed, Token.Fault.taken]

end Lexeme

namespace Context

variable {context next : Context} {cs : List Char} {lexeme : Lexeme} {failure : Lexeme.Failure}

/-- A fault met within a context is the fault of the scanner that was asked. -/
theorem stay_eq_error {scan : Lexeme.Scan} (failed : stay context scan = .error failure) :
    scan = .error failure := by
  cases scan with
  | error other =>
      simp only [stay, Except.map, Except.error.injEq] at failed
      rw [failed]
  | ok lexeme => simp [stay, Except.map] at failed

theorem consumed_of_scanWord {mode : Mode} (failed : scanWord mode cs = .error failure) :
    failure.consumed <+: cs := by
  simp only [scanWord] at failed
  (repeat' split at failed) <;> cases failed
  exact ⟨(spanName cs).2, by simp [Lexeme.Failure.consumed, Token.Fault.taken]⟩

/-- Outside all braces a fault is met at the next character, in a word or in a literal. -/
theorem consumed_of_scanOutside {mode : Mode} (failed : scanOutside mode cs = .error failure) :
    failure.consumed <+: cs := by
  unfold scanOutside at failed
  split at failed
  · simp at failed
  · simp at failed
  · cases failed
    exact List.nil_prefix
  · split at failed
    · cases stay_eq_error failed
    · split at failed
      · exact Lexeme.consumed_of_scanQuoted (stay_eq_error failed)
      · split at failed
        · cases stay_eq_error failed
        · split at failed
          · exact consumed_of_scanWord failed
          · cases failed
            exact List.nil_prefix

/-- In an expression a fault is met at the next character or in one of its parts. -/
theorem consumed_of_scanExpression {outer : Context}
    (failed : scanExpression context outer cs = .error failure) : failure.consumed <+: cs := by
  unfold scanExpression at failed
  split at failed
  case h_2 => simp at failed
  case h_4 => exact Lexeme.consumed_of_scanName (stay_eq_error failed)
  case h_5 => exact Lexeme.consumed_of_scanName (stay_eq_error failed)
  case h_6 => exact Lexeme.consumed_of_scanName (stay_eq_error failed)
  case h_7 => exact Lexeme.consumed_of_scanQuoted (stay_eq_error failed)
  case h_8 =>
    split at failed
    · cases stay_eq_error failed
    · split at failed
      · rename_i hyphen
        exact hyphen ▸ Lexeme.consumed_of_scanName (stay_eq_error failed)
      · split at failed
        · exact Lexeme.consumed_of_scanOption (stay_eq_error failed)
        · cases failed
          exact List.nil_prefix
  all_goals
    cases failed
    exact List.nil_prefix

/-- What has been read where no token can be read lies within the characters that are left. This is
the bound that keeps the offset of an error token inside the input. -/
theorem consumed_of_scan (failed : context.scan cs = .error failure) :
    failure.consumed <+: cs := by
  unfold scan at failed
  split at failed
  · exact consumed_of_scanOutside failed
  · unfold scanPattern at failed
    split at failed
    · cases failed
      exact List.nil_prefix
    · simp at failed
    · simp at failed
    · exact Lexeme.consumed_of_scanText (stay_eq_error failed)
  · exact consumed_of_scanExpression failed
  · exact consumed_of_scanExpression failed

/-- A place where no token can be read lies within the characters that are left. -/
theorem passed_of_scan (failed : context.scan cs = .error failure) : failure.passed <+: cs :=
  (List.prefix_append _ _).trans (consumed_of_scan failed)

/-- The characters that are read as a lexeme spell a token of its kind with its text. The cases are
those of the spellings of terminals. -/
theorem spelled_of_scan (found : context.scan cs = .ok (lexeme, next)) :
    Token.Spelled lexeme.kind lexeme.text lexeme.spelling := by
  rcases spells_of_scan found with ⟨_, outside, rfl⟩ | spells
  · rw [scan, outside] at found
    cases found
    exact .eof
  rcases splits_scan found with ⟨final, _⟩ | splits
  · exact absurd final (Lexeme.kind_ne_eof spells.isLast_eq_false)
  obtain ⟨rfl, _⟩ := splits
  obtain ⟨kind, text, spelling, rest⟩ := lexeme
  generalize same : Lexeme.terminal ⟨kind, text, spelling, rest⟩ = terminal at spells
  simp only [Lexeme.terminal] at same found spells ⊢
  -- a brace keeps its text in the lexeme only, the other terminals carry it
  cases spells with
  | openOutside =>
      cases found
      exact .openBrace
  | openInside =>
      cases found
      exact .openBrace
  | closePattern =>
      cases found
      exact .closeBrace
  | closeExpression inside =>
      rw [(isExpression_cases inside).1] at found
      cases found
      exact .closeBrace
  | text =>
      obtain ⟨rfl, rfl⟩ := @Terminal.ofKind_inj _ .text _ _ (by decide) same
      exact .text
  | matchWord =>
      obtain ⟨rfl, rfl⟩ := @Terminal.ofKind_inj _ .keyword _ _ (by decide) same
      exact @Token.Spelled.keyword MessageTemplate.matchWord.toList
  | whenWord =>
      obtain ⟨rfl, rfl⟩ := @Terminal.ofKind_inj _ .keyword _ _ (by decide) same
      exact @Token.Spelled.keyword MessageTemplate.whenWord.toList
  | catchAll =>
      obtain ⟨rfl, rfl⟩ := @Terminal.ofKind_inj _ .literal _ _ (by decide) same
      exact .literal (by decide)
  | bareKey shape =>
      obtain ⟨rfl, rfl⟩ := @Terminal.ofKind_inj _ .literal _ _ (by decide) same
      obtain ⟨c, cs, rfl, start⟩ := exists_cons_of_isNameChars shape
      exact .literal (by simpa using ne_of_kind start (by decide))
  | number _ start taken =>
      obtain ⟨rfl, rfl⟩ := @Terminal.ofKind_inj _ .literal _ _ (by decide) same
      exact .literal (head?_ne_bar_of_number start taken)
  | quoted _ hidden =>
      obtain ⟨rfl, rfl⟩ := @Terminal.ofKind_inj _ .literal _ _ (by decide) same
      exact .quoted hidden
  | signed _ signs => exact .of_sign signs same
  | option _ shape _ blank blank' _ valueShape =>
      obtain ⟨rfl, rfl⟩ := @Terminal.ofKind_inj _ .option _ _ (by decide) same
      exact .option shape blank blank' valueShape

end Context

/-! ### Laying tiles -/

theorem Tiling.nil (start : Nat) : Tiling start [] :=
  ⟨fun front tile back same => by simp at same, .nil⟩

/-- A tile that fits in front of a tiling extends it, as long as no gap opens behind a text. The
tilings of the stream are built from its end by this step. -/
theorem Tiling.cons {start : Nat} {tile : Tile} {tiles : List Tile} (fits : tile.Fits start)
    (behind : tile.token.kind = .text → ∀ right ∈ tiles.head?, right.gap = [])
    (tiling : Tiling (start + byteLength tile.chars) tiles) : Tiling start (tile :: tiles) := by
  refine ⟨?_, List.isChain_cons.mpr ⟨fun right next text => behind text right next,
    tiling.behindText⟩⟩
  intro front other back same
  cases front with
  | nil =>
      obtain ⟨rfl, _⟩ := List.cons.inj same
      exact fits
  | cons first front =>
      obtain ⟨rfl, behindFirst⟩ := List.cons.inj same
      have later := tiling.fits front other back behindFirst
      rwa [Nat.add_assoc, ← byteLength_append] at later

theorem Token.Spelled.kind_ne_error {kind : Token.Kind} {text : String} {spelling : List Char}
    (spelled : Token.Spelled kind text spelling) : kind ≠ .error := by
  rintro rfl
  cases spelled with
  | signed signs => simp [Token.Kind.sign?] at signs

/-- So no token of a tiling is an error. -/
theorem Tiling.kind_ne_error {start : Nat} {tiles : List Tile} (tiling : Tiling start tiles) :
    ∀ token ∈ tiles.map Tile.token, token.kind ≠ .error := by
  intro token member
  obtain ⟨tile, present, rfl⟩ := List.mem_map.mp member
  obtain ⟨front, back, same⟩ := List.append_of_mem present
  exact (tiling.fits front tile back same).spelled.kind_ne_error

namespace Context

variable {context next : Context} {spelling rest : List Char}

/-- Texts are read in patterns only, and the pattern goes on behind them. The next tile therefore
has no gap. -/
theorem Spells.region_of_text {value : String}
    (spells : context.Spells spelling rest (.text value) next) :
    context.region = .pattern ∧ next.region = .pattern := by
  generalize same : Terminal.text value = terminal at spells
  cases spells with
  | text => exact ⟨rfl, rfl⟩
  | signed _ signs => rcases terminal_of_sign signs with rfl | rfl | rfl | rfl <;> cases same
  | _ => cases same

/-- Everything in a gap is blank, and where the context skips nothing the gap is empty. -/
theorem blank_of_skipBlanks {chars gap cs : List Char}
    (skipped : context.skipBlanks chars = (gap, cs)) : ∀ c ∈ gap, isBlank c = true := by
  unfold skipBlanks at skipped
  split at skipped
  · simp [← (Prod.mk.inj skipped).1]
  · rw [← (Prod.mk.inj skipped).1]
    exact fun _ => List.mem_takeWhile_imp

theorem gap_of_pattern {chars gap cs : List Char}
    (skipped : context.skipBlanks chars = (gap, cs)) (inside : context.region = .pattern) :
    gap = [] := by
  rw [skipBlanks, if_pos inside] at skipped
  exact (Prod.mk.inj skipped).1.symm

end Context

namespace Lexer

variable {lexer : Lexer} {gap cs : List Char}

/-- Tiles cover what the lexer has left, up to the end of the input. This is one of the two ways in
which a stream ends. -/
def EndsWell (lexer : Lexer) (tiles : List Tile) : Prop :=
  lexer.tokens = tiles.map Tile.token ∧ covered tiles = lexer.rest ∧
    lexer.tokens.getLast? = some ⟨.eof, "", lexer.size, 0⟩

/-- Tiles cover what the lexer has left, up to or before a place where no token can be read. Some
characters may have been passed between the last tile and that place. -/
def EndsBadly (lexer : Lexer) (tiles : List Tile) (failed : Token) : Prop :=
  lexer.tokens = tiles.map Tile.token ++ [failed] ∧ failed.kind = .error ∧
    ∃ passed rest, covered tiles ++ passed ++ rest = lexer.rest ∧
      failed.offset = lexer.offset + byteLength (covered tiles ++ passed)

/-- Where no token can be read, the stream ends with an error within what is left. The error token
is the last one, and no tile stands in front of it. -/
theorem tokens_of_fault {failure : Lexeme.Failure} (unfinished : lexer.finished = false)
    (skipped : lexer.context.skipBlanks lexer.rest = (gap, cs))
    (scanned : lexer.context.scan cs = .error failure) :
    ∃ failed, lexer.EndsBadly [] failed := by
  obtain ⟨rest, behind⟩ := Context.passed_of_scan scanned
  have joined := lexer.context.skipBlanks_append lexer.rest
  rw [skipped] at joined
  refine ⟨lexer.nextToken.1, ?_, ?_, gap ++ failure.passed, rest, ?_, ?_⟩
  · rw [tokens_of_unfinished unfinished, tokens_of_finished]
    · rfl
    · rw [nextToken_eq_of_fault unfinished skipped scanned]
  · rw [nextToken_eq_of_fault unfinished skipped scanned]
  · rw [covered_nil, List.nil_append, List.append_assoc, behind, joined]
  · rw [nextToken_eq_of_fault unfinished skipped scanned, covered_nil, List.nil_append,
      byteLength_append, Nat.add_assoc]

/-- A lexeme that is read fits as a tile where the lexer stands. The level is left open, since tiles
do not speak about it. -/
theorem fits_of_scan {lexeme : Lexeme} {next : Context} {level : Nat}
    (skipped : lexer.context.skipBlanks lexer.rest = (gap, cs))
    (scanned : lexer.context.scan cs = .ok (lexeme, next)) :
    Tile.Fits ⟨gap, lexeme.spelling,
      ⟨lexeme.kind, lexeme.text, lexer.offset + byteLength gap, level⟩⟩ lexer.offset := by
  refine ⟨Context.blank_of_skipBlanks skipped, Context.spelled_of_scan scanned, rfl, ?_⟩
  intro text
  simp only at text
  rcases Context.spells_of_scan scanned with ⟨final, _⟩ | spells
  · simp [final] at text
  · rw [Lexeme.terminal, text] at spells
    exact Context.gap_of_pattern skipped spells.region_of_text.1

/-- Where the end of the input is read, it is all that the stream still has. -/
theorem endsWell_of_eof {lexeme : Lexeme} {next : Context} (unfinished : lexer.finished = false)
    (skipped : lexer.context.skipBlanks lexer.rest = (gap, cs))
    (scanned : lexer.context.scan cs = .ok (lexeme, next)) (final : lexeme.kind = .eof) :
    lexer.EndsWell [⟨gap, lexeme.spelling, lexer.nextToken.1⟩] := by
  have joined := lexer.context.skipBlanks_append lexer.rest
  have read := nextToken_eq_of_scan unfinished skipped scanned
  rcases Context.spells_of_scan scanned with ⟨_, outside, rfl⟩ | spells
  · rw [Context.scan, outside] at scanned
    cases scanned
    have alone : lexer.tokens = [lexer.nextToken.1] := by
      rw [tokens_of_unfinished unfinished, tokens_of_finished]
      rw [read]
      rfl
    rw [skipped, List.append_nil] at joined
    refine ⟨alone, by simpa [Lexeme.verbatim] using joined, ?_⟩
    rw [alone, read, size, ← joined, outside]
    rfl
  · exact absurd final (Lexeme.kind_ne_eof spells.isLast_eq_false)

section Step

/-! A tile in front of those that the next lexer has left. -/

variable {tile : Tile} {tiles : List Tile} (unfinished : lexer.finished = false)
  (read : tile.token = lexer.nextToken.1)
  (joined : tile.gap ++ tile.spelling ++ lexer.nextToken.2.rest = lexer.rest)
  (offset : lexer.nextToken.2.offset = lexer.offset + byteLength tile.chars)

include unfinished read joined offset

/-- When the stream ends well behind the next token, it ends well. -/
theorem EndsWell.cons (ended : lexer.nextToken.2.EndsWell tiles) :
    lexer.EndsWell (tile :: tiles) := by
  obtain ⟨tokens, rest, last⟩ := ended
  have sameSize : lexer.nextToken.2.size = lexer.size := by
    simp only [size, offset, ← joined, Tile.chars, byteLength_append, Nat.add_assoc]
  refine ⟨?_, by rw [covered_cons, rest, joined], ?_⟩
  · rw [tokens_of_unfinished unfinished, tokens, ← read, List.map_cons]
  · rw [tokens_of_unfinished unfinished, List.getLast?_cons, last, sameSize, Option.getD_some]

/-- When the stream ends badly behind the next token, it ends badly, with the same error at the same
place. -/
theorem EndsBadly.cons {failed : Token} (ended : lexer.nextToken.2.EndsBadly tiles failed) :
    lexer.EndsBadly (tile :: tiles) failed := by
  obtain ⟨tokens, kind, passed, rest, behind, place⟩ := ended
  refine ⟨?_, kind, passed, rest, ?_, ?_⟩
  · rw [tokens_of_unfinished unfinished, tokens, ← read, List.map_cons, List.cons_append]
  · simp only [covered_cons, ← joined, ← behind, List.append_assoc]
  · simp only [place, offset, covered_cons, Tile.chars, byteLength_append, Nat.add_assoc]

end Step

/-- The stream lays tiles over what is left. The induction is on the budget of the lexer; the middle
part says what the tile in front needs to know of the next one. -/
theorem exists_tiling (unfinished : lexer.finished = false) :
    ∃ tiles, Tiling lexer.offset tiles ∧
      (lexer.context.region = .pattern → ∀ tile ∈ tiles.head?, tile.gap = []) ∧
        (lexer.EndsWell tiles ∨ ∃ failed, lexer.EndsBadly tiles failed) := by
  -- on the budget; that no gap stands behind a text is a fact about the next lexer
  generalize size : lexer.budget = budget
  induction budget using Nat.strong_induction_on generalizing lexer with
  | _ budget ih =>
      obtain ⟨gap, cs, skipped⟩ : ∃ gap cs, lexer.context.skipBlanks lexer.rest = (gap, cs) :=
        ⟨_, _, rfl⟩
      cases scanned : lexer.context.scan cs with
      | error failure =>
          exact ⟨[], .nil _, by simp, .inr (tokens_of_fault unfinished skipped scanned)⟩
      | ok result =>
          obtain ⟨lexeme, next⟩ := result
          have read := nextToken_eq_of_scan unfinished skipped scanned
          have fits : Tile.Fits ⟨gap, lexeme.spelling, lexer.nextToken.1⟩ lexer.offset := by
            rw [read]
            exact fits_of_scan skipped scanned
          have noGap : lexer.context.region = .pattern → gap = [] :=
            Context.gap_of_pattern skipped
          by_cases final : lexeme.kind = .eof
          · refine ⟨[⟨gap, lexeme.spelling, lexer.nextToken.1⟩], .cons fits (by simp) (.nil _),
              by simpa using noGap, .inl (endsWell_of_eof unfinished skipped scanned final)⟩
          · obtain ⟨reads, joined⟩ := Context.reads_of_scan skipped scanned final
            have unfinished' : lexer.nextToken.2.finished = false := by simp [read, final]
            obtain ⟨tiles, tiling, head, ended⟩ :=
              ih _ (size ▸ budget_nextToken_lt unfinished) unfinished' rfl
            have offset : lexer.nextToken.2.offset =
                lexer.offset +
                  byteLength (Tile.chars ⟨gap, lexeme.spelling, lexer.nextToken.1⟩) := by
              rw [read, Tile.chars, byteLength_append, Nat.add_assoc]
            have rest : gap ++ lexeme.spelling ++ lexer.nextToken.2.rest = lexer.rest := by
              rw [read, joined]
            refine ⟨⟨gap, lexeme.spelling, lexer.nextToken.1⟩ :: tiles, .cons fits ?_ ?_,
              by simpa using noGap, ?_⟩
            · intro text
              apply head
              rw [read] at text ⊢
              have spells := reads.spells
              simp only at text
              rw [Lexeme.terminal, text] at spells
              exact spells.region_of_text.2
            · rwa [offset] at tiling
            · rcases ended with well | ⟨failed, badly⟩
              · exact .inl (well.cons unfinished rfl rest offset)
              · exact .inr ⟨failed, badly.cons unfinished rfl rest offset⟩

end Lexer

namespace Token

/-- The tokens of a template tile it from its first to its last byte. Where it has none, those
before the first place that shows no token tile what stands before this place. -/
theorem tokenize_eq_tiles (template : String) :
    (∃ tiles, Tiling 0 tiles ∧ covered tiles = template.toList ∧
        tokenize template = .ok (tiles.map Tile.token) ∧
          (tiles.map Tile.token).getLast? = some ⟨.eof, "", template.utf8ByteSize, 0⟩) ∨
      ∃ tiles failed, Tiling 0 tiles ∧ failed.kind = .error ∧
        (Lexer.ofString template).tokens = tiles.map Tile.token ++ [failed] ∧
          tokenize template = .error (.lex failed.offset failed.text) ∧
            ∃ passed rest, covered tiles ++ passed ++ rest = template.toList ∧
              failed.offset = byteLength (covered tiles ++ passed) := by
  obtain ⟨tiles, tiling, _, ended⟩ := @Lexer.exists_tiling (Lexer.ofString template) rfl
  have noError := firstError?_eq_none_iff.mpr tiling.kind_ne_error
  rcases ended with ⟨tokens, rest, last⟩ | ⟨failed, tokens, kind, passed, rest, joined, place⟩
  · left
    have size : (Lexer.ofString template).size = template.utf8ByteSize := by
      rw [Lexer.size, byteLength_eq_utf8ByteSize]
      simp [Lexer.ofString]
    refine ⟨tiles, tiling, rest, ?_, by rw [← tokens, last, size]⟩
    simp only [tokenize, tokens, noError]
  · right
    have offset : failed.offset = byteLength (covered tiles ++ passed) := by
      rw [place]
      exact Nat.zero_add _
    refine ⟨tiles, failed, tiling, kind, tokens, ?_, passed, rest, joined, offset⟩
    have found : firstError? (tiles.map Tile.token ++ [failed]) =
        some (.lex failed.offset failed.text) := by
      rw [firstError?, Option.map_eq_none_iff] at noError
      simp [firstError?, List.find?_append, noError, kind]
    simp only [tokenize, tokens, found]

end Token

end MessageTemplate
