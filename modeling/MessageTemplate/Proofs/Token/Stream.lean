import MessageTemplate.Proofs.Token.Tiling

/-! # The tokens of a lexer as one stream

A lexer can be asked for its next token as long as its stream has not ended, or in any case. However
the two ways are mixed, the requests get the tokens of one stream, which the template fixes, and the
end of the stream from then on (`MessageTemplate.Lexer.served_askAll`). What carries this is that
each token takes a piece of what is left, which can be empty for the last one only
(`MessageTemplate.Lexer.exists_moved`), and that a lexer has finished behind the last token and
nowhere else (`MessageTemplate.Lexer.finished_nextToken_iff`).
-/

namespace MessageTemplate

/-- A token that ends the stream: the end of the input, or an error. -/
def Token.EndsStream (token : Token) : Prop := token.kind = .eof ∨ token.kind = .error

/-- A character has at least one byte, so bytes bound what is counted in characters. -/
theorem length_le_byteLength (cs : List Char) : cs.length ≤ byteLength cs := by
  induction cs with
  | nil => exact Nat.le_refl 0
  | cons c cs ih =>
      have positive := c.utf8Size_pos
      rw [List.length_cons, byteLength_cons]
      omega

/-- A lexeme and what follows it make up what is scanned. Only the end of the input has no
characters. -/
theorem Context.joined_of_scan {context next : Context} {cs : List Char} {lexeme : Lexeme}
    (scanned : context.scan cs = .ok (lexeme, next)) :
    lexeme.spelling ++ lexeme.rest = cs ∧ (lexeme.kind ≠ .eof → lexeme.spelling ≠ []) := by
  rcases splits_scan scanned with ⟨final, rfl⟩ | splits
  · rcases spells_of_scan scanned with ⟨_, outside, _⟩ | spells
    · rw [scan, outside] at scanned
      cases scanned
      exact ⟨rfl, fun notEnd => absurd rfl notEnd⟩
    · exact absurd final (Lexeme.kind_ne_eof spells.isLast_eq_false)
  · exact ⟨splits.joined, fun _ => splits.nonempty⟩

namespace Lexer

/-- The ways to ask a lexer for a token: as long as the stream has not ended, or in any case. The
two differ only behind the end of the stream. -/
inductive Request where
  | next
  | nextToken
  deriving DecidableEq, Repr

/-- The answer to a request, and the lexer behind it. -/
def ask (lexer : Lexer) : Request → Option Token × Lexer
  | .next => lexer.next
  | .nextToken => (some lexer.nextToken.1, lexer.nextToken.2)

/-- The answers to requests in turn, and the lexer behind them. A run of the lexer is such a
sequence of requests, in any mixture. -/
def askAll (lexer : Lexer) : List Request → List (Option Token) × Lexer
  | [] => ([], lexer)
  | request :: requests =>
    let (answer, next) := lexer.ask request
    let (answers, last) := next.askAll requests
    (answer :: answers, last)

/-- The answer to a request when the stream of an input of a given length has ended. -/
def Request.atEnd (size : Nat) : Request → Option Token
  | .next => none
  | .nextToken => some ⟨.eof, "", size, 0⟩

/-- How requests to a lexer at the start of a template are served: where it stands, when it moves,
and what each request gets. -/
structure Served (template : String) (requests : List Request) (answers : List (Option Token))
    (last : Lexer) : Prop where
  /-- The lexer stands between two characters of the template, or at one of its ends. -/
  boundary : String.Pos.Raw.IsValid template ⟨last.offset⟩
  /-- A further request moves the lexer, unless it gets a token that ends the stream. -/
  progress : ∀ (request : Request) (token : Token) (next : Lexer),
    last.ask request = (some token, next) → ¬ token.EndsStream → last.offset < next.offset
  /-- Each request has got the token of the stream that is next, and the end of the stream where
  there is none. -/
  answered : ∀ index : Nat, answers[index]? = requests[index]?.map fun request : Request =>
    (ofString template).tokens[index]?.or (request.atEnd template.utf8ByteSize)
  /-- Behind a token that ends the stream every request has got the end of the stream. -/
  ended : ∀ (index : Nat) (token : Token), answers[index]? = some (some token) →
    token.EndsStream → ∀ (later : Nat) (request : Request), index < later →
      requests[later]? = some request →
        answers[later]? = some (request.atEnd template.utf8ByteSize)

variable {lexer : Lexer} {template : String}

/-! ### One token -/

theorem nextToken_of_finished (finished : lexer.finished = true) :
    lexer.nextToken = (⟨.eof, "", lexer.size, 0⟩, lexer) :=
  if_pos finished

/-- The next token takes a piece of what is left. Only a token that ends the stream takes none. All
facts about where a lexer stands and how far it moves come from this one. -/
theorem exists_moved (lexer : Lexer) :
    ∃ moved, moved ++ lexer.nextToken.2.rest = lexer.rest ∧
      lexer.nextToken.2.offset = lexer.offset + byteLength moved ∧
        (¬ lexer.nextToken.1.EndsStream → moved ≠ []) := by
  cases finished : lexer.finished with
  | true =>
      rw [nextToken_of_finished finished]
      exact ⟨[], rfl, rfl, fun goesOn => absurd (.inl rfl) goesOn⟩
  | false =>
      obtain ⟨gap, cs, skipped⟩ : ∃ gap cs, lexer.context.skipBlanks lexer.rest = (gap, cs) :=
        ⟨_, _, rfl⟩
      have joined := lexer.context.skipBlanks_append lexer.rest
      rw [skipped] at joined
      cases scanned : lexer.context.scan cs with
      | error failure =>
          rw [nextToken_eq_of_fault finished skipped scanned]
          obtain ⟨rest, behind⟩ := Context.consumed_of_scan scanned
          refine ⟨gap ++ failure.consumed, ?_, ?_, fun goesOn => absurd (.inr rfl) goesOn⟩
          · rw [← joined, ← behind, List.drop_left, List.append_assoc]
          · simp only [byteLength_append, Nat.add_assoc]
      | ok result =>
          obtain ⟨lexeme, next⟩ := result
          rw [nextToken_eq_of_scan finished skipped scanned]
          obtain ⟨split, nonempty⟩ := Context.joined_of_scan scanned
          refine ⟨gap ++ lexeme.spelling, ?_, ?_, fun goesOn => ?_⟩
          · rw [← joined, ← split, List.append_assoc]
          · simp only [byteLength_append, Nat.add_assoc]
          · exact List.append_ne_nil_of_right_ne_nil _ (nonempty fun final => goesOn (.inl final))

/-- A lexer has finished behind a token that ends the stream, and behind no other. The flag of the
lexer and the kind of the token say the same. -/
theorem finished_nextToken_iff (unfinished : lexer.finished = false) :
    lexer.nextToken.2.finished = true ↔ lexer.nextToken.1.EndsStream := by
  obtain ⟨gap, cs, skipped⟩ : ∃ gap cs, lexer.context.skipBlanks lexer.rest = (gap, cs) :=
    ⟨_, _, rfl⟩
  cases scanned : lexer.context.scan cs with
  | error failure =>
      rw [nextToken_eq_of_fault unfinished skipped scanned]
      exact iff_of_true rfl (.inr rfl)
  | ok result =>
      obtain ⟨lexeme, next⟩ := result
      have noError := (Context.spelled_of_scan scanned).kind_ne_error
      rw [nextToken_eq_of_scan unfinished skipped scanned]
      simp [Token.EndsStream, noError]

/-! ### The stream -/

/-- The stream of a lexer that has finished is empty; that of another has the next token and then
the stream of the next lexer. -/
theorem tokens_cases (lexer : Lexer) :
    lexer.finished = true ∧ lexer.tokens = [] ∨
      lexer.finished = false ∧ lexer.tokens = lexer.nextToken.1 :: lexer.nextToken.2.tokens := by
  cases finished : lexer.finished with
  | true => exact .inl ⟨rfl, tokens_of_finished finished⟩
  | false => exact .inr ⟨rfl, tokens_of_unfinished finished⟩

theorem tokens_eq_nil_iff : lexer.tokens = [] ↔ lexer.finished = true := by
  rcases lexer.tokens_cases with ⟨finished, tokens⟩ | ⟨unfinished, tokens⟩
  · simp [finished, tokens]
  · simp [unfinished, tokens]

/-- A token ends the stream if and only if it is its last one. So there is one such token, and
nothing behind it. -/
theorem endsStream_iff {index : Nat} {token : Token} (read : lexer.tokens[index]? = some token) :
    token.EndsStream ↔ index + 1 = lexer.tokens.length := by
  induction index generalizing lexer with
  | zero =>
      rcases lexer.tokens_cases with ⟨_, tokens⟩ | ⟨unfinished, tokens⟩
      · simp [tokens] at read
      · rw [tokens, List.getElem?_cons_zero, Option.some.injEq] at read
        rw [tokens, ← read, ← finished_nextToken_iff unfinished, ← tokens_eq_nil_iff,
          ← List.length_eq_zero_iff, List.length_cons]
        omega
  | succ index ih =>
      rcases lexer.tokens_cases with ⟨_, tokens⟩ | ⟨_, tokens⟩
      · simp [tokens] at read
      · rw [tokens, List.getElem?_cons_succ] at read
        rw [ih read, tokens, List.length_cons]
        omega

/-- The stream has no more tokens left than the budget of the lexer. -/
theorem length_tokens_le_budget (lexer : Lexer) : lexer.tokens.length ≤ lexer.budget := by
  generalize size : lexer.budget = budget
  induction budget using Nat.strong_induction_on generalizing lexer with
  | _ budget ih =>
      rcases lexer.tokens_cases with ⟨_, tokens⟩ | ⟨unfinished, tokens⟩
      · simp [tokens]
      · have less := budget_nextToken_lt unfinished
        have rest := ih _ (size ▸ less) lexer.nextToken.2 rfl
        rw [tokens, List.length_cons]
        omega

/-- Every token but the last takes a byte at least, so a template of some bytes has at most one
token more than that. -/
theorem length_tokens_le (lexer : Lexer) : lexer.tokens.length ≤ lexer.size + 1 := by
  have bytes := length_le_byteLength lexer.rest
  calc lexer.tokens.length
      ≤ lexer.budget := lexer.length_tokens_le_budget
    _ ≤ lexer.rest.length + 1 := by
        rw [budget]
        split <;> omega
    _ ≤ lexer.size + 1 := by
        rw [size]
        omega

/-! ### One request -/

/-- A lexer stands behind some of the characters of a template and in front of the others. Each
token keeps this, and the offset of the lexer is the number of bytes passed. -/
def Within (template : String) (lexer : Lexer) : Prop :=
  ∃ passed, passed ++ lexer.rest = template.toList ∧ byteLength passed = lexer.offset

theorem within_ofString (template : String) : Within template (ofString template) := ⟨[], rfl, rfl⟩

/-- A lexer that stands within a template stands between two of its characters, never inside one. -/
theorem Within.isValid (within : Within template lexer) :
    String.Pos.Raw.IsValid template ⟨lexer.offset⟩ := by
  obtain ⟨passed, joined, place⟩ := within
  rw [String.Pos.Raw.isValid_iff_exists_append]
  refine ⟨String.ofList passed, String.ofList lexer.rest, ?_, ?_⟩
  · rw [← String.ofList_append, joined, String.ofList_toList]
  · rw [← place, byteLength_eq_utf8ByteSize]
    rfl

theorem Within.size_eq (within : Within template lexer) : lexer.size = template.utf8ByteSize := by
  obtain ⟨passed, joined, place⟩ := within
  rw [size, ← place, ← byteLength_append, joined, byteLength_eq_utf8ByteSize,
    String.ofList_toList]

/-- Behind the next token the lexer still stands within the template. -/
theorem Within.nextToken (within : Within template lexer) : Within template lexer.nextToken.2 := by
  obtain ⟨passed, joined, place⟩ := within
  obtain ⟨moved, split, offset, _⟩ := lexer.exists_moved
  refine ⟨passed ++ moved, ?_, ?_⟩
  · rw [List.append_assoc, split, joined]
  · rw [byteLength_append, place, offset]

/-- When the stream has ended, a request gets its end and changes nothing. -/
theorem ask_of_finished (finished : lexer.finished = true) (request : Request) :
    lexer.ask request = (request.atEnd lexer.size, lexer) := by
  cases request with
  | next => exact if_pos finished
  | nextToken =>
      rw [ask, nextToken_of_finished finished]
      rfl

theorem ask_of_unfinished (unfinished : lexer.finished = false) (request : Request) :
    lexer.ask request = (some lexer.nextToken.1, lexer.nextToken.2) := by
  cases request with
  | next => exact if_neg (by simp [unfinished])
  | nextToken => rfl

/-- Behind a request the lexer still stands within the template. -/
theorem Within.ask (within : Within template lexer) (request : Request) :
    Within template (lexer.ask request).2 := by
  cases finished : lexer.finished with
  | true => rwa [ask_of_finished finished]
  | false =>
      rw [ask_of_unfinished finished]
      exact within.nextToken

/-- A request that gets a token other than the last moves the lexer by a byte at least. The bytes
are those of the piece that the token takes. -/
theorem offset_lt_of_ask {request : Request} {token : Token} {next : Lexer}
    (asked : lexer.ask request = (some token, next)) (goesOn : ¬ token.EndsStream) :
    lexer.offset < next.offset := by
  have taken : lexer.nextToken = (token, next) := by
    cases request with
    | nextToken => simpa [ask, Prod.ext_iff] using asked
    | next =>
        cases finished : lexer.finished with
        | true => simp [ask_of_finished finished, Request.atEnd] at asked
        | false => simpa [ask_of_unfinished finished, Prod.ext_iff] using asked
  obtain ⟨moved, _, offset, nonempty⟩ := lexer.exists_moved
  rw [taken] at offset nonempty
  have positive := List.length_pos_iff.mpr (nonempty goesOn)
  have bytes := length_le_byteLength moved
  simp only at offset
  omega

/-! ### All requests -/

theorem Within.askAll (within : Within template lexer) (requests : List Request) :
    Within template (lexer.askAll requests).2 := by
  induction requests generalizing lexer with
  | nil => exact within
  | cons request requests ih => exact ih (within.ask request)

/-- Requests get the tokens that the stream still has, one after the other, and then its end. The
induction is on the requests, with the lexer free, since each of them is asked of the next one. -/
theorem getElem?_askAll (within : Within template lexer) (requests : List Request) (index : Nat) :
    (lexer.askAll requests).1[index]? = requests[index]?.map fun request : Request =>
      lexer.tokens[index]?.or (request.atEnd template.utf8ByteSize) := by
  induction requests generalizing lexer index with
  | nil => rfl
  | cons request requests ih =>
      have later := ih (within.ask request)
      rcases lexer.tokens_cases with ⟨finished, tokens⟩ | ⟨unfinished, tokens⟩
      · rw [ask_of_finished finished] at later
        cases index with
        | zero => simp [askAll, ask_of_finished finished, tokens, within.size_eq]
        | succ index => simp [askAll, ask_of_finished finished, later, tokens]
      · rw [ask_of_unfinished unfinished] at later
        cases index with
        | zero => simp [askAll, ask_of_unfinished unfinished, tokens]
        | succ index => simp [askAll, ask_of_unfinished unfinished, later, tokens]

/-- The stream of a template has at most one token more than the template has bytes, and a token of
it is the last one exactly if it is the end of the input or an error. Whatever requests are made in
turn to a lexer at the start of the template, they are served from this stream. -/
theorem served_askAll (template : String) (requests : List Request) :
    (ofString template).tokens.length ≤ template.utf8ByteSize + 1 ∧
      (∀ (index : Nat) (token : Token), (ofString template).tokens[index]? = some token →
        (token.EndsStream ↔ index + 1 = (ofString template).tokens.length)) ∧
      Served template requests ((ofString template).askAll requests).1
        ((ofString template).askAll requests).2 := by
  have start := within_ofString template
  have answered := getElem?_askAll start requests
  have length : (ofString template).tokens.length ≤ template.utf8ByteSize + 1 :=
    start.size_eq ▸ (ofString template).length_tokens_le
  refine ⟨length, fun _ _ => endsStream_iff, (start.askAll requests).isValid,
    fun _ _ _ => offset_lt_of_ask, answered, ?_⟩
  intro index token answer final later request behind asked
  have past : (ofString template).tokens.length ≤ later := by
    rcases Nat.lt_or_ge index (ofString template).tokens.length with inside | outside
    · have read := List.getElem?_eq_getElem inside
      rw [answered, Option.map_eq_some_iff] at answer
      obtain ⟨_, _, same⟩ := answer
      rw [read, Option.some_or, Option.some.injEq] at same
      have last := (endsStream_iff (read.trans (congrArg some same))).mp final
      omega
    · omega
  rw [answered, asked, Option.map_some, List.getElem?_eq_none past, Option.none_or]

example : ((ofString "a\x7d").askAll [.nextToken, .next, .nextToken]).1 =
    [some ⟨.error, "unexpected identifier 'a'", 0, 0⟩, none, some ⟨.eof, "", 2, 0⟩] := by
  decide +kernel

end Lexer

end MessageTemplate
