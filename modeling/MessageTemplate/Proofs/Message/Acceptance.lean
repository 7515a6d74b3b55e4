import MessageTemplate.Proofs.Message.Descent
import MessageTemplate.Proofs.Message.Option

/-! # The token sequences that are messages

A sequence of tokens is read as a message if and only if there are tokens, none of them is an error,
and those before the first end of the input derive the message
(`MessageTemplate.Message.ofTokens_eq_ok_iff_derives`). Whatever the tokens, they derive at most one
message (`MessageTemplate.Grammar.DerivesMessage.unique`). Tokens that no lexer makes are no
exception.
-/

namespace MessageTemplate

/-- A token with the given terminal, at no place in particular. A place has no part in whether
tokens are accepted, so this one serves for all. -/
def Terminal.token (terminal : Terminal) : Token := ⟨terminal.kind, terminal.text?.getD "", 0, 0⟩

@[simp] theorem Terminal.terminal_token (terminal : Terminal) :
    terminal.token.terminal = terminal := by
  cases terminal <;> rfl

theorem Token.terminal_eq_eof_iff {token : Token} : token.terminal = .eof ↔ token.kind = .eof := by
  simp [terminal_eq_iff, Terminal.kind, Terminal.text?]

/-- The terminals of tokens depend on their kinds and texts only, which is why offsets and levels do
not influence what is read. -/
theorem Token.map_terminal_congr {tokens tokens' : List Token}
    (same : tokens.map (fun token => (token.kind, token.text)) =
      tokens'.map fun token => (token.kind, token.text)) :
    tokens.map terminal = tokens'.map terminal := by
  have through (tokens : List Token) : tokens.map terminal =
      (tokens.map fun token => (token.kind, token.text)).map fun shown =>
        Terminal.ofKind shown.1 shown.2 := by
    rw [List.map_map]
    rfl
  rw [through, same, ← through]

/-- Terminals derive at most one message: all that they derive is what a reader gives. So the
grammar needs no argument of its own to be unambiguous. -/
theorem Grammar.DerivesMessage.unique {terminals : List Terminal} {message other : Message}
    (derives : DerivesMessage terminals message) (derives' : DerivesMessage terminals other) :
    message = other := by
  have same : (terminals.map Terminal.token).map Token.terminal = terminals ++ [] := by
    simp [Function.comp_def]
  obtain ⟨_, read, _⟩ :=
    @Reading.readMessage_complete Terminal.eof.token _ _ _ _ derives same (by simp)
  obtain ⟨_, read', _⟩ :=
    @Reading.readMessage_complete Terminal.eof.token _ _ _ _ derives' same (by simp)
  rw [read, Except.ok.injEq, Prod.mk.injEq] at read'
  exact read'.1

namespace Message

open Grammar

/-- Only the kinds and the texts of tokens tell which message they are read as. The error, where
there is one, does depend on the offsets. -/
theorem ofTokens_eq_ok_congr {tokens tokens' : List Token} {message : Message}
    (same : tokens.map (fun token => (token.kind, token.text)) =
      tokens'.map fun token => (token.kind, token.text))
    (read : ofTokens tokens = .ok message) : ofTokens tokens' = .ok message := by
  obtain ⟨noError, terminals, following, derives, split, ends⟩ := ofTokens_eq_ok_iff.mp read
  rw [Token.map_terminal_congr same] at split
  refine ofTokens_eq_ok_iff.mpr ⟨?_, terminals, following, derives, split, ends⟩
  rw [Token.firstError?_eq_none_iff] at noError ⊢
  intro token member failed
  have listed := List.mem_map_of_mem (f := fun token : Token => (token.kind, token.text)) member
  rw [← same] at listed
  obtain ⟨other, member', shown⟩ := List.mem_map.mp listed
  exact noError other member' ((Prod.mk.inj shown).1.trans failed)

/-- Tokens are read as a message exactly if they are some, hold no error, and derive the message up
to the end of the input. -/
theorem ofTokens_eq_ok_iff_split {tokens : List Token} {message : Message} :
    ofTokens tokens = .ok message ↔
      tokens ≠ [] ∧ (∀ token ∈ tokens, token.kind ≠ .error) ∧
        ∃ front back, tokens = front ++ back ∧ (∀ token ∈ back.head?, token.kind = .eof) ∧
          (∀ token ∈ front, token.kind ≠ .eof) ∧
            DerivesMessage (front.map Token.terminal) message := by
  rw [ofTokens_eq_ok_iff, Token.firstError?_eq_none_iff]
  constructor
  · rintro ⟨noError, terminals, following, derives, same, ends⟩
    obtain ⟨front, back, rfl, rfl, rfl⟩ := List.map_eq_append_iff.mp same
    have goesOn := derives.isLast_eq_false
    refine ⟨?_, noError, front, back, rfl, ?_, ?_, derives⟩
    · intro empty
      obtain ⟨rfl, rfl⟩ := List.append_eq_nil_iff.mp empty
      obtain ⟨⟨⟩⟩ | ⟨⟨⟩⟩ | ⟨⟨⟩⟩ := derives
    · intro token first
      rw [List.map_eq_nil_iff, List.head?_map] at ends
      rcases ends with rfl | final
      · simp at first
      · rw [Option.mem_def] at first
        rw [first, Option.map_some, Option.some_inj] at final
        exact Token.terminal_eq_eof_iff.mp final
    · intro token member final
      have last := goesOn _ (List.mem_map_of_mem member)
      rw [Token.terminal_eq_eof_iff.mpr final] at last
      simp [Terminal.isLast] at last
  · rintro ⟨_, noError, front, back, rfl, ends, _, derives⟩
    refine ⟨noError, _, _, derives, List.map_append, ?_⟩
    cases back with
    | nil => exact .inl rfl
    | cons token back => exact .inr (congrArg some (Token.terminal_eq_eof_iff.mpr (ends token rfl)))

/-- Reading gives one answer whatever becomes of a sum that is no word, unless it stops: this needs
that such sums stop, that no token is an error, and that the last token ends at no word. -/
theorem ofTokensWith_eq_some_iff {overflow : Overflow} {tokens : List Token}
    {answer : Except Error Message} :
    ofTokensWith overflow tokens = some answer ↔
      ofTokens tokens = answer ∧ (overflow = .stops → Token.firstError? tokens = none →
        ∀ last ∈ tokens.getLast?, last.Fits) := by
  rw [ofTokensWith]
  split
  · rename_i stopped
    refine iff_of_false (by simp) ?_
    rintro ⟨_, fits⟩
    exact stopped.2.2 (fits stopped.1 stopped.2.1)
  · rename_i goesOn
    rw [Option.some_inj]
    refine ⟨fun read => ⟨read, fun stops noError => ?_⟩, And.left⟩
    by_contra unfit
    exact goesOn ⟨stops, noError, unfit⟩

/-- A message is read whatever becomes of a sum that is no word, unless such sums stop and the last
token makes one. Tokens that are read hold no error, so that condition is gone. -/
theorem ofTokensWith_eq_some_ok_iff {overflow : Overflow} {tokens : List Token}
    {message : Message} :
    ofTokensWith overflow tokens = some (.ok message) ↔
      ofTokens tokens = .ok message ∧
        (overflow = .stops → ∀ last ∈ tokens.getLast?, last.Fits) := by
  rw [ofTokensWith_eq_some_iff]
  refine and_congr_right fun read => ?_
  have noError := (ofTokens_eq_ok_iff.mp read).1
  exact ⟨fun fits stops => fits stops noError, fun fits stops _ => fits stops⟩

example : ofTokensWith .stops
    [⟨.openBrace, "\x7b", 0, 0⟩, ⟨.closeBrace, "\x7d", 18446744073709551615, 0⟩] = none := by decide

/-- Reading accepts exactly the token sequences of the grammar, where the source of an option is
split at its first equals sign. The message that is derived is unique, and offsets and levels have
no part in it. All of this holds of every token sequence if sums that are no words wrap around; if
they stop the reading, it holds of the sequences that end at a word. -/
theorem ofTokens_eq_ok_iff_derives (overflow : Overflow) (tokens : List Token)
    (fits : overflow = .stops → ∀ last ∈ tokens.getLast?, last.Fits) :
    (∀ message, ofTokensWith overflow tokens = some (.ok message) ↔
      tokens ≠ [] ∧ (∀ token ∈ tokens, token.kind ≠ .error) ∧
        ∃ front back, tokens = front ++ back ∧ (∀ token ∈ back.head?, token.kind = .eof) ∧
          (∀ token ∈ front, token.kind ≠ .eof) ∧
            DerivesMessage (front.map Token.terminal) message) ∧
      (∀ name value, '=' ∉ name →
        NamedOption.ofSource (String.ofList (name ++ '=' :: value)) =
            ⟨String.ofList name, .ofText (String.ofList value)⟩ ∧
          NamedOption.ofSource (String.ofList name) = ⟨String.ofList name, .ofText ""⟩) ∧
      (∀ terminals message other, DerivesMessage terminals message →
        DerivesMessage terminals other → message = other) ∧
      ∀ tokens', tokens.map (fun token => (token.kind, token.text)) =
          tokens'.map (fun token => (token.kind, token.text)) →
        (overflow = .stops → ∀ last ∈ tokens'.getLast?, last.Fits) →
          ∀ message, ofTokensWith overflow tokens = some (.ok message) ↔
            ofTokensWith overflow tokens' = some (.ok message) := by
  refine ⟨fun message => ?_, ?_, ?_, fun tokens' same fits' message => ?_⟩
  · rw [ofTokensWith_eq_some_ok_iff, and_iff_left fits, ofTokens_eq_ok_iff_split]
  · intro name value first
    exact ⟨NamedOption.ofSource_append_of_not_mem first, NamedOption.ofSource_of_not_mem first⟩
  · exact fun terminals message other derives derives' => derives.unique derives'
  · rw [ofTokensWith_eq_some_ok_iff, ofTokensWith_eq_some_ok_iff, and_iff_left fits,
      and_iff_left fits']
    exact ⟨ofTokens_eq_ok_congr same, ofTokens_eq_ok_congr same.symm⟩

/-- Tokens with wild places, an option without an equals sign, and more tokens behind the end. The
last one ends at the last word, so that they are read also where a sum that is no word stops. -/
theorem ofTokens_option_without_value :
    let front : List Token := [⟨.openBrace, "", 9, 4⟩, ⟨.function, "f", 2, 0⟩,
      ⟨.option, "wide", 2, 7⟩, ⟨.closeBrace, "x", 0, 0⟩]
    let back : List Token := [⟨.eof, "", 3, 3⟩, ⟨.text, "more", 18446744073709551611, 0⟩]
    (∀ last ∈ (front ++ back).getLast?, last.Fits) ∧
      ofTokensWith .stops (front ++ back) =
        some (.ok [.expression ⟨none, some ⟨"f", [⟨"wide", .text ""⟩]⟩⟩]) := by
  intro front back
  have derives : DerivesMessage (front.map Token.terminal)
      [.expression ⟨none, some ⟨"f", [.ofSource "wide"]⟩⟩] :=
    .expression (.braces (.function (.named "f" (.cons (.source "wide") .nil))))
  have valueless : NamedOption.ofSource "wide" = ⟨"wide", .text ""⟩ := by decide
  rw [valueless] at derives
  have fits : ∀ last ∈ (front ++ back).getLast?, last.Fits := by decide
  refine ⟨fits, ((ofTokens_eq_ok_iff_derives .stops _ fun _ => fits).1 _).mpr ?_⟩
  exact ⟨by decide, by decide, front, back, rfl, by decide, by decide, derives⟩

end Message

end MessageTemplate
