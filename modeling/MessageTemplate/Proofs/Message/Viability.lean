import MessageTemplate.Proofs.Message.Progress

/-! # The first impossible token

Tokens can be completed to some that are read as a message exactly if each of them can come next
where it stands (`MessageTemplate.Message.viable_iff`). Where tokens are not read as a message, the
error is at the first one that cannot come next
(`MessageTemplate.Message.exists_index_of_ofTokens`).
-/

namespace MessageTemplate

namespace Message

open Reading Phase

variable {tokens : List Token} {error : Error}

/-- A message is read from tokens that lead to a final phase. Behind an end of the input any tokens
may follow, since that phase takes them all. -/
theorem exists_final_of_ofTokens {message : Message} (read : ofTokens tokens = .ok message) :
    ∃ reached, Phase.start.run tokens = some reached ∧ reached.isFinal = true := by
  obtain ⟨_, last, _, rest, inner, ended⟩ := ofTokens_eq_ok_iff_readMessage.mp read
  obtain ⟨reached, passes, isFinal, next⟩ := passes_readMessage rfl inner
  obtain ⟨front, rfl, found⟩ := passes.exists_front
  rw [run_append_of_eq_some found]
  cases rest with
  | nil => exact ⟨reached, rfl, isFinal⟩
  | cons token rest =>
      rw [if_pos ended] at next
      refine ⟨.ended, ?_, rfl⟩
      have taken : reached.step token = some .ended := next
      rw [run_cons_of_eq_some taken, run_ended]

/-- Without errors among the tokens, reading fails at one that cannot come next. Both ways to fail
are covered, that of the reader of messages and that of tokens left behind a message. -/
theorem stuckAt_ofTokens {last : Token} (behind : tokens.getLast? = some last)
    (noError : ∀ token ∈ tokens, token.kind ≠ .error) (failed : ofTokens tokens = .error error) :
    StuckAt (stopAfter last) .start tokens error := by
  rw [ofTokens, behind] at failed
  simp only [Token.firstError?_eq_none_iff.mpr noError] at failed
  rcases bind_eq_error.mp failed with inner | ⟨⟨message, rest⟩, inner, failed⟩
  · exact stuckAt_readMessage rfl inner
  · obtain ⟨reached, passes, _, next⟩ := passes_readMessage rfl inner
    dsimp only at failed
    split at failed
    · exact absurd failed pure_ne_error
    · rename_i more
      cases failed
      rw [if_neg more] at next
      exact .parse passes next _

/-- Tokens without errors are read as a message exactly if they lead to a final phase. So acceptance
is decided by a finite automaton. -/
theorem exists_ofTokens_eq_ok_iff (noError : ∀ token ∈ tokens, token.kind ≠ .error) :
    (∃ message, ofTokens tokens = .ok message) ↔
      ∃ reached, Phase.start.run tokens = some reached ∧ reached.isFinal = true := by
  constructor
  · rintro ⟨message, read⟩
    exact exists_final_of_ofTokens read
  · rintro ⟨reached, found, isFinal⟩
    cases result : ofTokens tokens with
    | ok message => exact ⟨message, rfl⟩
    | error error =>
        exfalso
        cases behind : tokens.getLast? with
        | none =>
            rw [List.getLast?_eq_none_iff.mp behind] at found
            cases found
            simp [Phase.isFinal] at isFinal
        | some last =>
            obtain ⟨passes, stuck, fault⟩ := stuckAt_ofTokens behind noError result
            obtain ⟨front, rfl, through⟩ := passes.exists_front
            rename_i phase rest
            cases rest with
            | nil =>
                rw [List.append_nil, through] at found
                cases found
                rw [step_of_isFinal isFinal rfl] at stuck
                simp at stuck
            | cons token rest =>
                have stuck : phase.step token = none := stuck
                rw [run_append_eq_none through stuck] at found
                simp at found

/-- Tokens that lead to some phase can be completed with the terminals that lead on to a final one,
and with an end of the input. The end stands at the first place, so the sum behind it is a word. -/
theorem exists_completion {phase : Phase} (noError : ∀ token ∈ tokens, token.kind ≠ .error)
    (through : Phase.start.run tokens = some phase) :
    ∃ back message, ofTokens (tokens ++ back) = .ok message ∧
      ∀ last ∈ (tokens ++ back).getLast?, last.Fits := by
  obtain ⟨reached, completed, isFinal⟩ := phase.exists_final_of_completion
  let ending : Token := ⟨.eof, "", 0, 0⟩
  have complete : ∃ message,
      ofTokens (tokens ++ (phase.completion.map Terminal.token ++ [ending])) = .ok message := by
    refine (exists_ofTokens_eq_ok_iff ?_).mpr ⟨.ended, ?_, rfl⟩
    · rw [List.forall_mem_append, List.forall_mem_append, List.forall_mem_map]
      exact ⟨noError, phase.kind_of_mem_completion, by simp [ending]⟩
    · rw [run_append_of_eq_some through, run_append_of_eq_some completed]
      have taken : reached.step ending = some .ended := step_of_isFinal isFinal rfl
      rw [run_cons_of_eq_some taken, run_ended]
  obtain ⟨message, read⟩ := complete
  refine ⟨_, message, read, ?_⟩
  rw [← List.append_assoc, List.getLast?_concat]
  rintro _ ⟨⟩
  decide

/-- The tokens can be completed to some that are read as a message. This is what it means that they
are a correct start. -/
def Viable (overflow : Overflow) (tokens : List Token) : Prop :=
  ∃ back message, ofTokensWith overflow (tokens ++ back) = some (.ok message)

/-- Tokens can be completed exactly if none of them is an error and each of them can come next. What
becomes of a sum that is no word makes no difference to this. -/
theorem viable_iff {overflow : Overflow} : Viable overflow tokens ↔
    (∀ token ∈ tokens, token.kind ≠ .error) ∧ (Phase.start.run tokens).isSome = true := by
  constructor
  · rintro ⟨back, message, answered⟩
    have read := (ofTokensWith_eq_some_ok_iff.mp answered).1
    have noError := Token.firstError?_eq_none_iff.mp (ofTokens_eq_ok_iff.mp read).1
    obtain ⟨reached, found, _⟩ := exists_final_of_ofTokens read
    rw [run_append, Option.bind_eq_bind, Option.bind_eq_some_iff] at found
    obtain ⟨phase, through, _⟩ := found
    exact ⟨(List.forall_mem_append.mp noError).1, Option.isSome_iff_exists.mpr ⟨phase, through⟩⟩
  · rintro ⟨noError, through⟩
    obtain ⟨phase, through⟩ := Option.isSome_iff_exists.mp through
    obtain ⟨back, message, read, fits⟩ := exists_completion noError through
    exact ⟨back, message, ofTokensWith_eq_some_ok_iff.mpr ⟨read, fun _ => fits⟩⟩

/-- Tokens that end with one that cannot come next are no correct start. -/
theorem not_viable_of_step_eq_none {overflow : Overflow} {front : List Token} {token : Token}
    {phase : Phase} (through : Phase.start.run front = some phase)
    (stuck : phase.step token = none) : ¬Viable overflow (front ++ [token]) := by
  rw [viable_iff, run_append_eq_none through stuck]
  simp

/-- The offset of a token; behind the last one, the place where the last one ends, as a sum of
words. -/
def offsetAt (tokens : List Token) (index : Nat) : Nat :=
  match tokens[index]? with
  | some token => token.offset
  | none => (tokens.getLast?.map Token.finish).getD 0

/-- The place that an error is given is that of the next token, behind all tokens the place where
the last one ends. -/
theorem offset_peek {front rest : List Token} {last : Token}
    (behind : (front ++ rest).getLast? = some last) :
    (peek (stopAfter last) rest).offset = offsetAt (front ++ rest) front.length := by
  cases rest with
  | nil =>
      rw [List.append_nil] at behind
      simp [offsetAt, peek, stopAfter, behind]
  | cons token rest => simp [offsetAt, peek]

/-- Where tokens without errors are not read as a message, the error is at the first of them that
cannot come next: the tokens before it can be completed to some that are read, and none that are
read start with those through it. If each token can come next, the error is behind them. This holds
whatever becomes of a sum that is no word; the place behind tokens that end at a word, as all do
where such a sum stops the reading, is the plain sum. -/
theorem exists_index_of_ofTokens {overflow : Overflow} {offset : Nat} {fault : GrammarFault}
    (noError : ∀ token ∈ tokens, token.kind ≠ .error)
    (failed : ofTokensWith overflow tokens = some (.error (.parse offset fault))) :
    ∃ index ≤ tokens.length, offset = offsetAt tokens index ∧
      (index = tokens.length → ∀ last ∈ tokens.getLast?, overflow = .stops ∨ last.Fits →
        offset = last.offset + last.text.utf8ByteSize) ∧
        Viable overflow (tokens.take index) ∧
          (index < tokens.length → ¬Viable overflow (tokens.take (index + 1))) ∧
            (index = tokens.length → ∀ message,
              ofTokensWith overflow tokens ≠ some (.ok message)) := by
  have notRead (message : Message) : ofTokensWith overflow tokens ≠ some (.ok message) := by
    simp [failed]
  obtain ⟨refused, fits⟩ := ofTokensWith_eq_some_iff.mp failed
  cases behind : tokens.getLast? with
  | none =>
      obtain rfl := List.getLast?_eq_none_iff.mp behind
      cases refused
      exact ⟨0, Nat.le_refl _, rfl, by simp, viable_iff.mpr ⟨noError, rfl⟩, by simp,
        fun _ => notRead⟩
  | some last =>
      generalize same : Error.parse offset fault = error at refused
      obtain ⟨passes, stuck, fault⟩ := stuckAt_ofTokens behind noError refused
      obtain ⟨rfl, rfl⟩ := Error.parse.inj same
      obtain ⟨front, rfl, through⟩ := passes.exists_front
      rename_i phase rest
      have before : Viable overflow ((front ++ rest).take front.length) := by
        rw [List.take_left]
        exact viable_iff.mpr ⟨(List.forall_mem_append.mp noError).1, by rw [through]; rfl⟩
      refine ⟨front.length, by simp, offset_peek behind, ?_, before, ?_, fun _ => notRead⟩
      · intro whole last' ends plain
        obtain rfl : rest = [] := by simpa using whole
        obtain rfl := Option.some_inj.mp ends
        have fits : last.Fits := plain.elim
          (fun stops => fits stops (Token.firstError?_eq_none_iff.mpr noError) last behind) id
        exact last.finish_of_fits fits
      · intro inside
        cases rest with
        | nil => simp at inside
        | cons token rest =>
            rw [List.take_length_add_append, List.take_succ_cons, List.take_zero]
            exact not_viable_of_step_eq_none through stuck

/-- An option that belongs to no function, in an expression in a pattern, where a sum that is no
word stops the reading. -/
theorem viable_before_option_without_function :
    ∃ tokens : List Token, (∀ token ∈ tokens, token.kind ≠ .error) ∧
      ofTokensWith .stops tokens =
        some (.error (.parse 6 (.unexpected .functionBeforeOption ⟨.option, "y=1", 6, 2⟩))) ∧
      Viable .stops (tokens.take 4) ∧ ¬Viable .stops (tokens.take 5) := by
  let tokens : List Token := [⟨.openBrace, "\x7b", 0, 0⟩, ⟨.text, "a", 1, 1⟩,
    ⟨.openBrace, "\x7b", 2, 1⟩, ⟨.variable, "x", 3, 2⟩, ⟨.option, "y=1", 6, 2⟩,
    ⟨.closeBrace, "\x7d", 9, 2⟩]
  have noError : ∀ token ∈ tokens, token.kind ≠ .error := by decide
  have failed : ofTokens tokens =
      .error (.parse 6 (.unexpected .functionBeforeOption ⟨.option, "y=1", 6, 2⟩)) := by
    simp [tokens, ofTokens, Token.firstError?, readMessage, readPattern, readElement,
      readExpression, readOperand, readFunction, startsExpression, peek, unexpected, bind,
      Except.bind]
  have answered := ofTokensWith_eq_some_iff.mpr ⟨failed, fun (_ : Overflow.stops = .stops) _ =>
    (by decide : ∀ last ∈ tokens.getLast?, last.Fits)⟩
  obtain ⟨index, inside, place, _, before, through, _⟩ := exists_index_of_ofTokens noError answered
  have only : ∀ index ≤ tokens.length, 6 = offsetAt tokens index → index = 4 := by decide
  obtain rfl := only index inside place
  exact ⟨tokens, noError, answered, before, through (by decide)⟩

end Message

end MessageTemplate
