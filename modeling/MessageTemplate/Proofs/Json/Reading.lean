import MessageTemplate.Proofs.Json.Lexeme

/-! # Reading what was written

The compact text of a JSON value is read back as this value (`MessageTemplate.Json.read_compact`).
The text is cut into the tokens of the value (`MessageTemplate.Json.tokens_write`), and these lead
from the state that waits for a value to the state behind it, whatever is open around it
(`MessageTemplate.Json.State.run_stream`).
-/

namespace MessageTemplate

namespace Json

mutual

/-- Whether no number is scaled that is written without point and exponent. Such a number could not
be told from its text, and no reader makes one. -/
def isUnscaled : Json → Bool
  | .null | .bool _ | .string _ => true
  | .number value => !value.integral || value.exponent = 0
  | .array items => areUnscaledItems items
  | .object fields => areUnscaledFields fields

/-- Whether no item has such a number. -/
def areUnscaledItems : List Json → Bool
  | [] => true
  | item :: items => item.isUnscaled && areUnscaledItems items

/-- Whether no value of a field has such a number. -/
def areUnscaledFields : List (Text × Json) → Bool
  | [] => true
  | (_, value) :: fields => value.isUnscaled && areUnscaledFields fields

end

mutual

/-- The tokens that a value is written with. They stand between the text and the value, so that
cutting and reading are proved one after the other. -/
def stream : Json → List Token
  | .null => [.null]
  | .bool value => [.bool value]
  | .number value => [.number value]
  | .string value => [.string value]
  | .array [] => [.openArray, .closeArray]
  | .array (item :: items) => .openArray :: item.stream ++ streamItems items
  | .object [] => [.openObject, .closeObject]
  | .object ((name, value) :: fields) =>
    .openObject :: .string name :: .colon :: value.stream ++ streamFields fields

/-- The tokens of the items behind the first, and of the end of the array. -/
def streamItems : List Json → List Token
  | [] => [.closeArray]
  | item :: items => .comma :: item.stream ++ streamItems items

/-- The tokens of the fields behind the first, and of the end of the object. -/
def streamFields : List (Text × Json) → List Token
  | [] => [.closeObject]
  | (name, value) :: fields =>
    .comma :: .string name :: .colon :: value.stream ++ streamFields fields

end

/-! ### Tokens -/

/-- A token that is read is the first one, and the others are those of the rest. Blank characters do
not stand in between in a compact text. -/
theorem tokens_of_readToken {c : Char} {cs rest : List Char} {token : Token}
    (visible : isJsonBlank c = false) (first : readToken (c :: cs) = some (token, rest)) :
    tokens (c :: cs) = (tokens rest).map (token :: ·) := by
  rw [tokens]
  split
  · rename_i blanks
    simp [visible] at blanks
  · rename_i d ds blanks
    simp only [List.dropWhile_cons, visible, Bool.false_eq_true, if_false, List.cons.injEq]
      at blanks
    obtain ⟨rfl, rfl⟩ := blanks
    split
    · rename_i none
      simp [none] at first
    · rename_i found
      rw [found, Option.some.injEq, Prod.mk.injEq] at first
      obtain ⟨rfl, rfl⟩ := first
      rfl

theorem tokens_string (text : Text) (rest : List Char) :
    tokens (writeText text ++ rest) = (tokens rest).map (.string text :: ·) := by
  obtain ⟨cs, written, read⟩ := readText_writeText text rest
  rw [written]
  exact tokens_of_readToken (by decide) (by rw [readToken, read]; rfl)

/-- A written number starts with its sign or a digit. -/
theorem exists_cons_write (number : Number) :
    ∃ c cs, number.write = c :: cs ∧ (c = '-' ∨ c.isDigit = true) := by
  obtain ⟨c, cs, digits, digit⟩ := exists_cons_toDigits number.digits
  rw [Number.write, digits]
  cases number.negative with
  | false => exact ⟨c, _, rfl, .inr digit⟩
  | true => exact ⟨'-', _, rfl, .inl rfl⟩

theorem readToken_number {c : Char} (start : c = '-' ∨ c.isDigit = true) (cs : List Char) :
    readToken (c :: cs) =
      (readNumber (c :: cs)).map fun (value, rest) => (.number value, rest) := by
  have other : ∀ d ∈ ['[', ']', '{', '}', ',', ':', '"', 'n', 't', 'f'], c ≠ d := by
    rcases start with rfl | digit
    · simp
    · exact forall_ne_of_kind digit (by decide)
  rw [readToken.eq_def]
  split <;> simp_all

/-- A written number is one token, in front of what ends it. -/
theorem tokens_number {number : Number} (unscaled : number.integral = true → number.exponent = 0)
    {rest : List Char} (delimited : Delimited rest) :
    tokens (number.write ++ rest) = (tokens rest).map (.number number :: ·) := by
  have read := readNumber_write unscaled delimited
  obtain ⟨c, cs, written, start⟩ := exists_cons_write number
  rw [written, List.cons_append] at read ⊢
  refine tokens_of_readToken ?_ (by rw [readToken_number start, read]; rfl)
  have other : ∀ d ∈ [' ', '\t', '\n', '\r'], c ≠ d := by
    rcases start with rfl | digit
    · simp
    · exact forall_ne_of_kind digit (by decide)
  simp only [List.forall_mem_cons, List.not_mem_nil, false_implies, implies_true, and_true] at other
  simp [isJsonBlank, other]

/-! ### Values -/

theorem delimited_writeItems (items : List Json) (rest : List Char) :
    Delimited (writeItems items ++ rest) := by
  cases items <;> simp [writeItems, Delimited]

theorem delimited_writeFields (fields : List (Text × Json)) (rest : List Char) :
    Delimited (writeFields fields ++ rest) := by
  obtain _ | ⟨⟨name, value⟩, fields⟩ := fields <;> simp [writeFields, Delimited]

mutual

/-- A written value is cut into its tokens. The recursion is on the value, together with its items
and fields. -/
theorem tokens_write : ∀ (value : Json) {rest : List Char}, value.isUnscaled = true →
    Delimited rest → tokens (value.write ++ rest) = (tokens rest).map (value.stream ++ ·)
  | .null, _, _, _ => tokens_of_readToken (by decide) rfl
  | .bool true, _, _, _ => tokens_of_readToken (by decide) rfl
  | .bool false, _, _, _ => tokens_of_readToken (by decide) rfl
  | .number value, rest, unscaled, delimited => by
      refine tokens_number (fun integral => ?_) delimited
      simpa [isUnscaled, integral] using unscaled
  | .string value, rest, _, _ => tokens_string value rest
  | .array [], rest, _, _ => by
      simp only [write, List.cons_append, List.nil_append]
      rw [tokens_of_readToken (by decide) rfl, tokens_of_readToken (by decide) rfl, Option.map_map]
      rfl
  | .array (item :: items), rest, unscaled, _ => by
      simp only [isUnscaled, areUnscaledItems, Bool.and_eq_true] at unscaled
      have first := tokens_write item unscaled.1 (delimited_writeItems items rest)
      rw [tokens_writeItems items unscaled.2] at first
      simp only [write, List.cons_append, List.append_assoc]
      rw [tokens_of_readToken (by decide) rfl, first]
      simp [stream, Function.comp_def]
  | .object [], rest, _, _ => by
      simp only [write, List.cons_append, List.nil_append]
      rw [tokens_of_readToken (by decide) rfl, tokens_of_readToken (by decide) rfl, Option.map_map]
      rfl
  | .object ((name, value) :: fields), rest, unscaled, _ => by
      simp only [isUnscaled, areUnscaledFields, Bool.and_eq_true] at unscaled
      have first := tokens_write value unscaled.1 (delimited_writeFields fields rest)
      rw [tokens_writeFields fields unscaled.2] at first
      simp only [write, List.cons_append, List.append_assoc]
      rw [tokens_of_readToken (by decide) rfl, tokens_string, tokens_of_readToken (by decide) rfl,
        first]
      simp [stream, Function.comp_def]

/-- The items behind the first are cut into their tokens. -/
theorem tokens_writeItems : ∀ (items : List Json) {rest : List Char},
    areUnscaledItems items = true →
    tokens (writeItems items ++ rest) = (tokens rest).map (streamItems items ++ ·)
  | [], _, _ => tokens_of_readToken (by decide) rfl
  | item :: items, rest, unscaled => by
      simp only [areUnscaledItems, Bool.and_eq_true] at unscaled
      have first := tokens_write item unscaled.1 (delimited_writeItems items rest)
      rw [tokens_writeItems items unscaled.2] at first
      simp only [writeItems, List.cons_append, List.append_assoc]
      rw [tokens_of_readToken (by decide) rfl, first]
      simp [streamItems, Function.comp_def]

theorem tokens_writeFields : ∀ (fields : List (Text × Json)) {rest : List Char},
    areUnscaledFields fields = true →
    tokens (writeFields fields ++ rest) = (tokens rest).map (streamFields fields ++ ·)
  | [], _, _ => tokens_of_readToken (by decide) rfl
  | (name, value) :: fields, rest, unscaled => by
      simp only [areUnscaledFields, Bool.and_eq_true] at unscaled
      have first := tokens_write value unscaled.1 (delimited_writeFields fields rest)
      rw [tokens_writeFields fields unscaled.2] at first
      simp only [writeFields, List.cons_append, List.append_assoc]
      rw [tokens_of_readToken (by decide) rfl, tokens_string, tokens_of_readToken (by decide) rfl,
        first]
      simp [streamFields, Function.comp_def]

end

/-! ### States -/

namespace State

theorem run_cons {state next : State} {token : Token} (step : state.step token = some next)
    (rest : List Token) : state.run (token :: rest) = next.run rest := by
  rw [run, step, Option.bind_some]

/-- A token that starts a value starts the first item of an array, too. Only the closing bracket is
taken differently there. -/
theorem run_firstItem (frames : List Frame) (json : Json) (rest : List Token) :
    (State.firstItem frames).run (json.stream ++ rest) =
      (State.value (.array [] :: frames)).run (json.stream ++ rest) := by
  cases json with
  | array items => cases items <;> rfl
  | object fields =>
      cases fields with
      | nil => rfl
      | cons field fields => rfl
  | _ => rfl

mutual

/-- The tokens of a value lead to the state behind it, whatever is open around it. The frames are
not touched in between. -/
theorem run_stream : ∀ (json : Json) (frames : List Frame) (rest : List Token),
    (State.value frames).run (json.stream ++ rest) = (deliver json frames).run rest
  | .null, frames, rest => run_cons rfl rest
  | .bool _, frames, rest => run_cons rfl rest
  | .number _, frames, rest => run_cons rfl rest
  | .string _, frames, rest => run_cons rfl rest
  | .array [], frames, rest => (run_cons rfl _).trans (run_cons rfl rest)
  | .array (item :: items), frames, rest => by
      simp only [stream, List.cons_append, List.append_assoc]
      rw [run_cons rfl, run_firstItem, run_stream item]
      exact run_streamItems items [item] frames rest
  | .object [], frames, rest => (run_cons rfl _).trans (run_cons rfl rest)
  | .object ((key, json) :: fields), frames, rest => by
      simp only [stream, List.cons_append, List.append_assoc]
      rw [run_cons rfl, run_cons rfl, run_cons rfl, run_stream json]
      exact run_streamFields fields [(key, json)] frames rest

/-- The tokens of further items complete the array that holds the items before. -/
theorem run_streamItems : ∀ (items before : List Json) (frames : List Frame) (rest : List Token),
    (State.moreItems before frames).run (streamItems items ++ rest) =
      (deliver (.array (before.reverse ++ items)) frames).run rest
  | [], before, frames, rest => by
      rw [List.append_nil]
      exact run_cons rfl rest
  | item :: items, before, frames, rest => by
      simp only [streamItems, List.cons_append, List.append_assoc]
      rw [run_cons rfl, run_stream item]
      refine (run_streamItems items (item :: before) frames rest).trans ?_
      rw [List.reverse_cons, List.append_assoc, List.singleton_append]

/-- The tokens of further fields complete the object that holds the fields before. -/
theorem run_streamFields : ∀ (fields before : List (Text × Json)) (frames : List Frame)
    (rest : List Token), (State.moreFields before frames).run (streamFields fields ++ rest) =
      (deliver (.object (before.reverse ++ fields)) frames).run rest
  | [], before, frames, rest => by
      rw [List.append_nil]
      exact run_cons rfl rest
  | (key, json) :: fields, before, frames, rest => by
      simp only [streamFields, List.cons_append, List.append_assoc]
      rw [run_cons rfl, run_cons rfl, run_cons rfl, run_stream json]
      refine (run_streamFields fields ((key, json) :: before) frames rest).trans ?_
      rw [List.reverse_cons, List.append_assoc, List.singleton_append]

end

end State

/-- A value is read back from its compact text. Only numbers limit this, and those that messages
hold are not scaled. -/
theorem read_compact {value : Json} (unscaled : value.isUnscaled = true) :
    read value.compact = some value := by
  have cut := @tokens_write value [] unscaled (by simp [Delimited])
  have empty : tokens [] = some [] := by
    rw [tokens]
    rfl
  rw [List.append_nil, empty, Option.map_some, List.append_nil] at cut
  have ran := State.run_stream value [] []
  rw [List.append_nil] at ran
  rw [read, compact, String.toList_ofList, cut]
  simp only [Option.bind_eq_bind, Option.bind_some, ran]
  rfl

end Json

end MessageTemplate
