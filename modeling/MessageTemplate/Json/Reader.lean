import MessageTemplate.Json.Basic
import MessageTemplate.Name

/-! # Reading JSON

JSON text is cut into tokens, and a stack of open arrays and objects turns the tokens into a value,
one token at a time. The grammar is strict: no comments, no trailing commas, no leading zeros, no
control characters inside strings, nothing behind the value.
-/

namespace MessageTemplate

namespace Json

/-- A token of a JSON text. -/
inductive Token where
  | openArray
  | closeArray
  | openObject
  | closeObject
  | comma
  | colon
  | null
  | bool (value : Bool)
  | number (value : Number)
  | string (value : Text)
  deriving DecidableEq, Repr

/-! ## Strings -/

/-- A part of a string: a character, or a four-digit escape. -/
inductive TextUnit where
  | char (value : Char)
  | code (value : Nat)
  deriving DecidableEq, Repr

/-- The value of a hexadecimal digit, in either letter case. -/
def hexValue? (c : Char) : Option Nat :=
  if c.isDigit then some (c.toNat - '0'.toNat)
  else if 'a' ≤ c ∧ c ≤ 'f' then some (c.toNat - 'a'.toNat + 10)
  else if 'A' ≤ c ∧ c ≤ 'F' then some (c.toNat - 'A'.toNat + 10)
  else none

/-- The code that four hexadecimal digits stand for. -/
def hexCode? (a b c d : Char) : Option Nat := do
  return (((← hexValue? a) * 16 + (← hexValue? b)) * 16 + (← hexValue? c)) * 16 + (← hexValue? d)

/-- The character that a letter behind a backslash stands for. Any other letter makes the string
unreadable. -/
def escaped? (c : Char) : Option Char :=
  if c = '"' ∨ c = '\\' ∨ c = '/' then some c
  else if c = 'b' then some '\x08'
  else if c = 'f' then some '\x0c'
  else if c = 'n' then some '\n'
  else if c = 'r' then some '\r'
  else if c = 't' then some '\t'
  else none

/-- The parts of a string behind its opening quote, and what follows its closing quote. -/
def readUnits : List Char → Option (List TextUnit × List Char)
  | [] => none
  | '"' :: cs => some ([], cs)
  | '\\' :: 'u' :: a :: b :: c :: d :: cs => do
    let code ← hexCode? a b c d
    let (units, rest) ← readUnits cs
    return (.code code :: units, rest)
  | '\\' :: c :: cs => do
    let char ← escaped? c
    let (units, rest) ← readUnits cs
    return (.char char :: units, rest)
  | c :: cs =>
    if c.toNat < 0x20 then none
    else do
      let (units, rest) ← readUnits cs
      return (.char c :: units, rest)

/-- Whether a code is the first half of a surrogate pair. -/
def isHighSurrogate (code : Nat) : Bool := 0xD800 ≤ code && code < 0xDC00

/-- Whether a code is the second half of a surrogate pair. -/
def isLowSurrogate (code : Nat) : Bool := 0xDC00 ≤ code && code < 0xE000

/-- The characters that the parts of a string stand for. Two escapes that name the halves of a
surrogate pair stand for one character; half a pair stands for nothing. -/
def charsOfUnits : List TextUnit → Option (List Char)
  | [] => some []
  | .code high :: .code low :: units =>
    if isHighSurrogate high && isLowSurrogate low then
      (charsOfUnits units).map
        (Char.ofNat (0x10000 + (high - 0xD800) * 0x400 + (low - 0xDC00)) :: ·)
    else if isHighSurrogate high || isLowSurrogate high then none
    else (charsOfUnits (.code low :: units)).map (Char.ofNat high :: ·)
  | .code code :: units =>
    if isHighSurrogate code || isLowSurrogate code then none
    else (charsOfUnits units).map (Char.ofNat code :: ·)
  | .char c :: units => (charsOfUnits units).map (c :: ·)

/-- A string behind its opening quote. -/
def readText (cs : List Char) : Option (Text × List Char) :=
  (readUnits cs).map fun (units, rest) => ((charsOfUnits units).map String.ofList, rest)

/-! ## Numbers -/

/-- The digits behind a point, if there is one. -/
def readFraction : List Char → Option (Option (List Char) × List Char)
  | '.' :: cs =>
    let (digits, rest) := spanDigits cs
    if digits.isEmpty then none else some (some digits, rest)
  | cs => some (none, cs)

/-- The sign of an exponent; true for a hyphen. -/
def readExponentSign : List Char → Bool × List Char
  | '-' :: cs => (true, cs)
  | '+' :: cs => (false, cs)
  | cs => (false, cs)

/-- The exponent behind its letter, if there is one. -/
def readExponent : List Char → Option (Option Int × List Char)
  | [] => some (none, [])
  | c :: cs =>
    if c = 'e' ∨ c = 'E' then
      let (negative, unsigned) := readExponentSign cs
      let (digits, rest) := spanDigits unsigned
      if digits.isEmpty then none
      else
        let magnitude : Int := decimalValue digits
        some (some (if negative then -magnitude else magnitude), rest)
    else some (none, c :: cs)

/-- A whole part is a single digit or starts with another digit than zero. -/
def isWholePart (digits : List Char) : Bool :=
  !digits.isEmpty && (digits.length = 1 || digits.head? != some '0')

/-- A number at the front. -/
def readNumber (cs : List Char) : Option (Number × List Char) := do
  let (sign, unsigned) := spanSign cs
  let (whole, afterWhole) := spanDigits unsigned
  guard (isWholePart whole)
  let (fraction, afterFraction) ← readFraction afterWhole
  let (exponent, rest) ← readExponent afterFraction
  let places := fraction.getD []
  return ({
    negative := !sign.isEmpty
    digits := decimalValue (whole ++ places)
    exponent := exponent.getD 0 - places.length
    integral := fraction.isNone && exponent.isNone }, rest)

/-! ## Tokens -/

/-- Blanks between JSON tokens. They are fewer than the blanks of templates. -/
def isJsonBlank (c : Char) : Bool := c = ' ' || c = '\t' || c = '\n' || c = '\r'

/-- The token at the front. Whether it may stand there is left to the state of the reading. -/
def readToken : List Char → Option (Token × List Char)
  | '[' :: cs => some (.openArray, cs)
  | ']' :: cs => some (.closeArray, cs)
  | '{' :: cs => some (.openObject, cs)
  | '}' :: cs => some (.closeObject, cs)
  | ',' :: cs => some (.comma, cs)
  | ':' :: cs => some (.colon, cs)
  | '"' :: cs => (readText cs).map fun (value, rest) => (.string value, rest)
  | 'n' :: 'u' :: 'l' :: 'l' :: cs => some (.null, cs)
  | 't' :: 'r' :: 'u' :: 'e' :: cs => some (.bool true, cs)
  | 'f' :: 'a' :: 'l' :: 's' :: 'e' :: cs => some (.bool false, cs)
  | cs => (readNumber cs).map fun (value, rest) => (.number value, rest)

/-- A string takes at least its closing quote. -/
theorem readUnits_length {cs rest : List Char} {units : List TextUnit}
    (read : readUnits cs = some (units, rest)) : rest.length < cs.length := by
  fun_induction readUnits cs generalizing units with
  | case1 => simp at read
  | case2 cs =>
    simp only [Option.some.injEq, Prod.mk.injEq] at read
    simp [read.2]
  | case3 a b c d cs ih =>
    simp only [Option.bind_eq_bind, Option.bind_eq_some_iff] at read
    obtain ⟨_, _, ⟨units, after⟩, inner, same⟩ := read
    simp only [Option.pure_def, Option.some.injEq, Prod.mk.injEq] at same
    have := ih (inner.trans (by rw [same.2]))
    simp only [List.length_cons]
    omega
  | case4 c cs _ ih =>
    simp only [Option.bind_eq_bind, Option.bind_eq_some_iff] at read
    obtain ⟨_, _, ⟨units, after⟩, inner, same⟩ := read
    simp only [Option.pure_def, Option.some.injEq, Prod.mk.injEq] at same
    have := ih (inner.trans (by rw [same.2]))
    simp only [List.length_cons]
    omega
  | case5 => simp at read
  | case6 c cs _ _ _ _ ih =>
    simp only [Option.bind_eq_bind, Option.bind_eq_some_iff] at read
    obtain ⟨⟨units, after⟩, inner, same⟩ := read
    simp only [Option.pure_def, Option.some.injEq, Prod.mk.injEq] at same
    have := ih (inner.trans (by rw [same.2]))
    simp only [List.length_cons]
    omega

/-- Reading a fraction leaves no more characters than there were. -/
theorem readFraction_length {cs rest : List Char} {fraction : Option (List Char)}
    (read : readFraction cs = some (fraction, rest)) : rest.length ≤ cs.length := by
  unfold readFraction at read
  split at read
  · rename_i digits
    have := spanDigits_length digits
    simp only [Option.ite_none_left_eq_some, Option.some.injEq, Prod.mk.injEq] at read
    simp only [← read.2.2, List.length_cons]
    omega
  · simp only [Option.some.injEq, Prod.mk.injEq] at read
    simp [read.2]

/-- Reading the sign of an exponent leaves no more characters than there were. -/
theorem readExponentSign_length (cs : List Char) :
    (readExponentSign cs).2.length ≤ cs.length := by
  unfold readExponentSign
  split <;> simp

/-- Reading an exponent leaves no more characters than there were. -/
theorem readExponent_length {cs rest : List Char} {exponent : Option Int}
    (read : readExponent cs = some (exponent, rest)) : rest.length ≤ cs.length := by
  unfold readExponent at read
  split at read
  · simp only [Option.some.injEq, Prod.mk.injEq] at read
    simp [← read.2]
  · rename_i c cs
    have sign := readExponentSign_length cs
    have digits := spanDigits_length (readExponentSign cs).2
    split at read
    · simp only [Option.ite_none_left_eq_some, Option.some.injEq, Prod.mk.injEq] at read
      simp only [← read.2.2, List.length_cons]
      omega
    · simp only [Option.some.injEq, Prod.mk.injEq] at read
      simp [← read.2]

/-- A number takes at least one digit. -/
theorem readNumber_length {cs rest : List Char} {number : Number}
    (read : readNumber cs = some (number, rest)) : rest.length < cs.length := by
  have sign := congrArg List.length (spanSign_append cs)
  have whole := congrArg List.length (spanDigits_append (spanSign cs).2)
  simp only [List.length_append] at sign whole
  dsimp only [readNumber] at read
  obtain ⟨_, isWhole, read⟩ := Option.bind_eq_some_iff.mp read
  obtain ⟨⟨fraction, afterFraction⟩, readF, read⟩ := Option.bind_eq_some_iff.mp read
  obtain ⟨⟨exponent, last⟩, readE, same⟩ := Option.bind_eq_some_iff.mp read
  simp only [Option.pure_def, Option.some.injEq, Prod.mk.injEq] at same
  have fractionShorter := readFraction_length readF
  have exponentShorter := readExponent_length readE
  have positive : (spanDigits (spanSign cs).2).1 ≠ [] := by
    intro empty
    have failed : guard (isWholePart []) = (none : Option Unit) := rfl
    rw [empty, failed] at isWhole
    simp at isWhole
  have := List.length_pos_iff.mpr positive
  rw [← same.2]
  simp only at exponentShorter
  omega

/-- A token takes at least one character, by which reading the tokens of a text is seen to end. -/
theorem readToken_length {cs rest : List Char} {token : Token}
    (read : readToken cs = some (token, rest)) : rest.length < cs.length := by
  unfold readToken at read
  split at read
  case h_7 =>
    simp only [readText, Option.map_map, Option.map_eq_some_iff] at read
    obtain ⟨⟨units, after⟩, inner, same⟩ := read
    simp only [Function.comp_apply, Prod.mk.injEq] at same
    have := readUnits_length (inner.trans (by rw [same.2]))
    simp only [List.length_cons]
    omega
  case h_11 =>
    simp only [Option.map_eq_some_iff] at read
    obtain ⟨⟨number, after⟩, inner, same⟩ := read
    simp only [Prod.mk.injEq] at same
    exact readNumber_length (inner.trans (by rw [same.2]))
  all_goals
    simp only [Option.some.injEq, Prod.mk.injEq] at read
    simp only [← read.2, List.length_cons]
    omega

/-- Every token of a JSON text; none when some characters are no token. -/
def tokens (cs : List Char) : Option (List Token) :=
  match blanks : cs.dropWhile isJsonBlank with
  | [] => some []
  | c :: rest =>
    match first : readToken (c :: rest) with
    | none => none
    | some (token, after) =>
      have : after.length < cs.length := by
        have shorter := readToken_length first
        have := (List.dropWhile_sublist isJsonBlank (l := cs)).length_le
        rw [blanks] at this
        omega
      (tokens after).map (token :: ·)
termination_by cs.length

/-! ## Values -/

/-- An array or object whose end is still to come, with what it holds so far in reverse order.
An object in this state waits for the value of a field. -/
inductive Frame where
  | array (items : List Json)
  | object (fields : List (Text × Json)) (name : Text)

/-- What the next token may be, and the arrays and objects that are open. -/
inductive State where
  /-- A value. -/
  | value (frames : List Frame)
  /-- The first item of an array, or its end. -/
  | firstItem (frames : List Frame)
  /-- The name of the first field of an object, or its end. -/
  | firstName (frames : List Frame)
  /-- The name of a further field. -/
  | name (fields : List (Text × Json)) (frames : List Frame)
  /-- The colon behind a name. -/
  | colon (fields : List (Text × Json)) (name : Text) (frames : List Frame)
  /-- A comma, or the end of the array. -/
  | moreItems (items : List Json) (frames : List Frame)
  /-- A comma, or the end of the object. -/
  | moreFields (fields : List (Text × Json)) (frames : List Frame)
  /-- Nothing: the value is complete. -/
  | done (value : Json)

/-- The state behind a complete value: it belongs to the innermost array or object that is open, or
is the whole text. -/
def State.deliver (json : Json) : List Frame → State
  | [] => .done json
  | .array items :: frames => .moreItems (json :: items) frames
  | .object fields key :: frames => .moreFields ((key, json) :: fields) frames

/-- The state behind a token at which a value starts. -/
def State.start (frames : List Frame) : Token → Option State
  | .openArray => some (.firstItem frames)
  | .openObject => some (.firstName frames)
  | .null => some (deliver .null frames)
  | .bool truth => some (deliver (.bool truth) frames)
  | .number decimal => some (deliver (.number decimal) frames)
  | .string text => some (deliver (.string text) frames)
  | _ => none

/-- The state behind a token, when the token may stand there. A comma is followed by a value or a
name, so that none may stand before a closing bracket. -/
def State.step : State → Token → Option State
  | .value frames, token => start frames token
  | .firstItem frames, .closeArray => some (deliver (.array []) frames)
  | .firstItem frames, token => start (.array [] :: frames) token
  | .firstName frames, .closeObject => some (deliver (.object []) frames)
  | .firstName frames, .string key => some (.colon [] key frames)
  | .name fields frames, .string key => some (.colon fields key frames)
  | .colon fields key frames, .colon => some (.value (.object fields key :: frames))
  | .moreItems items frames, .comma => some (.value (.array items :: frames))
  | .moreItems items frames, .closeArray => some (deliver (.array items.reverse) frames)
  | .moreFields fields frames, .comma => some (.name fields frames)
  | .moreFields fields frames, .closeObject => some (deliver (.object fields.reverse) frames)
  | _, _ => none

/-- The state behind a sequence of tokens, when every token may stand where it does. -/
def State.run (state : State) : List Token → Option State
  | [] => some state
  | token :: rest => (state.step token).bind fun next => next.run rest

/-- The value that a JSON text stands for. -/
def read (text : String) : Option Json := do
  match ← (State.value []).run (← tokens text.toList) with
  | .done value => some value
  | _ => none

end Json

end MessageTemplate
