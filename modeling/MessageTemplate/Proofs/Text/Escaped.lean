import MessageTemplate.Token.Lexeme

/-! # Escaped runs

A run of characters hides a kind of characters when they stand in it behind backslashes only. The
scanner of escaped characters takes exactly the longest run that hides what it looks for
(`MessageTemplate.Lexeme.spanEscaped_append`, `MessageTemplate.Lexeme.hides_of_spanEscaped`).
-/

namespace MessageTemplate

/-- Every backslash has a character behind it, and no character of the given kind stands outside
such a pair. -/
def hides (stop : Char → Bool) : List Char → Bool
  | [] => true
  | ['\\'] => false
  | '\\' :: _ :: cs => hides stop cs
  | c :: cs => !stop c && hides stop cs

/-- The characters at which a text ends. -/
def isBrace (c : Char) : Bool := c = '{' || c = '}'

/-- A text is well escaped when it shows no brace of its own and ends in no backslash of its own.
These are the texts that can stand in a pattern; they need not be what escaping writes. -/
def isWellEscaped (text : String) : Bool := hides isBrace text.toList

variable {stop : Char → Bool}

/-- A character that starts neither a lone backslash nor an escape is no backslash. The recursive
functions on escaped characters have these three rows, and their last one needs the fact. -/
theorem ne_backslash_of_rows {c : Char} {cs : List Char} (notLast : c = '\\' → cs = [] → False)
    (notPair : ∀ d ds, c = '\\' → cs = d :: ds → False) : c ≠ '\\' := by
  intro same
  cases cs with
  | nil => exact notLast same rfl
  | cons d ds => exact notPair d ds same rfl

/-- A character that is no backslash is looked at on its own. -/
theorem hides_cons_of_ne {c : Char} (plain : c ≠ '\\') (cs : List Char) :
    hides stop (c :: cs) = (!stop c && hides stop cs) := by
  rw [hides]
  · rintro rfl
    exact absurd rfl plain
  · rintro _ _ rfl
    exact absurd rfl plain

/-- Behind a run that hides a kind, the rest is looked at as if it stood alone: the run leaves no
backslash open. -/
theorem hides_append {front : List Char} (hidden : hides stop front = true) (back : List Char) :
    hides stop (front ++ back) = hides stop back := by
  fun_induction hides stop front with
  | case1 => rfl
  | case2 => simp at hidden
  | case3 c cs ih => exact ih hidden
  | case4 c cs notLast notPair ih =>
      have plain := ne_backslash_of_rows notLast notPair
      rw [Bool.and_eq_true] at hidden
      rw [List.cons_append, hides_cons_of_ne plain, hidden.1, Bool.true_and, ih hidden.2]

/-- A hidden run starts with a backslash or with a character that need not be hidden. -/
theorem head_of_hides {c : Char} {cs : List Char} (hidden : hides stop (c :: cs) = true) :
    c = '\\' ∨ stop c = false := by
  by_cases plain : c = '\\'
  · exact .inl plain
  · rw [hides_cons_of_ne plain, Bool.and_eq_true, Bool.not_eq_true'] at hidden
    exact .inr hidden.1

/-- Escaping hides whatever it escapes, as soon as the backslash itself is escaped. This serves
texts, where it hides braces, and quoted literals, where it hides bars. -/
theorem hides_escapeWhere {special : Char → Bool} (backslash : special '\\' = true)
    (stops : ∀ c, stop c = true → special c = true) (cs : List Char) :
    hides stop (escapeWhere special cs) = true := by
  induction cs with
  | nil => rfl
  | cons c cs ih =>
      by_cases escaped : special c = true
      · simpa [escapeWhere, escaped, hides] using ih
      · have plain : c ≠ '\\' := fun same => escaped (same ▸ backslash)
        have free : stop c = false := by
          rw [Bool.eq_false_iff]
          exact fun stopped => escaped (stops c stopped)
        simp [escapeWhere, escaped, hides_cons_of_ne plain, free, ih]

namespace Lexeme

/-- The scanner passes a character that is no backslash unless it is one that it looks for. -/
theorem spanEscaped_cons_of_ne {c : Char} (plain : c ≠ '\\') (cs : List Char) :
    spanEscaped stop (c :: cs) =
      if stop c then .ok ([], c :: cs)
      else (spanEscaped stop cs).map fun (front, back) => (c :: front, back) := by
  rw [spanEscaped]
  · rintro rfl
    exact absurd rfl plain
  · rintro _ _ rfl
    exact absurd rfl plain

/-- A run that hides what the scanner looks for is taken whole, up to the first such character
behind it. -/
theorem spanEscaped_append {front rest : List Char} {c : Char} (hidden : hides stop front = true)
    (plain : c ≠ '\\') (stopped : stop c = true) :
    spanEscaped stop (front ++ c :: rest) = .ok (front, c :: rest) := by
  fun_induction hides stop front with
  | case1 => rw [List.nil_append, spanEscaped_cons_of_ne plain, if_pos stopped]
  | case2 => simp at hidden
  | case3 d cs ih =>
      simp only [List.cons_append, spanEscaped]
      rw [ih hidden]
      rfl
  | case4 d cs notLast notPair ih =>
      have other := ne_backslash_of_rows notLast notPair
      simp only [Bool.and_eq_true, Bool.not_eq_true'] at hidden
      rw [List.cons_append, spanEscaped_cons_of_ne other, if_neg (by simp [hidden.1]), ih hidden.2]
      rfl

/-- What the scanner takes hides what it looks for, which stands free behind it. With
`spanEscaped_append` this says that the scanner finds the one such split. -/
theorem hides_of_spanEscaped {cs front back : List Char}
    (found : spanEscaped stop cs = .ok (front, back)) :
    hides stop front = true ∧ ∃ c rest, back = c :: rest ∧ c ≠ '\\' ∧ stop c = true := by
  fun_induction spanEscaped stop cs generalizing front with
  | case1 => simp at found
  | case2 => simp at found
  | case3 c cs ih =>
      cases tail : spanEscaped stop cs with
      | error => simp [tail, Except.map] at found
      | ok split =>
          obtain ⟨inner, rest⟩ := split
          simp only [tail, Except.map, Except.ok.injEq, Prod.mk.injEq] at found
          obtain ⟨rfl, rfl⟩ := found
          obtain ⟨hidden, stopped⟩ := ih tail
          exact ⟨hidden, stopped⟩
  | case4 c cs notLast notPair stopped =>
      simp only [Except.ok.injEq, Prod.mk.injEq] at found
      obtain ⟨rfl, rfl⟩ := found
      exact ⟨rfl, c, cs, rfl, ne_backslash_of_rows notLast notPair, stopped⟩
  | case5 c cs notLast notPair free ih =>
      cases tail : spanEscaped stop cs with
      | error => simp [tail, Except.map] at found
      | ok split =>
          obtain ⟨inner, rest⟩ := split
          simp only [tail, Except.map, Except.ok.injEq, Prod.mk.injEq] at found
          obtain ⟨rfl, rfl⟩ := found
          obtain ⟨hidden, stopped⟩ := ih tail
          refine ⟨?_, stopped⟩
          rw [hides_cons_of_ne (ne_backslash_of_rows notLast notPair), hidden, Bool.and_true]
          simpa using free

end Lexeme

end MessageTemplate
