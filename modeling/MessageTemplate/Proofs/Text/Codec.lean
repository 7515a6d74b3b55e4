import MessageTemplate.Proofs.Text.Escaped

/-! # The escape codec

Escaping a text and removing the backslashes are inverse to each other between texts and escaped
texts, which are those that escaping writes. Backslashes can be removed piece by piece exactly where
no piece ends inside an escape (`MessageTemplate.unescapeText_laws`).
-/

namespace MessageTemplate

/-- A sequence of characters that need no backslash and of pairs of a backslash and a character
that needs one. -/
inductive IsEscaped : List Char → Prop
  | nil : IsEscaped []
  | plain {c : Char} {cs : List Char} (free : isReserved c = false) (escaped : IsEscaped cs) :
      IsEscaped (c :: cs)
  | pair {c : Char} {cs : List Char} (reserved : isReserved c = true) (escaped : IsEscaped cs) :
      IsEscaped ('\\' :: c :: cs)

/-- Every backslash has the character that it escapes behind it, so that none dangles at the end.
Nothing is asked of the other characters. -/
def isWhole (text : String) : Bool := hides (fun _ => false) text.toList

/-- The backslash itself is reserved. Without this a removed backslash could not be told from one
that belongs to the text. -/
theorem isReserved_backslash : isReserved '\\' = true := by decide

theorem isReserved_of_isBrace {c : Char} (brace : isBrace c = true) : isReserved c = true := by
  simp only [isBrace, Bool.or_eq_true, decide_eq_true_eq] at brace
  rcases brace with rfl | rfl <;> decide

theorem ne_backslash_of_free {c : Char} (free : isReserved c = false) : c ≠ '\\' := by
  rintro rfl
  exact Bool.noConfusion (free.symm.trans isReserved_backslash)

/-! ### Escaped texts -/

/-- Escaping writes an escaped text. The induction is on the text, one constructor for each branch
of escaping. -/
theorem isEscaped_escapeWhere (cs : List Char) : IsEscaped (escapeWhere isReserved cs) := by
  induction cs with
  | nil => exact .nil
  | cons c cs ih =>
      by_cases reserved : isReserved c = true
      · rw [escapeWhere, if_pos reserved]
        exact .pair reserved ih
      · rw [escapeWhere, if_neg reserved]
        exact .plain (Bool.eq_false_iff.mpr reserved) ih

/-- An escaped text is what escaping makes of the text that it shows. This fails for a backslash
before a free character, which unescaping drops and escaping does not write again. -/
theorem IsEscaped.escapeWhere_unescapeChars {cs : List Char} (escaped : IsEscaped cs) :
    escapeWhere isReserved (unescapeChars cs) = cs := by
  induction escaped with
  | nil => rfl
  | plain free _ ih =>
      rw [unescapeChars_cons_of_ne (ne_backslash_of_free free), escapeWhere, free, ih]
      rfl
  | pair reserved _ ih => rw [unescapeChars_backslash, escapeWhere, if_pos reserved, ih]

theorem escapeWhere_unescapeChars_eq_iff {cs : List Char} :
    escapeWhere isReserved (unescapeChars cs) = cs ↔ IsEscaped cs :=
  ⟨fun same => same ▸ isEscaped_escapeWhere _, IsEscaped.escapeWhere_unescapeChars⟩

/-! ### Removing backslashes piece by piece -/

/-- Behind a piece without a dangling backslash, backslashes are removed on their own. Texts that
are read next to each other can therefore be shown piece by piece. -/
theorem unescapeChars_append {front : List Char} (whole : hides (fun _ => false) front = true)
    (back : List Char) :
    unescapeChars (front ++ back) = unescapeChars front ++ unescapeChars back := by
  fun_induction hides (fun _ => false) front with
  | case1 => rfl
  | case2 => simp at whole
  | case3 c cs ih =>
      simp only [List.cons_append, unescapeChars_backslash]
      rw [ih whole]
  | case4 c cs notLast notPair ih =>
      have plain := ne_backslash_of_rows notLast notPair
      rw [List.cons_append, unescapeChars_cons_of_ne plain, unescapeChars_cons_of_ne plain,
        ih (by simpa using whole), List.cons_append]

/-- A dangling backslash takes the character that follows the piece. One character behind the piece
is enough to see it, and the bar serves for that. -/
theorem hides_of_unescapeChars_append {front : List Char}
    (apart : unescapeChars (front ++ ['|']) = unescapeChars front ++ ['|']) :
    hides (fun _ => false) front = true := by
  fun_induction hides (fun _ => false) front with
  | case1 => rfl
  | case2 => simp [unescapeChars] at apart
  | case3 c cs ih =>
      simp only [List.cons_append, unescapeChars_backslash, List.cons.injEq, true_and] at apart
      exact ih apart
  | case4 c cs notLast notPair ih =>
      have plain := ne_backslash_of_rows notLast notPair
      rw [List.cons_append, unescapeChars_cons_of_ne plain, unescapeChars_cons_of_ne plain,
        List.cons_append, List.cons.injEq] at apart
      simpa using ih apart.2

/-- The text that is escaped is shown again, and no brace and no backslash of its own is left free
in its escaped form. An escaped text comes back from the text that it shows if and only if it is a
sequence of free characters and escapes. Two pieces show what they show together if and only if no
backslash dangles between them, whatever the second piece is. -/
theorem unescapeText_laws (text escaped front : String) :
    (unescapeText (escapeText text) = text ∧ isWellEscaped (escapeText text) = true) ∧
      (escapeText (unescapeText escaped) = escaped ↔ IsEscaped escaped.toList) ∧
        (isWhole front = true ↔
          ∀ back, unescapeText (front ++ back) = unescapeText front ++ unescapeText back) := by
  have shown : unescapeText (escapeText text) = text := by
    rw [unescapeText, escapeText, String.toList_ofList,
      unescapeChars_escapeWhere isReserved_backslash, String.ofList_toList]
  have hidden : isWellEscaped (escapeText text) = true := by
    rw [isWellEscaped, escapeText, String.toList_ofList]
    exact hides_escapeWhere isReserved_backslash (fun _ => isReserved_of_isBrace) _
  have back : escapeText (unescapeText escaped) = escaped ↔ IsEscaped escaped.toList := by
    rw [← escapeWhere_unescapeChars_eq_iff, escapeText, unescapeText, String.toList_ofList,
      ← String.toList_inj, String.toList_ofList]
  refine ⟨⟨shown, hidden⟩, back, fun whole back => ?_, fun apart => ?_⟩
  · rw [unescapeText, String.toList_append, unescapeChars_append whole, String.ofList_append]
    rfl
  · have bar := congrArg String.toList (apart "|")
    simp only [unescapeText, String.toList_append, String.toList_ofList] at bar
    exact hides_of_unescapeChars_append bar

end MessageTemplate
