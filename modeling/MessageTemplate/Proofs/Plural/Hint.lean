import MessageTemplate.Proofs.Placeholder.Conservation
import MessageTemplate.Proofs.Plural.Building

/-! # Hints

A hint says which format a string is written in. It has no part in what is found: a string without
a placeholder is refused where there is a hint, before anything is bound, and in all other cases the
hint makes no difference. The same holds of the forms of a plural message, taken together
(`MessageTemplate.Plural.placeholderNotFound_iff`).
-/

namespace MessageTemplate

namespace Placeholder

variable {formats : List Format} {hint : Format} {bindings : Bindings}

theorem placeholdersIn_eq_nil_iff {text : List Char} :
    placeholdersIn formats text = [] ↔ (pieces formats text).any Piece.isPlaceholder = false := by
  rw [← Bool.not_eq_true, (spell_pieces formats text).any_isPlaceholder, ne_eq, not_not]

/-- Without a placeholder nothing is bound, so a string that is refused leaves no trace. -/
theorem bindPieces_of_unused {pieces : List Piece}
    (unused : pieces.any Piece.isPlaceholder = false) (met : List Function) (leading : Bool) :
    (bindPieces bindings met leading pieces).2 = bindings := by
  induction pieces generalizing leading with
  | nil => rfl
  | cons piece pieces ih =>
      rw [List.any_cons, Bool.or_eq_false_iff] at unused
      cases piece with
      | text chars => exact ih unused.2 false
      | placeholder found => simp [Piece.isPlaceholder] at unused

namespace Extractor

variable {text : String}

/-- A string without a placeholder is refused for the hint, and nothing is bound. The extractor is
left as it was. -/
theorem extract_of_unused (unused : placeholdersIn formats text.toList = []) :
    extract ⟨⟨some hint, formats⟩, bindings⟩ text =
      (.error (.placeholderNotFound hint), ⟨⟨some hint, formats⟩, bindings⟩) := by
  have unused := placeholdersIn_eq_nil_iff.mp unused
  simp only [extract, unused, bindPieces_of_unused unused]

/-- For a string with a placeholder the hint makes no difference. The two extractors still differ in
their hints afterwards. -/
theorem extract_of_used (used : placeholdersIn formats text.toList ≠ []) :
    (extract ⟨⟨some hint, formats⟩, bindings⟩ text).1 =
        (extract ⟨⟨none, formats⟩, bindings⟩ text).1 ∧
      (extract ⟨⟨some hint, formats⟩, bindings⟩ text).2.bindings =
        (extract ⟨⟨none, formats⟩, bindings⟩ text).2.bindings := by
  have used := (Bool.not_eq_false _).mp (mt placeholdersIn_eq_nil_iff.mpr used)
  simp only [extract, used, and_self]

/-- Without a hint no string is refused, and the flag tells whether a placeholder was selected in
it. -/
theorem exists_extract_eq_ok (formats : List Format) (bindings : Bindings) (text : String) :
    ∃ extraction, (extract ⟨⟨none, formats⟩, bindings⟩ text).1 = .ok extraction ∧
      (extraction.used = true ↔ placeholdersIn formats text.toList ≠ []) := by
  have extracted : (extract ⟨⟨none, formats⟩, bindings⟩ text).1 =
      .ok ⟨(bindPieces bindings [] true (pieces formats text.toList)).1,
        (pieces formats text.toList).any Piece.isPlaceholder⟩ := by
    simp only [extract]
    split
    · contradiction
    · rfl
  exact ⟨_, extracted, (spell_pieces formats text.toList).any_isPlaceholder⟩

end Extractor

end Placeholder

namespace Plural

open Placeholder Reading

variable {formats : List Format} {hint : Format} {selector : String} {forms : Forms String}

/-- Without a hint all forms are extracted, and a placeholder is used exactly if one of them has
one. -/
theorem exists_extractForms_eq_ok (formats : List Format) (bindings : Bindings)
    (entries : List (Category × String)) :
    ∃ variants used last,
      extractForms ⟨⟨none, formats⟩, bindings⟩ entries = .ok (variants, used, last) ∧
        (used = true ↔ ∃ entry ∈ entries, placeholdersIn formats entry.2.toList ≠ []) := by
  induction entries generalizing bindings with
  | nil => exact ⟨[], false, _, rfl, by simp⟩
  | cons entry entries ih =>
      obtain ⟨category, form⟩ := entry
      obtain ⟨extraction, first, own⟩ := Extractor.exists_extract_eq_ok formats bindings form
      obtain ⟨variants, used, last, rest, others⟩ :=
        ih (Extractor.extract ⟨⟨none, formats⟩, bindings⟩ form).2.bindings
      refine ⟨⟨[category.key], extraction.message⟩ :: variants, extraction.used || used, last,
        ?_, ?_⟩
      · refine bind_eq_ok.mpr ⟨extraction, first, bind_eq_ok.mpr ⟨_, rest, rfl⟩⟩
      · rw [Bool.or_eq_true, own, others]
        simp

/-- What becomes of extracted forms: a plural message, or the error for the hint if no placeholder
is used. -/
theorem build_of_extractForms {settings : Settings} {variants : List Variant} {used : Bool}
    {last : Extractor} (nonempty : forms.toList ≠ [])
    (extracted : extractForms { settings := { settings with hint := none } } forms.toList =
      .ok (variants, used, last)) :
    build selector forms settings =
      (if used then none else settings.hint).elim
        (.ok ⟨[.matcher
          ⟨[⟨some (.variable selector), some { name := selectorFunction }⟩], variants⟩],
          last.bindings, used⟩)
        (.error ∘ .placeholderNotFound) := by
  have present : forms.toList.isEmpty = false := by simpa using nonempty
  simp only [build, present, extracted, bind, Except.bind]
  cases used <;> cases settings.hint <;> rfl

/-- A plural message is used or refused with a hint, and the hint has no other part in it. It is
looked at once, behind all forms. -/
theorem exists_build_eq (nonempty : forms.toList ≠ []) (formats : List Format)
    (selector : String) :
    ∃ plural : PluralMessage, build selector forms ⟨none, formats⟩ = .ok plural ∧
      (∀ hint, build selector forms ⟨some hint, formats⟩ =
        if plural.used then .ok plural else .error (.placeholderNotFound hint)) ∧
      (plural.used = true ↔
        ∃ entry ∈ forms.toList, placeholdersIn formats entry.2.toList ≠ []) := by
  obtain ⟨variants, used, last, extracted, told⟩ :=
    exists_extractForms_eq_ok formats [] forms.toList
  refine ⟨⟨[.matcher ⟨[⟨some (.variable selector), some { name := selectorFunction }⟩], variants⟩],
    last.bindings, used⟩, ?_, fun hint => ?_, told⟩
  · rw [build_of_extractForms nonempty extracted, ite_self]
    rfl
  · rw [build_of_extractForms nonempty extracted]
    cases used <;> rfl

/-- A hint only refuses what has no placeholder. With it, a string without a placeholder is an error
that names the hint and changes nothing, and for any other string the message and the bindings are
those without the hint, where no string is an error. The forms of a plural message are refused
in the same way when none of them has a placeholder, and otherwise the plural message is the one
without the hint. -/
theorem placeholderNotFound_iff (hint : Format) (formats : List Format) :
    (∀ (bindings : Bindings) (text : String),
      ((Extractor.extract ⟨⟨some hint, formats⟩, bindings⟩ text).1 =
          .error (.placeholderNotFound hint) ↔ placeholdersIn formats text.toList = []) ∧
      (placeholdersIn formats text.toList = [] →
        (Extractor.extract ⟨⟨some hint, formats⟩, bindings⟩ text).2 =
          ⟨⟨some hint, formats⟩, bindings⟩) ∧
      (placeholdersIn formats text.toList ≠ [] →
        (Extractor.extract ⟨⟨some hint, formats⟩, bindings⟩ text).1 =
            (Extractor.extract ⟨⟨none, formats⟩, bindings⟩ text).1 ∧
          (Extractor.extract ⟨⟨some hint, formats⟩, bindings⟩ text).2.bindings =
            (Extractor.extract ⟨⟨none, formats⟩, bindings⟩ text).2.bindings) ∧
      ∃ extraction, (Extractor.extract ⟨⟨none, formats⟩, bindings⟩ text).1 = .ok extraction) ∧
    ∀ (selector : String) (forms : Forms String), forms.toList ≠ [] →
      (build selector forms ⟨some hint, formats⟩ = .error (.placeholderNotFound hint) ↔
        ∀ entry ∈ forms.toList, placeholdersIn formats entry.2.toList = []) ∧
      ((∃ entry ∈ forms.toList, placeholdersIn formats entry.2.toList ≠ []) →
        ∃ plural, build selector forms ⟨some hint, formats⟩ = .ok plural ∧
          build selector forms ⟨none, formats⟩ = .ok plural) := by
  refine ⟨fun bindings text => ?_, fun selector forms nonempty => ?_⟩
  · obtain ⟨extraction, extracted, _⟩ := Extractor.exists_extract_eq_ok formats bindings text
    refine ⟨⟨fun refused => ?_, fun unused => by rw [Extractor.extract_of_unused unused]⟩,
      fun unused => by rw [Extractor.extract_of_unused unused], Extractor.extract_of_used,
      extraction, extracted⟩
    by_contra used
    rw [(Extractor.extract_of_used used).1, extracted] at refused
    contradiction
  · obtain ⟨plural, plain, hinted, told⟩ := exists_build_eq nonempty formats selector
    have unused : (∀ entry ∈ forms.toList, placeholdersIn formats entry.2.toList = []) ↔
        plural.used = false := by
      rw [← Bool.not_eq_true, told]
      simp only [ne_eq, not_exists, not_and, not_not]
    rw [hinted, unused]
    refine ⟨?_, fun used => ⟨plural, ?_, plain⟩⟩
    · cases plural.used <;> simp
    · rw [if_pos (told.mpr used)]

/-- A form without a placeholder, which is refused on its own but not beside one that has one. -/
theorem placeholderNotFound_one_form :
    (Extractor.extract ⟨⟨some .pythonVar, Format.all⟩, []⟩ "an item").1 =
        .error (.placeholderNotFound .pythonVar) ∧
      build "n" (Forms.ofList [(.one, "an item")]) ⟨some .pythonVar, Format.all⟩ =
        .error (.placeholderNotFound .pythonVar) ∧
      ∃ plural, build "n" (Forms.ofList [(.one, "an item"), (.other, "%d items")])
          ⟨some .pythonVar, Format.all⟩ = .ok plural ∧
        build "n" (Forms.ofList [(.one, "an item"), (.other, "%d items")])
          ⟨none, Format.all⟩ = .ok plural := by
  have unused : placeholdersIn Format.all "an item".toList = [] := by cbv
  have used : placeholdersIn Format.all "%d items".toList =
      [⟨0, ['%', 'd'], ⟨.printf, none, some .int⟩⟩] := by cbv
  have law := placeholderNotFound_iff .pythonVar Format.all
  have alone := (law.2 "n" (Forms.ofList [(.one, "an item")]) (by decide)).1
  have beside := (law.2 "n" (Forms.ofList [(.one, "an item"), (.other, "%d items")])
    (by decide)).2
  refine ⟨(law.1 [] "an item").1.mpr unused, alone.mpr ?_, beside ⟨(.other, "%d items"), ?_, ?_⟩⟩
  · exact List.forall_mem_singleton.mpr unused
  · decide
  · exact fun unused => List.cons_ne_nil _ _ (used.symm.trans unused)

end Plural

end MessageTemplate
