import MessageTemplate.Proofs.Plural.Recovery

/-! # Which categories a matcher covers

A matcher covers the plural categories that its variants are read as. The check of a plural message
accepts a matcher exactly if it covers all that the language requires, and names what it does not
cover otherwise; so its outcome depends on nothing but the categories covered. For each of these the
form is the body of the last variant that is read as it (`MessageTemplate.Plural.validate_laws`).
-/

namespace MessageTemplate

namespace Plural

/-- A variant is read as a category when it has a single key, which stands for the category: its
word in either letter case, or `*` for the last one. -/
def ReadAs (variant : Variant) (category : Category) : Prop :=
  ∃ key, variant.keys = [key] ∧ Category.ofKey? key = some category

theorem readAs_iff {variant : Variant} {category : Category} :
    ReadAs variant category ↔ variantCategory? variant = some category := by
  rw [variantCategory?]
  split
  · rename_i key single
    simp [ReadAs, single]
  · rename_i several
    refine iff_of_false ?_ (by simp)
    rintro ⟨key, single, _⟩
    exact several key single

instance (variant : Variant) (category : Category) : Decidable (ReadAs variant category) :=
  decidable_of_iff _ readAs_iff.symm

/-- A matcher covers a category when one of its variants is read as the category. The outcome of the
check is told by this relation alone. -/
def Covers (matcher : Matcher) (category : Category) : Prop :=
  ∃ variant ∈ matcher.variants, ReadAs variant category

instance (matcher : Matcher) (category : Category) : Decidable (Covers matcher category) :=
  inferInstanceAs (Decidable (∃ variant ∈ matcher.variants, ReadAs variant category))

/-- The categories that a language requires and a matcher does not cover, in the order of the
categories. -/
def uncovered (language : Language) (matcher : Matcher) : List Category :=
  Category.all.filter fun category => category ∈ required language ∧ ¬ Covers matcher category

/-! ### The form of a category -/

section Forms

variable {selectors : List Expression} {variants front back : List Variant} {variant : Variant}
  {category : Category} {body : Message}

/-- Variants that are not read as a category make no entry for it. -/
theorem not_mem_entries (unread : ∀ variant ∈ variants, ¬ ReadAs variant category) :
    category ∉ (variants.filterMap fun variant =>
      (variantCategory? variant).map (·, variant.body)).map Prod.fst := by
  intro member
  obtain ⟨entry, listed, rfl⟩ := List.mem_map.mp member
  obtain ⟨variant, present, made⟩ := List.mem_filterMap.mp listed
  obtain ⟨category, read, rfl⟩ := Option.map_eq_some_iff.mp made
  exact unread variant present (readAs_iff.mpr read)

theorem formsOf_of_unread (unread : ∀ variant ∈ variants, ¬ ReadAs variant category) :
    formsOf ⟨selectors, variants⟩ category = none := by
  rw [formsOf, Forms.ofList, Forms.foldl_insert_of_not_mem (not_mem_entries unread)]
  rfl

/-- Behind the last variant that is read as a category nothing replaces its body. What stands before
it has no part in the form. -/
theorem formsOf_of_last (read : ReadAs variant category)
    (last : ∀ later ∈ back, ¬ ReadAs later category) :
    formsOf ⟨selectors, front ++ variant :: back⟩ category = some variant.body := by
  rw [formsOf, Forms.ofList, List.filterMap_append, List.filterMap_cons, readAs_iff.mp read,
    List.foldl_append]
  exact (Forms.foldl_insert_of_not_mem (not_mem_entries last)).trans (Forms.insert_self ..)

/-- Among variants of which one is read as a category there is a last one, whose body is the
form. -/
theorem exists_last (covers : Covers ⟨selectors, variants⟩ category) :
    ∃ front variant back, variants = front ++ variant :: back ∧ ReadAs variant category ∧
      ∀ later ∈ back, ¬ ReadAs later category := by
  obtain ⟨variant, member, read⟩ := covers
  induction variants generalizing variant with
  | nil => simp at member
  | cons first variants ih =>
      by_cases later : ∃ variant ∈ variants, ReadAs variant category
      · obtain ⟨variant, member, read⟩ := later
        obtain ⟨front, variant, back, rfl, read, last⟩ := ih variant member read
        exact ⟨first :: front, variant, back, rfl, read, last⟩
      · have last : ∀ variant ∈ variants, ¬ ReadAs variant category :=
          fun variant member read => later ⟨variant, member, read⟩
        rcases List.mem_cons.mp member with rfl | behind
        · exact ⟨[], variant, variants, rfl, read, last⟩
        · exact absurd read (last variant behind)

/-- The form of a category is the body of the last variant that is read as it. -/
theorem formsOf_eq_some_iff :
    formsOf ⟨selectors, variants⟩ category = some body ↔
      ∃ front variant back, variants = front ++ variant :: back ∧ ReadAs variant category ∧
        variant.body = body ∧ ∀ later ∈ back, ¬ ReadAs later category := by
  constructor
  · intro found
    by_cases covers : Covers ⟨selectors, variants⟩ category
    · obtain ⟨front, variant, back, rfl, read, last⟩ := exists_last covers
      rw [formsOf_of_last read last, Option.some.injEq] at found
      exact ⟨front, variant, back, rfl, read, found, last⟩
    · have none := @formsOf_of_unread selectors variants category
        fun variant member read => covers ⟨variant, member, read⟩
      simp [none] at found
  · rintro ⟨front, variant, back, rfl, read, rfl, last⟩
    exact formsOf_of_last read last

/-- The categories that have a form are those covered. So the check can be stated without the order
of the variants. -/
theorem isSome_formsOf_iff {matcher : Matcher} :
    (formsOf matcher category).isSome = true ↔ Covers matcher category := by
  obtain ⟨selectors, variants⟩ := matcher
  constructor
  · intro present
    obtain ⟨body, found⟩ := Option.isSome_iff_exists.mp present
    obtain ⟨front, variant, back, rfl, read, _⟩ := formsOf_eq_some_iff.mp found
    exact ⟨variant, by simp, read⟩
  · intro covers
    obtain ⟨front, variant, back, rfl, read, last⟩ := exists_last covers
    rw [formsOf_of_last read last]
    rfl

end Forms

/-! ### The outcome of the check -/

variable {language : Language} {matcher other : Matcher}

/-- The categories that a language requires are listed in order. The table of languages is gone
through entry by entry. -/
theorem filter_mem_required (language : Language) :
    Category.all.filter (· ∈ required language) = required language := by
  have ordered : ∀ entry ∈ requirements, Category.all.filter (· ∈ entry.2) = entry.2 := by decide
  rw [required]
  split
  · rename_i found
    exact ordered _ (List.mem_of_find?_eq_some found)
  · rfl

/-- What a matcher lacks is what it does not cover. The order is that of the categories, whatever
the order of the variants. -/
theorem missing_eq_uncovered : missing language matcher = uncovered language matcher := by
  have absent (category : Category) :
      (formsOf matcher category).isNone = decide (¬ Covers matcher category) := by
    rw [← Option.not_isSome, Bool.eq_iff_iff, decide_eq_true_eq, ← isSome_formsOf_iff,
      Bool.not_eq_true', Bool.not_eq_true]
  rw [missing, ← filter_mem_required, List.filter_filter, uncovered]
  congr 1
  funext category
  rw [absent, Bool.and_comm, Bool.decide_and]

theorem mem_missing_iff {category : Category} :
    category ∈ missing language matcher ↔
      category ∈ required language ∧ ¬ Covers matcher category := by
  rw [missing_eq_uncovered, uncovered, List.mem_filter, decide_eq_true_eq]
  exact and_iff_right (Category.mem_all category)

/-- Matchers that cover the same categories have the same outcome. That the order of variants does
not count is a case of this. -/
theorem validate_congr (same : ∀ category, Covers matcher category ↔ Covers other category) :
    validate language [.matcher matcher] = validate language [.matcher other] := by
  have lacking : missing language matcher = missing language other := by
    simp only [missing_eq_uncovered, uncovered, same]
  simp only [validate, Message.matcher?, lacking]

theorem matcher?_eq_some_iff {message : Message} :
    message.matcher? = some matcher ↔ message = [.matcher matcher] := by
  unfold Message.matcher?
  split
  · simp
  · rename_i none
    refine iff_of_false (by simp) ?_
    rintro rfl
    exact none matcher rfl

/-- Any other message is refused as no matcher, whatever the language. -/
theorem validate_of_not_matcher {message : Message}
    (other : ∀ matcher, message ≠ [.matcher matcher]) :
    validate language message = .error (.validation .notMatcher) := by
  have absent : message.matcher? = none := by
    rw [Option.eq_none_iff_forall_ne_some]
    exact fun matcher found => other matcher (matcher?_eq_some_iff.mp found)
  simp only [validate, absent]

/-- A matcher that lacks a category is refused with all that it lacks, and not only with the
first. -/
theorem validate_of_uncovered
    (lacking : ∃ category ∈ required language, ¬ Covers matcher category) :
    validate language [.matcher matcher] =
      .error (.validation (.missing language (uncovered language matcher))) := by
  obtain ⟨category, listed⟩ := lacking
  have member := mem_missing_iff.mpr listed
  simp only [validate, Message.matcher?]
  split
  · rename_i empty
    simp [empty] at member
  · rw [missing_eq_uncovered]

/-- A message is accepted when it is a matcher that covers what the language requires. -/
theorem validate_eq_ok_iff {message : Message} :
    validate language message = .ok () ↔
      ∃ matcher, message = [.matcher matcher] ∧
        ∀ category ∈ required language, Covers matcher category := by
  constructor
  · intro valid
    by_cases single : ∃ matcher, message = [.matcher matcher]
    · obtain ⟨matcher, rfl⟩ := single
      rw [validate_matcher_eq_ok_iff] at valid
      exact ⟨matcher, rfl, fun category listed => isSome_formsOf_iff.mp (valid category listed)⟩
    · rw [validate_of_not_matcher fun matcher same => single ⟨matcher, same⟩] at valid
      simp at valid
  · rintro ⟨matcher, rfl, complete⟩
    rw [validate_matcher_eq_ok_iff]
    exact fun category listed => isSome_formsOf_iff.mpr (complete category listed)

/-! ### Other variants -/

section Variants

variable {selectors : List Expression} {front back : List Variant} {variant : Variant}
  {category : Category}

/-- A variant that is added takes no category away. -/
theorem Covers.insert (covers : Covers ⟨selectors, front ++ back⟩ category) :
    Covers ⟨selectors, front ++ variant :: back⟩ category := by
  obtain ⟨own, member, read⟩ := covers
  refine ⟨own, ?_, read⟩
  simp only [List.mem_append, List.mem_cons] at member ⊢
  exact member.imp_right .inr

theorem covers_insert_iff (unread : ∀ category, ¬ ReadAs variant category) :
    Covers ⟨selectors, front ++ variant :: back⟩ category ↔
      Covers ⟨selectors, front ++ back⟩ category := by
  refine ⟨?_, Covers.insert⟩
  rintro ⟨own, member, read⟩
  refine ⟨own, ?_, read⟩
  simp only [List.mem_append, List.mem_cons] at member ⊢
  rcases member with before | rfl | behind
  · exact .inl before
  · exact absurd read (unread category)
  · exact .inr behind

theorem covers_perm {variants variants' : List Variant} (perm : variants.Perm variants') :
    Covers ⟨selectors, variants⟩ category ↔ Covers ⟨selectors, variants'⟩ category :=
  exists_congr fun _ => and_congr_left fun _ => perm.mem_iff

end Variants

/-- A message is complete for a language if and only if it is a single matcher that covers every
category that the language requires; any other message is refused as no matcher, and a matcher that
does not cover all is refused with exactly those that it does not cover, in order. The order of the
variants does not count, nor do variants that are read as no category, and no variant that is added
takes a category away. The form of a category is the body of the last variant that is read as it. -/
theorem validate_laws (language : Language) :
    (∀ message, validate language message = .ok () ↔
      ∃ matcher, message = [.matcher matcher] ∧
        ∀ category ∈ required language, Covers matcher category) ∧
    (∀ message : Message, (∀ matcher, message ≠ [.matcher matcher]) →
      validate language message = .error (.validation .notMatcher)) ∧
    (∀ matcher, (∃ category ∈ required language, ¬ Covers matcher category) →
      validate language [.matcher matcher] =
        .error (.validation (.missing language (uncovered language matcher)))) ∧
    (∀ selectors variants variants', variants.Perm variants' →
      validate language [.matcher ⟨selectors, variants⟩] =
        validate language [.matcher ⟨selectors, variants'⟩]) ∧
    (∀ selectors front variant back, (∀ category, ¬ ReadAs variant category) →
      validate language [.matcher ⟨selectors, front ++ variant :: back⟩] =
        validate language [.matcher ⟨selectors, front ++ back⟩]) ∧
    (∀ selectors front variant back category, Covers ⟨selectors, front ++ back⟩ category →
      Covers ⟨selectors, front ++ variant :: back⟩ category ∧
        category ∉ missing language ⟨selectors, front ++ variant :: back⟩) ∧
    ∀ selectors variants category body,
      formsOf ⟨selectors, variants⟩ category = some body ↔
        ∃ front variant back, variants = front ++ variant :: back ∧ ReadAs variant category ∧
          variant.body = body ∧ ∀ later ∈ back, ¬ ReadAs later category := by
  refine ⟨fun _ => validate_eq_ok_iff, fun _ => validate_of_not_matcher,
    fun _ => validate_of_uncovered, ?permuted, ?unread, ?added, fun _ _ _ _ => formsOf_eq_some_iff⟩
  case permuted =>
    intro selectors variants variants' perm
    exact validate_congr fun _ => covers_perm perm
  case unread =>
    intro selectors front variant back unread
    exact validate_congr fun _ => covers_insert_iff unread
  case added =>
    intro selectors front variant back category covers
    exact ⟨covers.insert, fun lacking => (mem_missing_iff.mp lacking).2 covers.insert⟩

/-- A key counts in either letter case, an exact number or several keys do not count, and of two
variants for a category the last one has the form. -/
theorem validate_mixed_keys :
    ∃ matcher : Matcher,
      matcher.variants.map Variant.keys = [["ONE"], ["1"], ["few", "many"], ["other"], ["one"]] ∧
        validate ⟨"ru", none, none, []⟩ [.matcher matcher] =
          .error (.validation (.missing ⟨"ru", none, none, []⟩ [.few, .many])) ∧
        formsOf matcher .one = some [.text "last"] := by
  let variants : List Variant :=
    [⟨["ONE"], [.text "first"]⟩, ⟨["1"], []⟩, ⟨["few", "many"], []⟩, ⟨["other"], []⟩,
      ⟨["one"], [.text "last"]⟩]
  obtain ⟨_, _, lacking, _, _, _, forms⟩ := validate_laws ⟨"ru", none, none, []⟩
  refine ⟨⟨[], variants⟩, rfl, ?_, ?_⟩
  · have outcome := lacking ⟨[], variants⟩ ⟨.few, by decide, by decide⟩
    have listed : uncovered ⟨"ru", none, none, []⟩ ⟨[], variants⟩ = [.few, .many] := by decide
    rwa [listed] at outcome
  · rw [forms]
    exact ⟨variants.take 4, ⟨["one"], [.text "last"]⟩, [], rfl, by decide, rfl, by simp⟩

end Plural

end MessageTemplate
