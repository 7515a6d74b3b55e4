import MessageTemplate.Proofs.Plural.Building

/-! # Recovering plural forms

The forms of a plural message are found again in the matcher that its template is parsed to, each
under its category, and the message is complete for a language exactly if no category that the
language requires is without a form (`MessageTemplate.Plural.forms_of_build`).

Keys and categories correspond, and the entries of a collection of forms are in the order of the
categories, each of which occurs once; so collecting the variants undoes making them.
-/

namespace MessageTemplate

namespace Plural

open Placeholder

/-- The key of a category is read as the category. So the keys of a plural message tell which form
each of its variants holds. -/
theorem Category.ofKey?_key (category : Category) : ofKey? category.key = some category := by
  cases category <;> decide

namespace Forms

variable {α : Type} {forms : Forms α} {entries : List (Category × α)} {category : Category}

/-- A form that is set is found again under its category. With the next lemma this is all that is
used of how forms are stored. -/
theorem insert_self (forms : Forms α) (category : Category) (form : α) :
    forms.insert category form category = some form :=
  if_pos rfl

/-- Setting a form leaves the forms of other categories as they are. -/
theorem insert_of_ne {asked : Category} (other : asked ≠ category) (forms : Forms α) (form : α) :
    forms.insert category form asked = forms asked :=
  if_neg other

/-- Entries for other categories leave a form as it is. -/
theorem foldl_insert_of_not_mem (absent : category ∉ entries.map Prod.fst) :
    entries.foldl (fun forms (category, form) => forms.insert category form) forms category =
      forms category := by
  induction entries generalizing forms with
  | nil => rfl
  | cons entry entries ih =>
      rw [List.map_cons, List.mem_cons, not_or] at absent
      exact (ih absent.2).trans (insert_of_ne absent.1 forms entry.2)

/-- Of entries for different categories, each is found again under its category. The induction is on
the entries, with the forms free. -/
theorem foldl_insert_of_mem {form : α} (distinct : (entries.map Prod.fst).Nodup)
    (member : (category, form) ∈ entries) :
    entries.foldl (fun forms (category, form) => forms.insert category form) forms category =
      some form := by
  induction entries generalizing forms with
  | nil => simp at member
  | cons entry entries ih =>
      rw [List.map_cons, List.nodup_cons] at distinct
      rcases List.mem_cons.mp member with rfl | member
      · exact (foldl_insert_of_not_mem distinct.1).trans (insert_self forms category form)
      · exact ih distinct.2 member

/-- The entries for some of the categories are found again, one category after the other. Categories
without an entry are passed over. -/
theorem filterMap_of_sublist {categories : List Category}
    (sublist : (entries.map Prod.fst).Sublist categories) (distinct : categories.Nodup)
    (present : ∀ entry ∈ entries, forms entry.1 = some entry.2)
    (absent : ∀ category ∈ categories, category ∉ entries.map Prod.fst → forms category = none) :
    categories.filterMap (fun category => (forms category).map (category, ·)) = entries := by
  induction categories generalizing entries with
  | nil => exact (List.map_eq_nil_iff.mp (List.sublist_nil.mp sublist)).symm
  | cons first categories ih =>
      obtain ⟨fresh, later⟩ := List.nodup_cons.mp distinct
      rw [List.forall_mem_cons] at absent
      rcases List.sublist_cons_iff.mp sublist with sublist | ⟨others, listed, sublist⟩
      · have none := absent.1 fun member => fresh (sublist.subset member)
        rw [List.filterMap_cons, none]
        exact ih sublist later present absent.2
      · obtain ⟨entry, entries, rfl, rfl, rfl⟩ := List.map_eq_cons_iff.mp listed
        rw [List.forall_mem_cons] at present
        have rest := ih sublist later present.2 fun category member outside =>
          absent.2 category member fun inside => (List.mem_cons.mp inside).elim
            (fun same => fresh (same ▸ member)) outside
        rw [List.filterMap_cons, present.1, rest]
        rfl

/-- Entries in the order of the categories are the entries of the forms they make. Each category
occurs once in them, so none replaces another. -/
theorem toList_ofList (sublist : (entries.map Prod.fst).Sublist Category.all) :
    (ofList entries).toList = entries := by
  have distinct : Category.all.Nodup := by decide
  exact filterMap_of_sublist sublist distinct
    (fun _ member => foldl_insert_of_mem (distinct.sublist sublist) member)
    fun _ _ => foldl_insert_of_not_mem

/-- The categories of the entries are those that have a form, in order. -/
theorem map_fst_toList (forms : Forms α) :
    forms.toList.map Prod.fst = Category.all.filter fun category => (forms category).isSome := by
  rw [toList, List.map_filterMap, ← List.filterMap_eq_filter]
  congr 1
  funext category
  cases present : forms category <;> simp [Option.guard, present]

theorem isSome_eq_of_map_fst_eq {β : Type} {forms : Forms α} {others : Forms β}
    (same : forms.toList.map Prod.fst = others.toList.map Prod.fst) (category : Category) :
    (forms category).isSome = (others category).isSome := by
  rw [map_fst_toList, map_fst_toList] at same
  have listed := congrArg (category ∈ ·) same
  simp only [List.mem_filter, Category.mem_all, true_and, eq_iff_iff] at listed
  exact Bool.eq_iff_iff.mpr listed

end Forms

/-! ### Variants -/

theorem filterMap_variantCategory? {categories : List Category} {variants : List Variant}
    (keys : variants.map Variant.keys = categories.map fun category => [category.key]) :
    variants.filterMap (fun variant =>
        (variantCategory? variant).map (·, variant.body)) =
      categories.zip (variants.map Variant.body) := by
  induction variants generalizing categories with
  | nil => simp
  | cons variant variants ih =>
      obtain ⟨category, categories, rfl, own, others⟩ := List.map_eq_cons_iff.mp keys.symm
      have found : variantCategory? variant = some category := by
        rw [variantCategory?, ← own]
        exact Category.ofKey?_key category
      rw [List.filterMap_cons, found, ih others.symm]
      rfl

section Matcher

variable (selectors : List Expression) {categories : List Category} {variants : List Variant}
  (ordered : categories.Sublist Category.all)
  (keys : variants.map Variant.keys = categories.map fun category => [category.key])

include ordered keys

/-- A matcher with a variant for each of some categories, in order, has their bodies as its forms,
for these categories and no others. -/
theorem toList_formsOf :
    (formsOf ⟨selectors, variants⟩).toList = categories.zip (variants.map Variant.body) ∧
      (formsOf ⟨selectors, variants⟩).toList.map Prod.fst = categories := by
  have length : categories.length ≤ (variants.map Variant.body).length := by
    have same := congrArg List.length keys
    rw [List.length_map, List.length_map] at same
    rw [List.length_map, same]
  have own : (categories.zip (variants.map Variant.body)).map Prod.fst = categories :=
    List.map_fst_zip length
  have recovered : (formsOf ⟨selectors, variants⟩).toList =
      categories.zip (variants.map Variant.body) := by
    rw [formsOf, filterMap_variantCategory? keys]
    apply Forms.toList_ofList
    rwa [own]
  exact ⟨recovered, recovered ▸ own⟩

end Matcher

/-- A matcher is complete for a language if it has a form for each category that the language
requires. It may have others, too. -/
theorem validate_matcher_eq_ok_iff {language : Language} {matcher : Matcher} :
    validate language [.matcher matcher] = .ok () ↔
      ∀ category ∈ required language, (formsOf matcher category).isSome = true := by
  have complete : missing language matcher = [] ↔
      ∀ category ∈ required language, (formsOf matcher category).isSome = true := by
    simp [missing, List.filter_eq_nil_iff, Option.isSome_iff_ne_none]
  rw [← complete]
  simp only [validate, Message.matcher?]
  split <;> simp_all

/-- The categories that a matcher lacks depend only on those it has. The bodies of its variants make
no difference. -/
theorem missing_eq_of_isSome_eq {α : Type} {matcher : Matcher} {forms : Forms α}
    (same : ∀ category, (formsOf matcher category).isSome = (forms category).isSome)
    (language : Language) :
    missing language matcher =
      (required language).filter fun category => (forms category).isNone := by
  simp only [missing, ← Option.not_isSome, same]

section Built

variable {selector : String} {forms : Forms String} {settings : Settings}
  {plural : PluralMessage}

/-- The forms of a plural message whose selector is a name are found again in the matcher that its
template is parsed to: for each category that has a form, the message that one extractor without a
hint makes of the form, after the forms before it; the bindings are those of this extractor. The
categories that the matcher lacks for a language are those it requires that have no form. -/
theorem forms_of_build (named : isName selector = true)
    (built : build selector forms settings = .ok plural) :
    ∃ template matcher, plural.message.render = .ok template ∧
      Message.parse template = .ok [.matcher matcher] ∧
      (∃ (extractions : List Extraction) (last : Extractor),
        Extractor.extractAll { settings := { settings with hint := none } }
            (forms.toList.map Prod.snd) = (extractions.map .ok, last) ∧
        (formsOf matcher).toList =
          (forms.toList.map Prod.fst).zip (extractions.map Extraction.message) ∧
        plural.bindings = last.bindings) ∧
      (∀ category, (formsOf matcher category).isSome = (forms category).isSome) ∧
      ∀ language,
        (validate language [.matcher matcher] = .ok () ↔
          ∀ category ∈ required language, (forms category).isSome = true) ∧
        missing language matcher =
          (required language).filter fun category => (forms category).isNone := by
  obtain ⟨_, variants, last, extracted, made, bindings, _⟩ := build_eq_ok built
  obtain ⟨extractions, all, keys, bodies, _⟩ := extractForms_eq_ok extracted
  obtain ⟨template, rendered⟩ := (render_iff_of_build built).1.mpr named
  have parsed := (render_iff_of_build built).2 template rendered
  rw [made] at parsed
  have ordered : (forms.toList.map Prod.fst).Sublist Category.all := by
    rw [Forms.map_fst_toList]
    exact List.filter_sublist
  have keys : variants.map Variant.keys =
      (forms.toList.map Prod.fst).map fun category => [category.key] := by
    rw [keys, List.map_map]
    rfl
  obtain ⟨recovered, categories⟩ := toList_formsOf
    [⟨some (.variable selector), some { name := selectorFunction }⟩] ordered keys
  have same := Forms.isSome_eq_of_map_fst_eq categories
  refine ⟨template, _, rendered, parsed, ⟨extractions, last, all, bodies ▸ recovered, bindings⟩,
    same, fun language => ⟨?_, missing_eq_of_isSome_eq same language⟩⟩
  simp only [validate_matcher_eq_ok_iff, same]

end Built

/-- Two forms are all that English requires, and two less than Russian does. -/
theorem forms_one_and_other :
    ∃ plural template matcher,
      build "n" (Forms.ofList [(.other, "%d items"), (.one, "%d")]) {} = .ok plural ∧
        isName "n" = true ∧ plural.message.render = .ok template ∧
          Message.parse template = .ok [.matcher matcher] ∧
            validate ⟨"en", none, none, []⟩ [.matcher matcher] = .ok () ∧
              missing ⟨"ru", none, none, []⟩ matcher = [.few, .many] := by
  have built : build "n" (Forms.ofList [(.other, "%d items"), (.one, "%d")]) {} =
      .ok ⟨[.matcher ⟨[⟨some (.variable "n"), some ⟨"number", []⟩⟩], [
          ⟨["one"], [
            .expression ⟨some (.variable "ph0"), some (function ⟨.printf, none, some .int⟩)⟩]⟩,
          ⟨["*"], [
            .expression ⟨some (.variable "ph0"), some (function ⟨.printf, none, some .int⟩)⟩,
            .text " items"]⟩]⟩],
        [⟨"ph0", function ⟨.printf, none, some .int⟩⟩], true⟩ := by
    decide +kernel
  obtain ⟨template, matcher, rendered, parsed, _, _, complete⟩ := forms_of_build (by decide) built
  refine ⟨_, template, matcher, built, by decide, rendered, parsed, ?_, ?_⟩
  · exact (complete ⟨"en", none, none, []⟩).1.mpr (by decide)
  · exact (complete ⟨"ru", none, none, []⟩).2.trans (by decide)

end Plural

end MessageTemplate
