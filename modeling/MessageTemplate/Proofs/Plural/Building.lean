import MessageTemplate.Plural.Forms
import MessageTemplate.Proofs.Message.Formatting
import MessageTemplate.Proofs.Placeholder.Extraction

/-! # Building plural messages

A plural message has one variant for each form, which holds what an extractor makes of the form
(`MessageTemplate.Plural.build_eq_ok`). Its variants are patterns and its keys are words or the
catch-all, so that it is rendered if and only if its selector is a name, and is then read back as
itself (`MessageTemplate.Plural.render_iff_of_build`).
-/

namespace MessageTemplate

namespace Plural

open Placeholder Reading

variable {selector : String} {forms : Forms String} {settings : Settings}
  {plural : PluralMessage}

/-- Each form goes through the extractor in turn, and makes the variant for its category. So what is
known of a run of strings is known of the forms. -/
theorem extractForms_eq_ok {extractor last : Extractor} {entries : List (Category × String)}
    {variants : List Variant} {used : Bool}
    (extracted : extractForms extractor entries = .ok (variants, used, last)) :
    ∃ extractions : List Extraction,
      extractor.extractAll (entries.map Prod.snd) = (extractions.map .ok, last) ∧
        variants.map Variant.keys = entries.map (fun entry => [entry.1.key]) ∧
          variants.map Variant.body = extractions.map Extraction.message ∧
            used = extractions.any Extraction.used := by
  induction entries generalizing extractor variants used with
  | nil =>
      cases extracted
      exact ⟨[], rfl, rfl, rfl, rfl⟩
  | cons entry entries ih =>
      obtain ⟨category, form⟩ := entry
      obtain ⟨extraction, (first : (extractor.extract form).1 = .ok extraction), extracted⟩ :=
        bind_eq_ok.mp extracted
      obtain ⟨⟨others, usedLater, final⟩, rest, made⟩ := bind_eq_ok.mp extracted
      cases made
      obtain ⟨extractions, (all : (extractor.extract form).2.extractAll (entries.map Prod.snd) = _),
        keys, bodies, uses⟩ := ih rest
      refine ⟨extraction :: extractions, ?_, ?_, ?_, ?_⟩
      · simp only [List.map_cons, Extractor.extractAll, first, all]
      · simp [keys]
      · simp [bodies]
      · simp [uses]

/-- What a plural message is made of: one variant for each form, a selector, and the bindings of the
one extractor that the forms went through. -/
theorem build_eq_ok (built : build selector forms settings = .ok plural) :
    forms.toList ≠ [] ∧ ∃ variants extractor,
      extractForms { settings := { settings with hint := none } } forms.toList =
          .ok (variants, plural.used, extractor) ∧
        plural.message =
          [.matcher ⟨[⟨some (.variable selector), some { name := selectorFunction }⟩], variants⟩] ∧
        plural.bindings = extractor.bindings ∧ (plural.used = false → settings.hint = none) := by
  unfold build at built
  dsimp only at built
  split at built
  · obtain ⟨_, thrown, _⟩ := bind_eq_ok.mp built
    exact absurd thrown throw_ne_ok
  · rename_i nonempty
    obtain ⟨⟨variants, used, extractor⟩, extracted, built⟩ := bind_eq_ok.mp built
    dsimp only at built
    rw [List.isEmpty_iff] at nonempty
    refine ⟨nonempty, variants, extractor, ?_⟩
    split at built
    · exact absurd built throw_ne_ok
    · rename_i hinted
      cases built
      refine ⟨extracted, rfl, rfl, fun unused => ?_⟩
      rw [Option.eq_none_iff_forall_ne_some]
      exact fun hint same => hinted hint unused same

theorem isSwallowed_key (category : Category) : isSwallowed category.key = false := by
  cases category <;> decide

/-- The variants of a plural message are patterns, each with the key of its category. -/
theorem wellFormed_of_extractForms {extractor last : Extractor} (valid : extractor.Valid)
    {entries : List (Category × String)} {variants : List Variant} {used : Bool}
    (extracted : extractForms extractor entries = .ok (variants, used, last)) :
    ∀ variant ∈ variants, (∃ category : Category, variant.keys = [category.key]) ∧
      WellFormedPattern variant.body := by
  obtain ⟨extractions, all, keys, bodies, _⟩ := extractForms_eq_ok extracted
  intro variant member
  constructor
  · have listed := List.mem_map_of_mem (f := Variant.keys) member
    rw [keys] at listed
    obtain ⟨entry, _, same⟩ := List.mem_map.mp listed
    exact ⟨entry.1, same.symm⟩
  · have listed := List.mem_map_of_mem (f := Variant.body) member
    rw [bodies] at listed
    obtain ⟨extraction, made, same⟩ := List.mem_map.mp listed
    have member : .ok extraction ∈ (extractor.extractAll (entries.map Prod.snd)).1 := by
      rw [all]
      exact List.mem_map_of_mem made
    exact same ▸ (valid.pattern_of_mem member).1

/-- Of a matcher that comes from a template, only the number of keys is checked. All else that
rendering asks for holds of it already. -/
theorem passes_of_wellFormed {matcher : Matcher} (shape : matcher.WellFormed)
    (arity : ∀ variant ∈ matcher.variants, variant.keys.length = matcher.selectors.length) :
    matcher.Passes where
  hasSelector := shape.hasSelector
  selectors selector member :=
    (shape.selectors selector member).mono fun _ _ _ _ => NamedOption.Canonical.check
  arity := arity
  bodies variant member node inside := ((shape.bodies variant member).shapes node inside).passes

section Built

variable (built : build selector forms settings = .ok plural)

include built

/-- A plural message is a well-formed matcher with one plain key in each variant, as soon as its
selector is a name. What is proved of such matchers then applies to it. -/
theorem exists_matcher_of_build (named : isName selector = true) :
    ∃ matcher : Matcher, plural.message = [.matcher matcher] ∧ matcher.WellFormed ∧
      matcher.Passes ∧ ∀ variant ∈ matcher.variants, ∀ key ∈ variant.keys,
        isSwallowed key = false := by
  obtain ⟨nonempty, variants, extractor, extracted, made, _⟩ := build_eq_ok built
  have each := wellFormed_of_extractForms (Extractor.valid_fresh _) extracted
  have shape : Matcher.WellFormed
      ⟨[⟨some (.variable selector), some { name := selectorFunction }⟩], variants⟩ := by
    refine ⟨by simp, ?_, ?_, ?_, fun variant member => (each variant member).2⟩
    · refine List.forall_mem_singleton.mpr ⟨rfl, ?_, ?_⟩
      · simpa [Operand.WellNamed] using named
      · simpa using (⟨by decide, by simp⟩ :
          Function.WellNamed NamedOption.Canonical { name := selectorFunction })
    · rintro rfl
      obtain ⟨extractions, _, keys, _⟩ := extractForms_eq_ok extracted
      exact nonempty (List.map_eq_nil_iff.mp keys.symm)
    · intro variant member
      obtain ⟨⟨category, keys⟩, _⟩ := each variant member
      simp [keys]
  refine ⟨_, made, shape, passes_of_wellFormed shape fun variant member => ?_, ?_⟩
  · obtain ⟨⟨category, keys⟩, _⟩ := each variant member
    simp [keys]
  · intro variant member key inside
    obtain ⟨⟨category, keys⟩, _⟩ := each variant member
    rw [keys, List.mem_singleton] at inside
    exact inside ▸ isSwallowed_key category

/-- The name of the selector is checked before a plural message is rendered. It is the only part of
the message that the extractor does not make. -/
theorem isName_of_check (passed : plural.message.check = .ok ()) : isName selector = true := by
  obtain ⟨_, variants, extractor, _, made, _⟩ := build_eq_ok built
  rw [made] at passed
  have passes := (@Matcher.check_eq_ok_iff ⟨[⟨some (.variable selector), _⟩], variants⟩).mp passed
  exact (passes.selectors _ List.mem_cons_self).operand _ rfl

/-- A plural message is rendered if and only if its selector is a name, and then it is read back
as itself. -/
theorem render_iff_of_build :
    ((∃ template, plural.message.render = .ok template) ↔ isName selector = true) ∧
      ∀ template, plural.message.render = .ok template →
        Message.parse template = .ok plural.message := by
  constructor
  · constructor
    · rintro ⟨template, rendered⟩
      exact isName_of_check built (Message.render_eq_ok_iff.mp rendered).1
    · intro named
      obtain ⟨matcher, made, _, passes, _⟩ := exists_matcher_of_build built named
      have passed := Message.check_eq_ok_iff.mpr (.inl ⟨matcher, made, passes⟩)
      exact ⟨_, Message.render_eq_ok_iff.mpr ⟨passed, rfl⟩⟩
  · intro template rendered
    obtain ⟨passed, rfl⟩ := Message.render_eq_ok_iff.mp rendered
    obtain ⟨matcher, made, shape, _, kept⟩ :=
      exists_matcher_of_build built (isName_of_check built passed)
    rw [made]
    refine Message.parse_spell_of_kept (.matcher shape) fun key member => ?_
    obtain ⟨variant, listed, inside⟩ := List.mem_flatMap.mp member
    exact kept variant listed key inside

end Built

/-- A form that starts like an expression, and a form that is a placeholder. -/
theorem render_number_of_items :
    ∃ plural, build "n" (Forms.ofList [(.one, "$1"), (.other, "%d")]) {} = .ok plural ∧
      plural.message.render = .ok ("match \x7b$n :number\x7d when one \x7b\\$1\x7d " ++
        "when * \x7b\x7b$ph0 :Placeholder format=printf type=int\x7d\x7d") ∧
      Message.parse ("match \x7b$n :number\x7d when one \x7b\\$1\x7d " ++
          "when * \x7b\x7b$ph0 :Placeholder format=printf type=int\x7d\x7d") =
        .ok plural.message := by
  have built : build "n" (Forms.ofList [(.one, "$1"), (.other, "%d")]) {} =
      .ok ⟨[.matcher ⟨[⟨some (.variable "n"), some ⟨"number", []⟩⟩],
          [⟨["one"], [.text "\\$1"]⟩, ⟨["*"], [.expression ⟨some (.variable "ph0"), some
            ⟨"Placeholder", [⟨"format", .text "printf"⟩, ⟨"type", .text "int"⟩]⟩⟩]⟩]⟩],
        [⟨"ph0", ⟨"Placeholder", [⟨"format", .text "printf"⟩, ⟨"type", .text "int"⟩]⟩⟩], true⟩ := by
    decide +kernel
  exact ⟨_, built, by decide +kernel, (render_iff_of_build built).2 _ (by decide +kernel)⟩

end Plural

end MessageTemplate
