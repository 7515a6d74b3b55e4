import MessageTemplate.Message.Equality
import MessageTemplate.Proofs.Message.Image

/-! # Variants that fit their matcher

A variant fits when it has one key for each selector. Reading does not ask for this, rendering does,
and of a message that comes from a template rendering asks nothing else
(`MessageTemplate.Message.render_of_parse`): what the other checks look for, no template can spell.
-/

namespace MessageTemplate

namespace Matcher

variable {matcher : Matcher}

/-- The index and the variant of the first variant that does not fit. It is the one that an error
names, however many there are. -/
structure FirstMisfit (matcher : Matcher) (index : Nat) (variant : Variant) : Prop where
  here : matcher.variants[index]? = some variant
  misfit : variant.keys.length ≠ matcher.selectors.length
  earlier : ∀ other ∈ matcher.variants.take index, other.keys.length = matcher.selectors.length

/-- A variant of a matcher that comes from a template is refused only where it does not fit, since
whatever its body holds was read from a template. -/
theorem WellFormed.check_variant (shape : matcher.WellFormed) {variant : Variant}
    (member : variant ∈ matcher.variants) (index : Nat) :
    variant.check matcher.selectors.length index =
      if variant.keys.length = matcher.selectors.length then .ok ()
      else .error (.variantArity index matcher.selectors.length variant.keys.length) := by
  split
  · rename_i fits
    refine Variant.check_eq_ok_iff.mpr ⟨fits, fun node inside => ?_⟩
    exact ((shape.bodies variant member).shapes node inside).passes
  · rename_i misfit
    rw [Variant.check, if_pos misfit]
    rfl

/-- The selectors of a matcher that comes from a template are never refused. What is left of the
check is that of the variants. -/
theorem WellFormed.check_eq (shape : matcher.WellFormed) :
    matcher.check = checkAll (Variant.check matcher.selectors.length) 0 matcher.variants := by
  have selectors := checkSelectors_eq_ok_iff.mpr fun selector member =>
    (shape.selectors selector member).mono fun _ _ _ _ => NamedOption.Canonical.check
  rw [check, if_neg (by simpa using shape.hasSelector), selectors]
  rfl

/-- The check of a matcher that comes from a template stops at the first variant that does not
fit. -/
theorem WellFormed.check_eq_error_iff (shape : matcher.WellFormed) {defect : Defect} :
    matcher.check = .error defect ↔
      ∃ index variant, matcher.FirstMisfit index variant ∧
        defect = .variantArity index matcher.selectors.length variant.keys.length := by
  rw [shape.check_eq, checkAll_eq_error_iff]
  constructor
  · rintro ⟨front, variant, back, split, passed, failed⟩
    have member : variant ∈ matcher.variants := by simp [split]
    rw [shape.check_variant member, Nat.zero_add] at failed
    rw [checkVariants_eq_ok_iff] at passed
    refine ⟨front.length, variant, ⟨by simp [split], ?_, ?_⟩, ?_⟩
    · intro fits
      rw [if_pos fits] at failed
      simp at failed
    · intro other before
      rw [split, List.take_left] at before
      exact (passed other before).1
    · split at failed
      · simp at failed
      · exact (Except.error.inj failed).symm
  · rintro ⟨index, variant, first, rfl⟩
    obtain ⟨inside, here⟩ := List.getElem?_eq_some_iff.mp first.here
    have front : (matcher.variants.take index).length = index :=
      List.length_take_of_le (Nat.le_of_lt inside)
    refine ⟨matcher.variants.take index, variant, matcher.variants.drop (index + 1), ?_, ?_, ?_⟩
    · rw [← here, List.getElem_cons_drop, List.take_append_drop]
    · rw [checkVariants_eq_ok_iff]
      intro other before
      have member := List.mem_of_mem_take before
      refine ⟨first.earlier other before, fun node inner => ?_⟩
      exact ((shape.bodies other member).shapes node inner).passes
    · rw [shape.check_variant (List.mem_of_getElem? first.here), if_neg first.misfit, front,
        Nat.zero_add]

end Matcher

namespace Message

/-- Of a message that comes from a template, a matcher is refused for the first variant that does
not fit, and nothing else is refused. -/
theorem WellFormed.render_eq_error_iff {message : Message} (shape : message.WellFormed)
    {error : Error} :
    message.render = .error error ↔
      ∃ matcher : Matcher, message = [.matcher matcher] ∧
        ∃ index variant, matcher.FirstMisfit index variant ∧
          error = .render (.variantArity index matcher.selectors.length variant.keys.length) := by
  cases shape with
  | flat pattern plain =>
      rw [render_of_wellFormed pattern plain]
      refine iff_of_false (by simp) ?_
      rintro ⟨matcher, rfl, _⟩
      exact pattern.shapes _ List.mem_cons_self
  | @matcher matcher shape =>
      rw [Message.render_eq_error_iff]
      constructor
      · rintro ⟨defect, failed, rfl⟩
        obtain ⟨index, variant, first, rfl⟩ := shape.check_eq_error_iff.mp failed
        exact ⟨matcher, rfl, index, variant, first, rfl⟩
      · rintro ⟨other, same, index, variant, first, rfl⟩
        cases same
        exact ⟨_, shape.check_eq_error_iff.mpr ⟨index, variant, first, rfl⟩, rfl⟩

/-- Of a message that comes from a template, only a variant that does not fit is refused. This says
when there is an error, the lemma before it which one. -/
theorem WellFormed.exists_render_eq_error_iff {message : Message} (shape : message.WellFormed) :
    (∃ error, message.render = .error error) ↔
      ∃ matcher : Matcher, message = [.matcher matcher] ∧
        ∃ variant ∈ matcher.variants, variant.keys.length ≠ matcher.selectors.length := by
  constructor
  · rintro ⟨error, refused⟩
    obtain ⟨matcher, rfl, index, variant, first, _⟩ := shape.render_eq_error_iff.mp refused
    exact ⟨matcher, rfl, variant, List.mem_of_getElem? first.here, first.misfit⟩
  · rintro ⟨matcher, rfl, variant, member, misfit⟩
    cases rendered : render [.matcher matcher] with
    | error error => exact ⟨error, rfl⟩
    | ok template =>
        have passes := Matcher.check_eq_ok_iff.mp (render_eq_ok_iff.mp rendered).1
        exact absurd (passes.arity variant member) misfit

/-- A message that comes from a template is refused exactly if it is a matcher with a variant that
does not fit, and then the error names the first such variant, the number of selectors and the
number of its keys. -/
theorem render_of_parse {template : String} {message : Message}
    (parsed : parse template = .ok message) :
    ((∃ error, message.render = .error error) ↔
      ∃ matcher : Matcher, message = [.matcher matcher] ∧
        ∃ variant ∈ matcher.variants, variant.keys.length ≠ matcher.selectors.length) ∧
      ∀ error, message.render = .error error ↔
        ∃ matcher : Matcher, message = [.matcher matcher] ∧
          ∃ index variant, matcher.FirstMisfit index variant ∧
            error = .render (.variantArity index matcher.selectors.length variant.keys.length) := by
  have shape := wellFormed_of_parse parsed
  exact ⟨shape.exists_render_eq_error_iff, fun error => shape.render_eq_error_iff⟩

/-- The second and the third variant do not fit; the second is named. -/
theorem render_two_misfits :
    render [.matcher ⟨[⟨some (.variable "a"), none⟩],
        [⟨["x"], []⟩, ⟨["x", "y"], []⟩, ⟨["x", "y", "z"], []⟩]⟩] =
      .error (.render (.variantArity 1 1 2)) := by
  have parsed :
      parse "match \x7b$a\x7d when x \x7b\x7d when x y \x7b\x7d when x y z \x7b\x7d" =
        .ok [.matcher ⟨[⟨some (.variable "a"), none⟩],
          [⟨["x"], []⟩, ⟨["x", "y"], []⟩, ⟨["x", "y", "z"], []⟩]⟩] := by decide +kernel
  refine ((render_of_parse parsed).2 _).mpr ⟨_, rfl, 1, ⟨["x", "y"], []⟩, ?_, rfl⟩
  exact ⟨rfl, by simp, by simp⟩

end Message

end MessageTemplate
