import MessageTemplate.Placeholder.Extractor
import MessageTemplate.Plural.Requirement

/-! # Plural messages

A plural message is a matcher on one number with a variant for each plural form. It is built from
one plain string per category, all extracted in one binding context, and it is complete for a
language when every category that the language requires has a variant.
-/

namespace MessageTemplate

namespace Plural

/-- For each category, its form, if there is one. -/
abbrev Forms (α : Type) := Category → Option α

namespace Forms

/-- No forms. -/
def empty {α : Type} : Forms α := fun _ => none

/-- Set the form of a category. -/
def insert {α : Type} (forms : Forms α) (category : Category) (form : α) : Forms α :=
  fun asked => if asked = category then some form else forms asked

/-- The forms of a list, of which the last for each category counts. -/
def ofList {α : Type} (entries : List (Category × α)) : Forms α :=
  entries.foldl (fun forms (category, form) => forms.insert category form) empty

/-- The categories that have a form, with their forms, in order. The order in which the forms were
set is lost. -/
def toList {α : Type} (forms : Forms α) : List (Category × α) :=
  Category.all.filterMap fun category => (forms category).map (category, ·)

end Forms

/-- The function that is applied to the number. -/
def selectorFunction : String := "number"

/-- A plural message with the bindings of its variants, and whether any form had a placeholder. -/
structure PluralMessage where
  message : Message
  bindings : Placeholder.Bindings
  used : Bool
  deriving DecidableEq

/-- Extract the forms in order and make a variant of each. One extractor is passed on from form to
form, so that the variants share their bindings. -/
def extractForms (extractor : Placeholder.Extractor) :
    List (Category × String) → Except Error (List Variant × Bool × Placeholder.Extractor)
  | [] => .ok ([], false, extractor)
  | (category, form) :: rest => do
    let (result, extractor) := extractor.extract form
    let extraction ← result
    let (variants, used, extractor) ← extractForms extractor rest
    return (⟨[category.key], extraction.message⟩ :: variants, extraction.used || used, extractor)

/-- The plural message on a selector for the given forms. The settings' hint asks for a placeholder
in one of the forms at least. -/
def build (selector : String) (forms : Forms String) (settings : Placeholder.Settings) :
    Except Error PluralMessage := do
  if forms.toList.isEmpty then throw (.validation (.noForms selector))
  let (variants, used, extractor) ←
    extractForms { settings := { settings with hint := none } } forms.toList
  match used, settings.hint with
  | false, some hint => throw (.placeholderNotFound hint)
  | _, _ =>
    let expression : Expression :=
      ⟨some (.variable selector), some { name := selectorFunction }⟩
    return ⟨[.matcher ⟨[expression], variants⟩], extractor.bindings, used⟩

/-- The category that the variant is for, when it has a single key that stands for one. -/
def variantCategory? (variant : Variant) : Option Category :=
  match variant.keys with
  | [key] => Category.ofKey? key
  | _ => none

/-- The forms of a matcher: for each category the body of the last variant for it. Variants with
other keys, or with more than one, are passed over. -/
def formsOf (matcher : Matcher) : Forms Message :=
  Forms.ofList (matcher.variants.filterMap fun variant =>
    (variantCategory? variant).map (·, variant.body))

/-- The categories that a language requires and a matcher lacks, in order. -/
def missing (language : Language) (matcher : Matcher) : List Category :=
  (required language).filter fun category => (formsOf matcher category).isNone

/-- Check that a message has a form for every category that a language requires. Further forms do no
harm. -/
def validate (language : Language) (message : Message) : Except Error Unit :=
  match message.matcher? with
  | none => .error (.validation .notMatcher)
  | some matcher =>
    match missing language matcher with
    | [] => .ok ()
    | categories => .error (.validation (.missing language categories))

end Plural

end MessageTemplate
