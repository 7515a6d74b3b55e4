import MessageTemplate.Language
import MessageTemplate.Plural.Category

/-! # Required plural categories

The categories that a plural message needs in each language, for a selection of languages. A
language without an entry needs the last category only, which every language has.
-/

namespace MessageTemplate

namespace Plural

/-- Languages, by their base subtag, with the categories that cardinal numbers use in them. -/
def requirements : List (List String × List Category) := [
  (["en", "de", "nl", "sv", "da", "nb", "nn", "no", "is", "fi", "et", "fa", "hi", "bn", "gu",
    "ta", "te", "kn", "ml", "mr", "it", "es", "pt", "mk", "el", "eu", "gl", "af", "sw", "ur",
    "fil", "tl", "tr", "id", "ms", "fr", "hy", "kab"], [.one, .other]),
  (["ja", "zh", "ko", "th", "vi", "km", "lo", "my", "yue"], [.other]),
  (["ru", "uk", "be", "sr", "hr", "bs", "sh", "pl"], [.one, .few, .many, .other]),
  (["cs", "sk", "lt", "ro"], [.one, .few, .other]),
  (["sl"], [.one, .two, .few, .other]),
  (["lv"], [.zero, .one, .other]),
  (["ga"], [.one, .two, .few, .many, .other]),
  (["ar"], [.zero, .one, .two, .few, .many, .other]),
  (["he", "iw"], [.one, .two, .many, .other])]

/-- The categories that a language requires, in order. A language without an entry requires the last
category alone. -/
def required (language : Language) : List Category :=
  match requirements.find? fun (bases, _) => bases.contains language.base with
  | some (_, categories) => categories
  | none => [.other]

/-- The categories that the language with a given identifier requires. A text that identifies no
language is treated like one without an entry. -/
def requiredFor (identifier : String) : List Category :=
  match Language.parse identifier with
  | .ok language => required language
  | .error _ => [.other]

end Plural

end MessageTemplate
