import Mathlib.Data.Option.Basic
import MessageTemplate.Proofs.Placeholder.Selection
import MessageTemplate.Proofs.Token.Munch

/-! # How directives can overlap

Every directive starts with a percent sign or an opening brace, and a placeholder has no other of
these signs (`MessageTemplate.Placeholder.shape_of_directive`). So placeholders do not overlap one
another, and only the second sign of a doubled percent sign can be the first of something else
(`MessageTemplate.Placeholder.Directive.Shape.covered`). Two formats never match at the same
place, nor does a format match at a doubled percent sign.
-/

namespace MessageTemplate

namespace Placeholder

/-- The signs that directives start with: the percent sign and the opening brace. No directive has
one of them behind its start, doubled percent signs excepted. -/
def isDirectiveSign (c : Char) : Bool := c = '%' || c = '\x7b'

/-- No sign that a directive starts with is among the characters. So no directive can start at any
of them. -/
def Plain (cs : List Char) : Prop := ∀ c ∈ cs, isDirectiveSign c = false

theorem isDirectiveSign_of_kind {kind : Char → Bool} {c : Char} (inside : kind c = true)
    (percent : kind '%' = false) (brace : kind '\x7b' = false) : isDirectiveSign c = false := by
  simp only [isDirectiveSign, Bool.or_eq_false_iff, decide_eq_false_iff_not]
  exact ⟨ne_of_kind inside percent, ne_of_kind inside brace⟩

section Plain

variable {cs source others : List Char} {c : Char}

theorem Plain.nil : Plain [] := by simp [Plain]

theorem Plain.cons (first : isDirectiveSign c = false) (plain : Plain cs) : Plain (c :: cs) :=
  List.forall_mem_cons.mpr ⟨first, plain⟩

theorem Plain.append (plain : Plain cs) (plain' : Plain others) : Plain (cs ++ others) :=
  List.forall_mem_append.mpr ⟨plain, plain'⟩

theorem Plain.takeWhile {kind : Char → Bool} (percent : kind '%' = false)
    (brace : kind '\x7b' = false) (cs : List Char) : Plain (cs.takeWhile kind) :=
  fun _ member => isDirectiveSign_of_kind (List.mem_takeWhile_imp member) percent brace

/-! ### The characters of placeholders -/

theorem plain_spanDigits (cs : List Char) : Plain (spanDigits cs).1 :=
  Plain.takeWhile (by decide) (by decide) cs

theorem plain_spanIdentifier (cs : List Char) : Plain (spanIdentifier cs).1 := by
  cases cs with
  | nil => exact .nil
  | cons c cs =>
      rw [spanIdentifier]
      split
      · rename_i start
        exact .cons (isDirectiveSign_of_kind start (by decide) (by decide))
          (Plain.takeWhile (by decide) (by decide) cs)
      · exact .nil

theorem plain_spanFraction (cs : List Char) : Plain (spanFraction cs).1 := by
  unfold spanFraction
  split
  · split
    · exact .nil
    · exact .cons (by decide) (plain_spanDigits _)
  · exact .nil

theorem plain_spanLength (cs : List Char) : Plain (spanLength cs).1 := by
  unfold spanLength
  split
  · exact .cons (by decide) (.cons (by decide) .nil)
  · exact .cons (by decide) .nil
  · exact .cons (by decide) .nil
  · exact .nil

theorem plain_conversionLetter {type : ValueType} (asks : conversion? c = some type) :
    isDirectiveSign c = false :=
  @isDirectiveSign_of_kind (fun c => (conversion? c).isSome) c (by simp [asks]) (by decide)
    (by decide)

theorem plain_namedConversionLetter {type : ValueType}
    (asks : namedConversion? c = some type) : isDirectiveSign c = false :=
  @isDirectiveSign_of_kind (fun c => (namedConversion? c).isSome) c (by simp [asks]) (by decide)
    (by decide)

/-- A conversion is plain, part by part up to its letter. -/
theorem plain_conversion {type : ValueType} (found : conversion cs = some (type, source)) :
    Plain source := by
  simp only [conversion] at found
  split at found
  · obtain ⟨_, asks, made⟩ := Option.map_eq_some_iff.mp found
    cases made
    have flags : Plain (cs.takeWhile isFlag) := Plain.takeWhile (by decide) (by decide) cs
    have letter := Plain.cons (plain_conversionLetter asks) .nil
    exact (((flags.append (plain_spanDigits _)).append (plain_spanFraction _)).append
      (plain_spanLength _)).append letter
  · simp at found

theorem plain_spanPosition {position rest : List Char}
    (found : spanPosition cs = some (position, rest)) : Plain position := by
  unfold spanPosition at found
  split at found
  · rename_i spanned
    split at found
    · simp at found
    · cases found
      have plain := plain_spanDigits cs
      rwa [spanned] at plain
  · simp at found

end Plain

/-- A placeholder is spelled with one sign, at its start. All that is known about how placeholders
overlap comes from this. -/
theorem exists_sign_of_pattern {format : Format} {cs source : List Char} {placeholder : Placeholder}
    (found : format.pattern cs = some (placeholder, source)) :
    ∃ sign inner, source = sign :: inner ∧ isDirectiveSign sign = true ∧ Plain inner := by
  cases format with
  | pythonVar =>
      simp only [Format.pattern, Placeholder.pythonVar] at found
      split at found
      · split at found
        · simp only [Option.bind_eq_bind, Option.bind_eq_some_iff] at found
          obtain ⟨_, _, type, asks, made⟩ := found
          cases made
          have letter := Plain.cons (plain_namedConversionLetter asks) .nil
          exact ⟨_, _, rfl, by decide, .cons (by decide) ((plain_spanIdentifier _).append
            (.cons (by decide) letter))⟩
        · simp at found
      · simp at found
  | printf =>
      simp only [Format.pattern, Placeholder.printf] at found
      split at found
      · split at found
        · rename_i spanned
          obtain ⟨_, converted, made⟩ := Option.map_eq_some_iff.mp found
          cases made
          exact ⟨_, _, rfl, by decide, (plain_spanPosition spanned).append
            (.cons (by decide) (plain_conversion converted))⟩
        · obtain ⟨_, converted, made⟩ := Option.map_eq_some_iff.mp found
          cases made
          exact ⟨_, _, rfl, by decide, plain_conversion converted⟩
      · simp at found
  | bracketVar =>
      simp only [Format.pattern, Placeholder.bracketVar] at found
      split at found
      · rename_i cs
        have named {name : List Char} (plain : Plain name)
            (made : (if name.isEmpty = true then none
              else some (⟨.bracketVar, String.ofList name, none⟩, '\x7b' :: name ++ ['\x7d'])) =
                some (placeholder, source)) :
            ∃ sign inner, source = sign :: inner ∧ isDirectiveSign sign = true ∧ Plain inner := by
          split at made
          · simp at made
          · cases made
            exact ⟨_, _, rfl, by decide, plain.append (.cons (by decide) .nil)⟩
        split at found
        · by_cases none : (spanIdentifier cs).1.isEmpty = true
          · rw [if_pos none] at found
            exact named (plain_spanDigits cs) found
          · rw [if_neg none] at found
            exact named (plain_spanIdentifier cs) found
        · simp at found
      · simp at found
  | emptyBracket =>
      simp only [Format.pattern, Placeholder.emptyBracket] at found
      split at found
      · cases found
        exact ⟨_, _, rfl, by decide, .cons (by decide) .nil⟩
      · simp at found

/-! ### One directive at a place -/

/-- The format of a placeholder, told by its first two characters. A text that starts so need not
start with a placeholder. -/
def formatOf? : List Char → Option Format
  | '%' :: '(' :: _ => some .pythonVar
  | '%' :: _ => some .printf
  | '\x7b' :: '\x7d' :: _ => some .emptyBracket
  | '\x7b' :: _ => some .bracketVar
  | _ => none

theorem printf_parenthesis (cs : List Char) : printf ('%' :: '(' :: cs) = none := rfl

theorem bracketVar_braces (cs : List Char) : bracketVar ('\x7b' :: '\x7d' :: cs) = none := rfl

/-- Where a format matches, the first two characters name it. So two formats cannot match at one
place. -/
theorem formatOf?_of_pattern {format : Format} {cs source : List Char} {placeholder : Placeholder}
    (found : format.pattern cs = some (placeholder, source)) : formatOf? cs = some format := by
  cases format with
  | pythonVar =>
      simp only [Format.pattern, Placeholder.pythonVar] at found
      split at found
      · rfl
      · simp at found
  | printf =>
      obtain ⟨cs, rfl⟩ : ∃ rest, cs = '%' :: rest := by
        simp only [Format.pattern, Placeholder.printf] at found
        split at found
        · exact ⟨_, rfl⟩
        · simp at found
      unfold formatOf?
      split
      · rename_i same
        rw [same, Format.pattern, printf_parenthesis] at found
        simp at found
      all_goals simp_all
  | bracketVar =>
      obtain ⟨cs, rfl⟩ : ∃ rest, cs = '\x7b' :: rest := by
        simp only [Format.pattern, Placeholder.bracketVar] at found
        split at found
        · exact ⟨_, rfl⟩
        · simp at found
      unfold formatOf?
      split
      case h_3 same =>
        rw [same, Format.pattern, bracketVar_braces] at found
        simp at found
      all_goals simp_all
  | emptyBracket =>
      simp only [Format.pattern, Placeholder.emptyBracket] at found
      split at found
      · rfl
      · simp at found

/-- No placeholder starts at a doubled percent sign. So at one place there is never a choice between
the two. -/
theorem pattern_doubledPercent (format : Format) (cs : List Char) :
    format.pattern ('%' :: '%' :: cs) = none := by
  cases format <;> rfl

/-! ### Directives -/

/-- The characters that spell a directive: two percent signs, or one sign with plain characters
behind it. -/
inductive Directive.Shape : Directive → List Char → Prop
  | percent : Shape .percent ['%', '%']
  | placeholder (found : Placeholder) {sign : Char} {inner : List Char}
      (signed : isDirectiveSign sign = true) (plain : Plain inner) :
      Shape (.placeholder found) (sign :: inner)

theorem shape_of_doubledPercent {cs source : List Char} {found : Directive}
    (matched : doubledPercent cs = some (found, source)) : found.Shape source := by
  obtain ⟨rfl, rfl, _⟩ := doubledPercent_eq_some_iff.mp matched
  exact .percent

theorem shape_of_directive {format : Format} {cs source : List Char} {found : Directive}
    (matched : format.directive cs = some (found, source)) : found.Shape source := by
  obtain ⟨placeholder, rfl, captured⟩ := directive_eq_some_iff.mp matched
  obtain ⟨sign, inner, rfl, signed, plain⟩ := exists_sign_of_pattern captured
  exact .placeholder placeholder signed plain

theorem Directive.Shape.exists_sign {found : Directive} {source : List Char}
    (shape : found.Shape source) :
    ∃ sign inner, source = sign :: inner ∧ isDirectiveSign sign = true := by
  cases shape with
  | percent => exact ⟨_, _, rfl, by decide⟩
  | placeholder found signed plain => exact ⟨_, _, rfl, signed⟩

/-- The doubled percent sign at a place, as it is found there in whatever text. -/
def percentAt (place : Nat) : Occurrence Directive := ⟨place, ['%', '%'], .percent⟩

/-- Where a sign stands inside a directive, but not at its start, the directive is a doubled percent
sign and the place is that of its second sign. A placeholder has no second sign. -/
theorem Directive.Shape.covered {kept : Occurrence Directive} {text : List Char}
    (shape : kept.found.Shape kept.source) (stands : kept.source <+: text.drop kept.start)
    {place : Nat} {sign : Char} (signed : isDirectiveSign sign = true)
    (here : text[place]? = some sign) (behind : kept.start < place) (inside : place < kept.stop) :
    kept = percentAt kept.start ∧ place = kept.start + 1 := by
  obtain ⟨start, source, found⟩ := kept
  simp only [Occurrence.stop] at shape stands behind inside ⊢
  cases shape with
  | percent =>
      rw [List.length_cons, List.length_singleton] at inside
      exact ⟨rfl, by omega⟩
  | @placeholder found first inner _ plain =>
      -- the sign would be one of the plain characters
      obtain ⟨distance, rfl⟩ : ∃ distance, place = start + (distance + 1) :=
        ⟨place - start - 1, by omega⟩
      rw [List.length_cons] at inside
      have member : sign ∈ inner := by
        obtain ⟨rest, same⟩ := stands
        rw [← List.getElem?_drop, ← same, List.cons_append, List.getElem?_cons_succ,
          List.getElem?_append_left (by omega)] at here
        exact List.mem_of_getElem? here
      exact absurd (plain sign member) (by simp [signed])

/-- At most one format matches at a place. So it makes no difference which of them is tried
first. -/
theorem format_eq_of_directive {format other : Format} {cs source source' : List Char}
    {found found' : Directive} (matched : format.directive cs = some (found, source))
    (matched' : other.directive cs = some (found', source')) : format = other := by
  obtain ⟨_, _, captured⟩ := directive_eq_some_iff.mp matched
  obtain ⟨_, _, captured'⟩ := directive_eq_some_iff.mp matched'
  exact Option.some_inj.mp ((formatOf?_of_pattern captured).symm.trans
    (formatOf?_of_pattern captured'))

theorem directive_eq_none_of_doubledPercent {format : Format} {cs source : List Char}
    {found : Directive} (matched : doubledPercent cs = some (found, source)) :
    format.directive cs = none := by
  obtain ⟨rfl, rfl, rest, rfl⟩ := doubledPercent_eq_some_iff.mp matched
  exact congrArg (Option.map _) (pattern_doubledPercent format rest)

end Placeholder

end MessageTemplate
