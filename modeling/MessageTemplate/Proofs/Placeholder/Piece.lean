import Mathlib.Data.List.Chain
import Mathlib.Data.Option.Basic
import MessageTemplate.Proofs.Message.Option
import MessageTemplate.Proofs.Placeholder.Selection

/-! # The pieces of a text

The pieces that a text falls into are well formed: plain pieces are not empty and do not stand side
by side, and what a placeholder captures can be the value of an option
(`MessageTemplate.Placeholder.wellFormed_pieces`). This holds for every list of formats.
-/

namespace MessageTemplate

namespace Placeholder

/-- What a placeholder captures for its argument: a name or a run of digits. Either can be the value
of an option, and is read as one again. -/
structure IsArgument (argument : String) : Prop where
  shape : Lexeme.isOptionValue argument.toList = true
  plain : startsOgham argument = false

/-- What the placeholder captures, if anything, can be the value of an option. All that a format
finds is of this kind. -/
def WellFormed (placeholder : Placeholder) : Prop :=
  ∀ argument ∈ placeholder.argument, IsArgument argument

/-! ### Captured arguments -/

theorem toNat_of_isIdentifierStart {c : Char} (start : isIdentifierStart c = true) :
    0x41 ≤ c.toNat ∧ c.toNat ≤ 0x5A ∨ c.toNat = 0x5F ∨ 0x61 ≤ c.toNat ∧ c.toNat ≤ 0x7A := by
  have same : c.val.toNat = c.toNat := rfl
  change ((decide (c.val ≥ 'A'.val ∧ c.val ≤ 'Z'.val) || (c.val ≥ 'a'.val && c.val ≤ 'z'.val)) ||
    c = '_') = true at start
  simp only [ge_iff_le, UInt32.le_iff_toNat_le, same, Bool.or_eq_true, Bool.and_eq_true,
    decide_eq_true_eq] at start
  rcases start with (upper | lower) | rfl
  · exact .inl upper
  · exact .inr (.inr lower)
  · decide

/-- Whatever starts an identifier starts a name, so a captured identifier is a name. -/
theorem isNameStart_of_isIdentifierStart {c : Char} (start : isIdentifierStart c = true) :
    isNameStart c = true := by
  have range := toNat_of_isIdentifierStart start
  simp only [isNameStart, CharClass.contains, CharClass.nameStart, List.any_cons, Bool.or_eq_true,
    Bool.and_eq_true, decide_eq_true_eq]
  omega

theorem isNameChar_of_isIdentifierChar {c : Char} (inside : isIdentifierChar c = true) :
    isNameChar c = true := by
  by_cases start : isIdentifierStart c = true
  · exact isNameChar_of_isNameStart (isNameStart_of_isIdentifierStart start)
  · apply isNameChar_of_isDigit
    simp only [isIdentifierStart, isIdentifierChar, Char.isAlphanum, Bool.or_eq_true]
      at start inside
    rcases inside with (letter | digit) | underscore
    · exact absurd (.inl letter) start
    · exact digit
    · exact absurd (.inr underscore) start

theorem isArgument_of_isDigits {digits : List Char} (shape : isDigits digits = true) :
    IsArgument (String.ofList digits) := by
  have shape' : isDigits (String.ofList digits).toList = true := by rwa [String.toList_ofList]
  refine ⟨?_, startsOgham_of_isDigits shape'⟩
  rw [Lexeme.isOptionValue, shape', Bool.or_true]

theorem isDigits_spanDigits {cs : List Char} (nonempty : (spanDigits cs).1 ≠ []) :
    isDigits (spanDigits cs).1 = true := by
  simp only [isDigits, Bool.and_eq_true, Bool.not_eq_true', List.isEmpty_eq_false_iff]
  refine ⟨nonempty, List.all_eq_true.mpr ?_⟩
  exact fun c member => List.mem_takeWhile_imp member

/-- A nonempty identifier can be captured, since identifiers are names of a narrower kind. -/
theorem isArgument_spanIdentifier {cs : List Char} (nonempty : (spanIdentifier cs).1 ≠ []) :
    IsArgument (String.ofList (spanIdentifier cs).1) := by
  cases cs with
  | nil => exact absurd rfl nonempty
  | cons c cs =>
      rw [spanIdentifier] at nonempty ⊢
      split at nonempty
      · rename_i start
        rw [if_pos start]
        constructor
        · have others : ∀ d ∈ cs.takeWhile isIdentifierChar, isNameChar d = true :=
            fun d member => isNameChar_of_isIdentifierChar (List.mem_takeWhile_imp member)
          have name := isNameStart_of_isIdentifierStart start
          rw [String.toList_ofList, Lexeme.isOptionValue, isNameChars, name,
            List.all_eq_true.mpr others]
          rfl
        · have other : c ≠ oghamSpace := ne_of_kind start (by decide)
          simp [startsOgham, other]
      · exact absurd rfl nonempty

variable {cs source : List Char} {placeholder : Placeholder}

theorem wellFormed_of_pythonVar (found : pythonVar cs = some (placeholder, source)) :
    placeholder.WellFormed := by
  unfold pythonVar at found
  split at found
  · rename_i cs
    dsimp only at found
    split at found
    · rename_i letter rest afterName
      simp only [Option.bind_eq_bind, Option.bind_eq_some_iff] at found
      obtain ⟨_, named, type, _, made⟩ := found
      cases made
      intro argument captured
      obtain rfl := Option.some_inj.mp captured
      apply isArgument_spanIdentifier
      intro empty
      rw [Option.guard_eq_some', empty] at named
      simp at named
    · simp at found
  · simp at found

theorem isArgument_of_spanPosition {position rest : List Char}
    (found : spanPosition cs = some (position, rest)) : IsArgument (String.ofList position) := by
  unfold spanPosition at found
  split at found
  · rename_i first digits rest' spanned
    split at found
    · simp at found
    · cases found
      apply isArgument_of_isDigits
      have shape := @isDigits_spanDigits cs
      rw [spanned] at shape
      exact shape (by simp)
  · simp at found

theorem wellFormed_of_printf (found : printf cs = some (placeholder, source)) :
    placeholder.WellFormed := by
  unfold printf at found
  split at found
  · split at found
    · rename_i position rest spanned
      obtain ⟨⟨type, taken⟩, _, made⟩ := Option.map_eq_some_iff.mp found
      cases made
      intro argument captured
      obtain rfl := Option.some_inj.mp captured
      exact isArgument_of_spanPosition spanned
    · obtain ⟨⟨type, taken⟩, _, made⟩ := Option.map_eq_some_iff.mp found
      cases made
      intro argument captured
      simp at captured
  · simp at found

theorem wellFormed_of_bracketVar (found : bracketVar cs = some (placeholder, source)) :
    placeholder.WellFormed := by
  unfold bracketVar at found
  split at found
  · rename_i cs
    have named {name : List Char}
        (captured : name.isEmpty = false → IsArgument (String.ofList name))
        (made : (if name.isEmpty = true then none
          else some (⟨.bracketVar, String.ofList name, none⟩, '{' :: name ++ ['}'])) =
            some (placeholder, source)) : placeholder.WellFormed := by
      split at made
      · simp at made
      · rename_i nonempty
        cases made
        intro argument same
        obtain rfl := Option.some_inj.mp same
        exact captured (Bool.not_eq_true _ ▸ nonempty)
    dsimp only at found
    split at found
    · by_cases none : (spanIdentifier cs).1.isEmpty = true
      · rw [if_pos none] at found
        refine named (fun nonempty => ?_) found
        exact isArgument_of_isDigits (isDigits_spanDigits (by simpa using nonempty))
      · rw [if_neg none] at found
        refine named (fun nonempty => ?_) found
        exact isArgument_spanIdentifier (by simpa using nonempty)
    · simp at found
  · simp at found

theorem wellFormed_of_emptyBracket (found : emptyBracket cs = some (placeholder, source)) :
    placeholder.WellFormed := by
  unfold emptyBracket at found
  split at found
  · cases found
    intro argument captured
    simp at captured
  · simp at found

/-- What a format captures can be the value of an option. Each format has its lemma, and this one
goes through them. -/
theorem wellFormed_of_pattern {format : Format}
    (found : format.pattern cs = some (placeholder, source)) : placeholder.WellFormed := by
  cases format with
  | pythonVar => exact wellFormed_of_pythonVar found
  | printf => exact wellFormed_of_printf found
  | bracketVar => exact wellFormed_of_bracketVar found
  | emptyBracket => exact wellFormed_of_emptyBracket found

/-! ### Selected directives -/

/-- What a directive captures can be the value of an option. A doubled percent sign captures
nothing. -/
def Directive.WellFormed : Directive → Prop
  | .percent => True
  | .placeholder found => found.WellFormed

/-- Whatever is selected was matched by a format. -/
theorem wellFormed_of_mem_select {formats : List Format} {text : List Char}
    {occurrence : Occurrence Directive} (member : occurrence ∈ select formats text) :
    occurrence.found.WellFormed := by
  obtain ⟨_, ⟨_, matched⟩ | ⟨format, _, matched⟩⟩ :=
    matches_of_mem_collect (mem_collect_of_mem_select member)
  · rw [(doubledPercent_eq_some_iff.mp matched).1]
    trivial
  · obtain ⟨placeholder, found, captured⟩ := directive_eq_some_iff.mp matched
    rw [found]
    exact wellFormed_of_pattern captured

/-! ### Pieces -/

namespace Piece

/-- A plain piece is not empty, and a placeholder captures what can be the value of an option. -/
def WellFormed : Piece → Prop
  | .text chars => chars ≠ []
  | .placeholder found => found.WellFormed

end Piece

/-- Plain pieces are not empty and do not stand side by side. -/
structure WellFormedPieces (pieces : List Piece) : Prop where
  each : ∀ piece ∈ pieces, piece.WellFormed
  apart : pieces.IsChain fun left right => left.isPlaceholder = true ∨ right.isPlaceholder = true

/-- Putting characters in front keeps pieces well formed: they join a text or make one that is not
empty. -/
theorem WellFormedPieces.consText {pieces : List Piece} (shape : WellFormedPieces pieces)
    (chars : List Char) : WellFormedPieces (Piece.consText chars pieces) := by
  unfold Piece.consText
  split
  · exact shape
  · rename_i nonempty
    obtain ⟨each, apart⟩ := shape
    rw [List.forall_mem_cons] at each
    rw [List.isChain_cons] at apart
    constructor
    · refine List.forall_mem_cons.mpr ⟨?_, each.2⟩
      exact fun empty => nonempty (List.append_eq_nil_iff.mp empty).1
    · rw [List.isChain_cons]
      exact apart
  · rename_i nonempty notText
    constructor
    · exact List.forall_mem_cons.mpr ⟨nonempty, shape.each⟩
    · rw [List.isChain_cons]
      refine ⟨fun piece first => .inr ?_, shape.apart⟩
      cases piece with
      | text following =>
          obtain ⟨rest, rfl⟩ := List.head?_eq_some_iff.mp first
          exact absurd rfl (notText following rest)
      | placeholder found => rfl

/-- Cutting a text makes well-formed pieces, whatever the occurrences and wherever they stand. Empty
pieces are not made, and plain ones are joined. -/
theorem wellFormed_cut {occurrences : List (Occurrence Directive)}
    (each : ∀ occurrence ∈ occurrences, occurrence.found.WellFormed) (position : Nat)
    (rest : List Char) : WellFormedPieces (Piece.cut position rest occurrences) := by
  induction occurrences generalizing position rest with
  | nil => exact WellFormedPieces.consText ⟨by simp, .nil⟩ rest
  | cons occurrence following ih =>
      rw [List.forall_mem_cons] at each
      have pieces := ih each.2 occurrence.stop (rest.drop (occurrence.stop - position))
      rw [Piece.cut]
      apply WellFormedPieces.consText
      split
      · exact pieces.consText ['%']
      · rename_i found same
        have captured := each.1
        rw [same] at captured
        constructor
        · exact List.forall_mem_cons.mpr ⟨captured, pieces.each⟩
        · rw [List.isChain_cons]
          exact ⟨fun _ _ => .inl rfl, pieces.apart⟩

/-- The pieces of a text are well formed, whatever the formats. Messages made of them can therefore
be written as templates. -/
theorem wellFormed_pieces (formats : List Format) (text : List Char) :
    WellFormedPieces (pieces formats text) :=
  wellFormed_cut (fun _ => wellFormed_of_mem_select) 0 text

end Placeholder

end MessageTemplate
