import MessageTemplate.Message.Equality
import MessageTemplate.Proofs.Message.Swallowed

/-! # Formatting a template

To format a template is to render the message that it is parsed to. A formatted template stands for
the same message, and is its own formatting, unless some variant key is swallowed
(`MessageTemplate.Message.formatted_iff`).
-/

namespace MessageTemplate

namespace Message

open Grammar

/-- The template that the message of a template is rendered as. It fails where the template has no
message or the message has no template. -/
def format (template : String) : Except Error String := parse template >>= render

/-- The keys of the variants of a message, in the order in which they are spelled. -/
def keys : Message → List String
  | [.matcher matcher] => matcher.variants.flatMap Variant.keys
  | _ => []

section Swallowed

variable {matcher : Matcher} (shape : matcher.WellFormed)
  (swallowed : ∃ variant ∈ matcher.variants, ∃ key ∈ variant.keys, isSwallowed key = true)

include shape swallowed

/-- However the spelling of a matcher is cut, it is cut as laid out up to the first swallowed
key. -/
theorem exists_back_of_segmented {segments : List Segment} {gap : List Char} {mode : Mode}
    (segmented : Segmented (String.ofList (spell [.matcher matcher])) segments gap mode) :
    ∃ front key keys tail back, isSwallowed key = true ∧
      matcher.segments spellKey = ⟨[], matchWord.toList, .keyword matchWord⟩ ::
        (front ++ ((key :: keys).map (keySegment spellKey) ++ ⟨[' '], ['{'], .openBrace⟩ :: tail)) ∧
      segments = ⟨[], matchWord.toList, .keyword matchWord⟩ :: (front ++ back) ∧
      Lexes .amongKeys back gap ⟨.outside, mode⟩ ∧
      source ((key :: keys).map (keySegment spellKey) ++ ⟨[' '], ['{'], .openBrace⟩ :: tail) =
        source back ++ gap := by
  obtain ⟨joined, blank, lexes⟩ := segmented
  obtain ⟨front, key, keys, tail, held, laid, cut⟩ := exists_swallowed shape.readable swallowed
  have spelled := source_segments [.matcher matcher]
  rw [Message.segments, laid, ← List.cons_append, source_append] at spelled
  rw [String.toList_ofList, ← spelled] at joined
  obtain ⟨back, same, behind, ahead⟩ := cut.split lexes blank joined
  exact ⟨front, key, keys, tail, back, held, laid, same, behind, ahead⟩

/-- A matcher with a swallowed key is not read back: at the place of that key the lexer finds
another one, or none. -/
theorem parse_ne_of_swallowed :
    parse (String.ofList (spell [.matcher matcher])) ≠ .ok [.matcher matcher] := by
  intro parsed
  obtain ⟨_, gap, mode, segmented, derives⟩ := parse_eq_ok_iff.mp parsed
  obtain ⟨front, key, keys, tail, back, held, laid, rfl, behind, ahead⟩ :=
    exists_back_of_segmented shape swallowed segmented
  -- the terminals that were found and those that were laid out agree in shape
  have found := map_shape_of_matcher (derivesMatcher_of_message derives)
  have meant := map_shape_of_matcher (derives_matcher spellKey shape.readable)
  rw [shape.normalize_eq, ← found, laid] at meant
  simp only [List.map_cons, List.map_append, List.cons.injEq, true_and] at meant
  rw [List.append_cancel_left_eq] at meant
  cases back with
  | nil => simp at meant
  | cons segment back =>
      have literal := (List.cons.inj meant).1
      exact terminal_ne_of_swallowed behind ahead held (shape_eq_literal_iff.mp literal.symm)

/-- A matcher whose keys are all read back is not spelled like one with a swallowed key: its layout
would have a gap of two blanks. -/
theorem spell_ne_of_kept {other : Matcher} (readable : other.Readable)
    (kept : ∀ variant ∈ other.variants, ∀ key ∈ variant.keys, KeyReads spellKey key) :
    spell [.matcher matcher] ≠ spell [.matcher other] := by
  intro same
  obtain ⟨mode, lexes⟩ := lexes_matcher readable kept
  have segmented := segmented_ofList lexes
  have spelled : source (other.segments spellKey) = spell [.matcher other] :=
    source_segments [.matcher other]
  rw [spelled, ← same] at segmented
  obtain ⟨front, key, keys, tail, back, held, _, laid, behind, ahead⟩ :=
    exists_back_of_segmented shape swallowed segmented
  have tight := isTight_matcher spellKey other
  rw [laid, List.forall_mem_cons, List.forall_mem_append] at tight
  cases back with
  | nil => simp at ahead
  | cons segment back =>
      rw [List.map_cons, List.cons_append, source_cons, keySegment,
        spellKey_of_isSwallowed held] at ahead
      exact not_isTight_of_swallowed behind ahead held (tight.2.2 segment List.mem_cons_self)

/-- What the spelling of a matcher with a swallowed key is parsed to is a matcher, since it still
starts with the keyword of one. -/
theorem exists_matcher_of_parse {message : Message}
    (parsed : parse (String.ofList (spell [.matcher matcher])) = .ok message) :
    ∃ other : Matcher, message = [.matcher other] ∧ other.WellFormed := by
  obtain ⟨_, gap, mode, segmented, derives⟩ := parse_eq_ok_iff.mp parsed
  have shape' := segmented.lexes.wellFormed
  obtain ⟨front, key, keys, tail, back, _, _, rfl, _⟩ :=
    exists_back_of_segmented shape swallowed segmented
  rw [List.map_cons] at derives shape'
  cases derives with
  | expression derives => nomatch derives
  | pattern derives => nomatch derives
  | matcher derives => exact ⟨_, rfl, matcher_of_derives derives shape'⟩

/-- The spelling of a matcher with a swallowed key is not its own formatting. Whatever it is parsed
to, that matcher is spelled in another way. -/
theorem format_ne_of_swallowed :
    format (String.ofList (spell [.matcher matcher])) ≠
      .ok (String.ofList (spell [.matcher matcher])) := by
  intro formatted
  obtain ⟨message, parsed, rendered⟩ := Reading.bind_eq_ok.mp formatted
  obtain ⟨_, same⟩ := render_eq_ok_iff.mp rendered
  have same : spell [.matcher matcher] = message.spell := String.ofList_injective same
  obtain ⟨other, rfl, shape'⟩ := exists_matcher_of_parse shape swallowed parsed
  -- the matcher that is parsed, spelled the same, has itself swallowed keys or it has none
  by_cases swallowed' : ∃ variant ∈ other.variants, ∃ key ∈ variant.keys, isSwallowed key = true
  · rw [same] at parsed
    exact parse_ne_of_swallowed shape' swallowed' parsed
  · refine spell_ne_of_kept shape swallowed shape'.readable ?_ same
    intro variant member key inside
    apply keyReads_spellKey
    rw [← Bool.not_eq_true]
    exact fun held => swallowed' ⟨variant, member, key, inside, held⟩

end Swallowed

/-- A pattern has no keys, so nothing in it can be swallowed. -/
theorem keys_of_pattern {nodes : List Node} (pattern : WellFormedPattern nodes) :
    keys nodes = [] := by
  unfold keys
  split
  · exact absurd (pattern.shapes _ List.mem_cons_self) (by simp [Node.WellFormed])
  · rfl

section WellFormed

variable {message : Message} (shape : message.WellFormed)

include shape

/-- A well-formed message without swallowed keys is read back, because it is its own normal form. -/
theorem parse_spell_of_kept (kept : ∀ key ∈ message.keys, isSwallowed key = false) :
    parse (String.ofList message.spell) = .ok message := by
  cases shape with
  | flat pattern plain => exact parse_spell_of_wellFormed pattern plain
  | @matcher matcher inner =>
      have parsed := parse_spell_of_matcher inner.readable fun variant member key inside =>
        keyReads_spellKey (kept key (List.mem_flatMap.mpr ⟨variant, member, inside⟩))
      rwa [(WellFormed.matcher inner).normalize_eq] at parsed

/-- A well-formed message with a swallowed key is not read back, and its spelling is not its own
formatting. -/
theorem not_formatted_of_swallowed {key : String} (member : key ∈ message.keys)
    (swallowed : isSwallowed key = true) :
    parse (String.ofList message.spell) ≠ .ok message ∧
      format (String.ofList message.spell) ≠ .ok (String.ofList message.spell) := by
  cases shape with
  | flat pattern _ =>
      rw [keys_of_pattern pattern] at member
      exact absurd member List.not_mem_nil
  | @matcher matcher inner =>
      obtain ⟨variant, member, inside⟩ := List.mem_flatMap.mp member
      have found : ∃ variant ∈ matcher.variants, ∃ key ∈ variant.keys, isSwallowed key = true :=
        ⟨variant, member, key, inside, swallowed⟩
      exact ⟨parse_ne_of_swallowed inner found, format_ne_of_swallowed inner found⟩

end WellFormed

/-- A rendered message that comes from a template is read back as itself, and its template is its
own formatting, exactly if none of its keys is a name that starts with the ogham space mark. -/
theorem formatted_iff {origin template : String} {message : Message}
    (parsed : parse origin = .ok message) (rendered : message.render = .ok template) :
    (parse template = .ok message ↔ ∀ key ∈ message.keys, isSwallowed key = false) ∧
      (format template = .ok template ↔ ∀ key ∈ message.keys, isSwallowed key = false) := by
  obtain ⟨_, rfl⟩ := render_eq_ok_iff.mp rendered
  have shape := wellFormed_of_parse parsed
  by_cases kept : ∀ key ∈ message.keys, isSwallowed key = false
  · have readBack := parse_spell_of_kept shape kept
    have formatted : format (String.ofList message.spell) = .ok (String.ofList message.spell) :=
      Reading.bind_eq_ok.mpr ⟨message, readBack, rendered⟩
    exact ⟨iff_of_true readBack kept, iff_of_true formatted kept⟩
  · obtain ⟨key, member, swallowed⟩ : ∃ key ∈ message.keys, isSwallowed key = true := by
      simpa using kept
    obtain ⟨notRead, notFormatted⟩ := not_formatted_of_swallowed shape member swallowed
    exact ⟨iff_of_false notRead kept, iff_of_false notFormatted kept⟩

/-- A template that bars and odd spacing keep from being its own formatting. -/
theorem formatted_bare_key :
    parse "match\x7b$n\x7dwhen |one| \x7ba\x7d" =
        .ok [.matcher ⟨[⟨some (.variable "n"), none⟩], [⟨["one"], [.text "a"]⟩]⟩] ∧
      parse "match \x7b$n\x7d when one \x7ba\x7d" =
        .ok [.matcher ⟨[⟨some (.variable "n"), none⟩], [⟨["one"], [.text "a"]⟩]⟩] ∧
      format "match \x7b$n\x7d when one \x7ba\x7d" = .ok "match \x7b$n\x7d when one \x7ba\x7d" := by
  have parsed : parse "match\x7b$n\x7dwhen |one| \x7ba\x7d" =
      .ok [.matcher ⟨[⟨some (.variable "n"), none⟩], [⟨["one"], [.text "a"]⟩]⟩] := by
    decide +kernel
  have rendered : render [.matcher ⟨[⟨some (.variable "n"), none⟩], [⟨["one"], [.text "a"]⟩]⟩] =
      .ok "match \x7b$n\x7d when one \x7ba\x7d" := by rfl
  have kept : ∀ key ∈ keys [.matcher ⟨[⟨some (.variable "n"), none⟩], [⟨["one"], [.text "a"]⟩]⟩],
      isSwallowed key = false := by decide
  obtain ⟨readBack, formatted⟩ := formatted_iff parsed rendered
  exact ⟨parsed, readBack.mpr kept, formatted.mpr kept⟩

/-- The bars around a key that starts with the ogham space mark are lost, and with them the mark. So
the condition in the result above cannot be dropped. -/
theorem exists_not_formatted :
    ∃ message template, parse "match \x7b$a\x7d when |\u1680x| \x7b\x7d" = .ok message ∧
      message.render = .ok template ∧ parse template ≠ .ok message ∧
        format template ≠ .ok template := by
  refine ⟨[.matcher ⟨[⟨some (.variable "a"), none⟩], [⟨["\u1680x"], []⟩]⟩],
    "match \x7b$a\x7d when \u1680x \x7b\x7d", ?_, ?_, ?_, ?_⟩
  all_goals decide +kernel

end Message

end MessageTemplate
