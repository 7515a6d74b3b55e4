import Mathlib.Data.Option.Basic
import MessageTemplate.Proofs.Interchange.Decoding

/-! # Exchanging messages as JSON

A message survives the way through its JSON text exactly if this text is not nested too deep
(`MessageTemplate.Message.ofJson_toJson`). No other form of a part is nested less deep than the one
that is written, so this holds of every message that some JSON text stands for.
-/

namespace MessageTemplate

open Interchange

/-! ### Depth of what is read -/

namespace Interchange

/-- What is read is not written deeper than it was found. The form that is written leaves out
whatever it can, so no other form is less deep. -/
def KeepsDepth {α : Type} (read : Json → Option α) (write : α → Json) : Prop :=
  ∀ json value, read json = some value → (write value).depth ≤ json.depth

/-- Each value that is read item by item comes from an item, so its depth can be held against that
of the item. -/
theorem exists_of_mem_mapM {α β : Type} {read : α → Option β} {items : List α} {values : List β}
    (found : items.mapM read = some values) {value : β} (member : value ∈ values) :
    ∃ item ∈ items, read item = some value := by
  induction items generalizing values with
  | nil =>
      rw [List.mapM_nil, Option.pure_def, Option.some_inj] at found
      simp [← found] at member
  | cons item items ih =>
      simp only [List.mapM_cons, Option.bind_eq_bind, Option.bind_eq_some_iff, Option.pure_def,
        Option.some_inj] at found
      obtain ⟨first, read, others, rest, rfl⟩ := found
      rcases List.mem_cons.mp member with rfl | later
      · exact ⟨item, .head _, read⟩
      · obtain ⟨other, listed, found⟩ := ih rest later
        exact ⟨other, .tail _ listed, found⟩

theorem mem_of_field? {fields : List (Json.Text × Json)} {name : String} {value : Json}
    (found : field? fields name = some (some value)) : (some name, value) ∈ fields := by
  unfold field? at found
  split at found
  · simp at found
  · rename_i other named
    obtain rfl := Option.some_inj.mp (Option.some_inj.mp found)
    have member : other ∈ fieldsNamed name fields := by simp [named]
    obtain ⟨⟨key, content⟩, kept, rfl⟩ := List.mem_map.mp member
    obtain ⟨listed, same⟩ := List.mem_filter.mp kept
    exact of_decide_eq_true same ▸ listed
  · simp at found

/-- The values of a record are nested less deep than the record, whether it is written as a list or
by name. -/
theorem depth_of_readRecord {names : List String} {json : Json} {values : List (Option Json)}
    (record : readRecord names json = some values) :
    0 < json.depth ∧ ∀ found ∈ values, ∀ value ∈ found, value.depth < json.depth := by
  unfold readRecord at record
  split at record
  · rename_i items
    refine ⟨by simp [Json.depth], fun found member value present => ?_⟩
    rw [Option.ite_none_right_eq_some, Option.some_inj] at record
    rw [← record.2, List.mem_append] at member
    rcases member with item | missing
    · obtain ⟨item, listed, rfl⟩ := List.mem_map.mp item
      exact Option.some_inj.mp present ▸ Json.depth_lt_of_mem_array listed
    · simp [List.eq_of_mem_replicate missing] at present
  · rename_i fields
    refine ⟨by simp [Json.depth], fun found member value present => ?_⟩
    obtain ⟨_, _, read⟩ := Option.bind_eq_some_iff.mp record
    obtain ⟨name, _, named⟩ := exists_of_mem_mapM read member
    exact Json.depth_lt_of_mem_object (mem_of_field? (present ▸ named))
  · simp at record

/-- Taking off the tag does not make the rest deeper, whether the tag is a field or the first
item. -/
theorem depth_of_untag {json tag content : Json} (parts : untag json = some (tag, content)) :
    content.depth ≤ json.depth := by
  unfold untag at parts
  split at parts
  · rename_i items
    obtain ⟨rfl, rfl⟩ := Prod.mk.inj (Option.some_inj.mp parts)
    exact Json.depth_array_le (by simp [Json.depth]) fun item member =>
      Json.depth_lt_of_mem_array (.tail _ member)
  · split at parts
    · obtain ⟨rfl, rfl⟩ := Prod.mk.inj (Option.some_inj.mp parts)
      exact Json.depth_object_le (by simp [Json.depth]) fun field member =>
        Json.depth_lt_of_mem_object (List.mem_filter.mp member).1
    · simp at parts
  · simp at parts

/-- A union is admitted, and the record behind its tag is not deeper than the whole. At the top this
is what bounds a message. -/
theorem depth_of_readUnion {tags : List String} {layer : Layer} {json content : Json}
    {position : Nat} (union : readUnion tags layer json = some (position, content)) :
    layer.admits json = true ∧ content.depth ≤ json.depth := by
  simp only [readUnion, Option.bind_eq_bind, Option.bind_eq_some_iff, Option.guard_eq_some',
    Option.pure_def, Option.some_inj, Prod.mk.injEq] at union
  obtain ⟨_, admitted, ⟨tag, other⟩, parts, _, _, _, rfl⟩ := union
  exact ⟨admitted, depth_of_untag parts⟩

/-- A list is not written deeper than it was found, if its items are not. Lists of options, nodes
and variants are all read by it. -/
theorem keepsDepth_readList {α : Type} {read : Json → Option α} {write : α → Json}
    (keeps : KeepsDepth read write) :
    KeepsDepth (readList read) fun values => .array (values.map write) := by
  intro json values found
  unfold readList at found
  split at found
  · refine Json.depth_array_le (by simp [Json.depth]) (List.forall_mem_map.mpr ?_)
    intro value member
    obtain ⟨item, listed, read⟩ := exists_of_mem_mapM found member
    exact Nat.lt_of_le_of_lt (keeps item value read) (Json.depth_lt_of_mem_array listed)
  · simp at found

theorem keepsDepth_readText : KeepsDepth readText Json.text := fun _ _ _ => Nat.zero_le _

section Fields

variable {α : Type} {read : Json → Option α} {write : α → Json} {bound : Nat} {found : Option Json}

/-- A field that must be there is not written deeper than it was found. -/
theorem depth_of_required (keeps : KeepsDepth read write) {value : α}
    (decoded : required read found = some value)
    (inside : ∀ value ∈ found, value.depth < bound) : (write value).depth < bound := by
  cases found with
  | none => simp [required] at decoded
  | some json => exact Nat.lt_of_le_of_lt (keeps json value decoded) (inside json rfl)

/-- A field with a list, left out when it is empty, is not written deeper than it was found. -/
theorem depth_of_nonemptyField (keeps : KeepsDepth read write) {values : List α}
    (decoded : defaulted [] (readList read) found = some values)
    (inside : ∀ value ∈ found, value.depth < bound) (name : String) :
    ∀ field ∈ nonemptyField name write values, field.2.depth < bound := by
  cases found with
  | none =>
      obtain rfl : [] = values := Option.some_inj.mp decoded
      simp [nonemptyField]
  | some value =>
      have shallow := keepsDepth_readList keeps value values decoded
      unfold nonemptyField
      split
      · simp
      · exact List.forall_mem_singleton.mpr (Nat.lt_of_le_of_lt shallow (inside value rfl))

/-- A field that may be missing or null is not written deeper than it was found. -/
theorem depth_of_optionalField (keeps : KeepsDepth read write) {value : Option α}
    (decoded : defaulted none (nullable read) found = some value)
    (inside : ∀ value ∈ found, value.depth < bound) (name : String) :
    ∀ field ∈ optionalField name write value, field.2.depth < bound := by
  cases value with
  | none => simp [optionalField]
  | some value =>
      cases found with
      | none => simp [defaulted] at decoded
      | some json =>
          have read : read json = some value := by
            simp only [defaulted, nullable] at decoded
            split at decoded
            · simp at decoded
            · simpa using decoded
          exact List.forall_mem_singleton.mpr
            (Nat.lt_of_le_of_lt (keeps json value read) (inside json rfl))

end Fields

end Interchange

/-! ### Parts of a message -/

/-- The form of an option value holds no array and no object. -/
theorem OptionValue.depth_encode (value : OptionValue) : value.encode.depth = 0 := by
  cases value <;> rfl

/-- An option is not written deeper than it was found. The lemmas for the other parts say the same
of them. -/
theorem NamedOption.keepsDepth (layer : Layer) :
    KeepsDepth (NamedOption.decode layer) NamedOption.encode := by
  intro json option decoded
  simp only [decode, Option.bind_eq_bind, Option.bind_eq_some_iff] at decoded
  obtain ⟨values, record, _⟩ := decoded
  have positive := (depth_of_readRecord record).1
  refine Json.depth_record_le positive ?_
  simpa [Json.text, Json.depth, OptionValue.depth_encode] using positive

theorem Function.keepsDepth (layer : Layer) :
    KeepsDepth (Function.decode layer) Function.encode := by
  intro json function decoded
  simp only [decode, Option.bind_eq_bind, Option.bind_eq_some_iff] at decoded
  obtain ⟨values, record, decoded⟩ := decoded
  obtain ⟨positive, inside⟩ := depth_of_readRecord record
  split at decoded
  · rename_i name found
    simp only [Option.bind_eq_some_iff, Option.pure_def, Option.some_inj] at decoded
    obtain ⟨_, _, options, read, rfl⟩ := decoded
    refine Json.depth_record_le positive (List.forall_mem_cons.mpr ⟨positive, ?_⟩)
    exact depth_of_nonemptyField (NamedOption.keepsDepth _) read (inside _ (by simp)) "options"
  · simp at decoded

theorem Operand.depth_encode (operand : Operand) : operand.encode.depth = 1 := by
  cases operand <;> rfl

theorem Operand.keepsDepth (layer : Layer) : KeepsDepth (Operand.decode layer) Operand.encode := by
  intro json operand decoded
  rw [Operand.depth_encode]
  simp only [decode, Option.bind_eq_bind, Option.bind_eq_some_iff] at decoded
  obtain ⟨found, union, decoded⟩ := decoded
  have inside : found.2.depth ≤ json.depth := (depth_of_readUnion union).2
  split at decoded
  all_goals
    obtain ⟨values, record, _⟩ := Option.bind_eq_some_iff.mp decoded
    exact Nat.le_trans (depth_of_readRecord record).1 inside

/-- An expression that is decoded was an object or a list, and its fields are written less deep than
that. -/
theorem Expression.depth_of_decode {layer : Layer} {json : Json} {expression : Expression}
    (decoded : Expression.decode layer json = some expression) :
    0 < json.depth ∧ ∀ field ∈ expression.encodeFields, field.2.depth < json.depth := by
  simp only [decode, Option.bind_eq_bind, Option.bind_eq_some_iff] at decoded
  obtain ⟨values, record, decoded⟩ := decoded
  obtain ⟨positive, inside⟩ := depth_of_readRecord record
  refine ⟨positive, ?_⟩
  split at decoded
  · simp only [Option.bind_eq_some_iff, Option.pure_def, Option.some_inj] at decoded
    obtain ⟨operand, readOperand, function, readFunction, rfl⟩ := decoded
    exact List.forall_mem_append.mpr
      ⟨depth_of_optionalField (Operand.keepsDepth _) readOperand (inside _ (by simp)) "value",
        depth_of_optionalField (Function.keepsDepth _) readFunction (inside _ (by simp))
          "function"⟩
  · simp at decoded

/-- An expression is not written deeper than it was found, with or without a tag beside its
fields. -/
theorem Expression.keepsDepth (layer : Layer) :
    KeepsDepth (Expression.decode layer) Expression.encode := by
  intro json expression decoded
  obtain ⟨positive, inside⟩ := depth_of_decode decoded
  exact Json.depth_record_le positive inside

theorem Markup.depth_of_decode {layer : Layer} {json : Json} {markup : Markup}
    (decoded : Markup.decode layer json = some markup) :
    0 < json.depth ∧ ∀ field ∈ markup.encodeFields, field.2.depth < json.depth := by
  simp only [decode, Option.bind_eq_bind, Option.bind_eq_some_iff] at decoded
  obtain ⟨values, record, decoded⟩ := decoded
  obtain ⟨positive, inside⟩ := depth_of_readRecord record
  refine ⟨positive, ?_⟩
  split at decoded
  · simp only [Option.bind_eq_some_iff, Option.pure_def, Option.some_inj] at decoded
    obtain ⟨kind, _, name, _, options, read, rfl⟩ := decoded
    refine List.forall_mem_cons.mpr ⟨positive, List.forall_mem_cons.mpr ⟨positive, ?_⟩⟩
    exact depth_of_nonemptyField (NamedOption.keepsDepth _) read (inside _ (by simp)) "options"
  · simp at decoded

section Bodies

variable {node : Layer → Json → Option Node}
  (keeps : ∀ layer, KeepsDepth (node layer) Node.encode)

include keeps

/-- A variant is not written deeper than it was found, if its nodes are not. The induction over
messages supplies this for the nodes. -/
theorem Variant.keepsDepth (layer : Layer) :
    KeepsDepth (Variant.decodeWith node layer) Variant.encode := by
  intro json variant decoded
  simp only [decodeWith, Option.bind_eq_bind, Option.bind_eq_some_iff] at decoded
  obtain ⟨values, record, decoded⟩ := decoded
  obtain ⟨positive, inside⟩ := depth_of_readRecord record
  split at decoded
  · simp only [Option.bind_eq_some_iff, Option.pure_def, Option.some_inj] at decoded
    obtain ⟨keys, readKeys, body, readBody, rfl⟩ := decoded
    rw [Variant.encode, encodeNodes_eq_map]
    refine Json.depth_record_le positive
      (List.forall_mem_cons.mpr ⟨?_, List.forall_mem_singleton.mpr ?_⟩)
    · exact depth_of_required (keepsDepth_readList keepsDepth_readText) readKeys
        (inside _ (by simp))
    · exact depth_of_required (keepsDepth_readList (keeps _)) readBody
        (inside _ (by simp))
  · simp at decoded

/-- A matcher that is decoded was an object or a list, and its fields are written less deep than
that, if its nodes are. -/
theorem Matcher.depth_of_decodeWith {layer : Layer} {json : Json} {matcher : Matcher}
    (decoded : Matcher.decodeWith node layer json = some matcher) :
    0 < json.depth ∧ ∀ field ∈ matcher.encodeFields, field.2.depth < json.depth := by
  simp only [decodeWith, Option.bind_eq_bind, Option.bind_eq_some_iff] at decoded
  obtain ⟨values, record, decoded⟩ := decoded
  obtain ⟨positive, inside⟩ := depth_of_readRecord record
  refine ⟨positive, ?_⟩
  split at decoded
  · simp only [Option.bind_eq_some_iff, Option.pure_def, Option.some_inj] at decoded
    obtain ⟨selectors, readSelectors, variants, readVariants, rfl⟩ := decoded
    rw [Matcher.encodeFields, encodeVariants_eq_map]
    refine List.forall_mem_cons.mpr ⟨?_, List.forall_mem_singleton.mpr ?_⟩
    · exact depth_of_required (keepsDepth_readList (Expression.keepsDepth _)) readSelectors
        (inside _ (by simp))
    · exact depth_of_required (keepsDepth_readList (Variant.keepsDepth keeps _)) readVariants
        (inside _ (by simp))
  · simp at decoded

end Bodies

/-! ### Nodes and messages -/

/-- A tag does not make a record deeper. -/
theorem depth_tagged_le {fields : List (String × Json)} {bound : Nat} (positive : 0 < bound)
    (each : ∀ field ∈ fields, field.2.depth < bound) (tag : String) :
    (tagged tag fields).depth ≤ bound :=
  Json.depth_record_le positive (List.forall_mem_cons.mpr ⟨positive, each⟩)

/-- A node is admitted, and is not written deeper than it was found. The induction is on the bound
of the decoder. -/
theorem Node.depth_of_decodeWithin {bound : Nat} {layer : Layer} {json : Json} {node : Node}
    (decoded : decodeWithin bound layer json = some node) :
    layer.admits json = true ∧ node.encode.depth ≤ json.depth := by
  induction bound generalizing layer json node with
  | zero => simp [decodeWithin] at decoded
  | succ bound ih =>
      simp only [decodeWithin, Option.bind_eq_bind, Option.bind_eq_some_iff] at decoded
      obtain ⟨found, union, decoded⟩ := decoded
      obtain ⟨admitted, inside⟩ : layer.admits json = true ∧ found.2.depth ≤ json.depth :=
        depth_of_readUnion union
      refine ⟨admitted, Nat.le_trans ?_ inside⟩
      split at decoded
      · obtain ⟨values, record, decoded⟩ := Option.bind_eq_some_iff.mp decoded
        have positive := (depth_of_readRecord record).1
        split at decoded
        · obtain ⟨value, _, made⟩ := Option.bind_eq_some_iff.mp decoded
          obtain rfl := Option.some_inj.mp made
          refine depth_tagged_le positive ?_ "text"
          exact List.forall_mem_singleton.mpr positive
        · simp at decoded
      · obtain ⟨content, read, made⟩ := Option.bind_eq_some_iff.mp decoded
        obtain rfl := Option.some_inj.mp made
        obtain ⟨positive, fields⟩ := Expression.depth_of_decode read
        exact depth_tagged_le positive fields "expression"
      · obtain ⟨mark, read, made⟩ := Option.bind_eq_some_iff.mp decoded
        obtain rfl := Option.some_inj.mp made
        obtain ⟨positive, fields⟩ := Markup.depth_of_decode read
        exact depth_tagged_le positive fields "markup"
      · obtain ⟨matcher, read, made⟩ := Option.bind_eq_some_iff.mp decoded
        obtain rfl := Option.some_inj.mp made
        obtain ⟨positive, fields⟩ :=
          Matcher.depth_of_decodeWith (fun _ _ _ decoded => (ih decoded).2) read
        exact depth_tagged_le positive fields "matcher"

/-- A message that a JSON text stands for is not nested too deep when it is written, since its text
was not. -/
theorem Message.depth_of_decode {json : Json} {message : Message}
    (decoded : Message.decode .top json = some message) :
    message.encode.depth ≤ Json.maxDepth := by
  unfold Message.decode readList at decoded
  split at decoded
  · rw [Message.encode, encodeNodes_eq_map]
    refine Json.depth_array_le (by decide) (List.forall_mem_map.mpr fun node member => ?_)
    obtain ⟨item, listed, read⟩ := exists_of_mem_mapM decoded member
    obtain ⟨admitted, inside⟩ := Node.depth_of_decodeWithin read
    simp only [Layer.top, Layer.within, Layer.admits, Bool.and_eq_true, decide_eq_true_eq]
      at admitted
    have room : Json.maxDepth - 1 < Json.maxDepth := by decide
    omega
  · simp at decoded

namespace Message

/-- A message is read from a text through the value that the text stands for. So the depth of the
message is held against that of the value. -/
theorem ofJson_eq_ok_iff {text : String} {message : Message} :
    ofJson text = .ok message ↔ ∃ json, Json.read text = some json ∧
      decode .top json = some message := by
  rw [← Option.bind_eq_some_iff, ofJson]
  cases (Json.read text).bind (decode .top) with
  | none => simp
  | some other => simp

/-- A message comes back from its JSON text exactly if this is not nested too deep. Every message
that a JSON text stands for is not, so it comes back. -/
theorem ofJson_toJson (message : Message) :
    (ofJson message.toJson = .ok message ↔ message.encode.depth ≤ Json.maxDepth) ∧
      ∀ text, ofJson text = .ok message →
        message.encode.depth ≤ Json.maxDepth ∧ ofJson message.toJson = .ok message := by
  have read : Json.read message.toJson = some message.encode :=
    Json.read_compact message.isSound_encode.unscaled
  have exchanged : ofJson message.toJson = .ok message ↔
      message.encode.depth ≤ Json.maxDepth := by
    rw [ofJson_eq_ok_iff]
    constructor
    · rintro ⟨json, _, decoded⟩
      exact depth_of_decode decoded
    · exact fun shallow => ⟨message.encode, read, decode_encode shallow⟩
  refine ⟨exchanged, fun text accepted => ?_⟩
  obtain ⟨json, _, decoded⟩ := ofJson_eq_ok_iff.mp accepted
  exact ⟨depth_of_decode decoded, exchanged.mpr (depth_of_decode decoded)⟩

/-- The value of a text that is written as a list instead of by name. -/
theorem ofJson_toJson_listed :
    ofJson "[[\"text\",\"a\"]]" = .ok [.text "a"] ∧
      ofJson (toJson [.text "a"]) = .ok [.text "a"] := by
  have accepted : ofJson "[[\"text\",\"a\"]]" = .ok [.text "a"] := by cbv
  exact ⟨accepted, ((ofJson_toJson [.text "a"]).2 _ accepted).2⟩

end Message

end MessageTemplate
