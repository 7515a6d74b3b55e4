import Mathlib.Algebra.Group.Nat.Defs
import MessageTemplate.Interchange.Message
import MessageTemplate.Proofs.Json.Reading

/-! # What messages are written as

The JSON form of a message is sound: it is read back from its compact text, and nothing in it is
flawed (`MessageTemplate.Message.isSound_encode`). How deep it is nested is told by its parts: the
nodes in the variants of a matcher are not nested as deep as the matcher
(`MessageTemplate.Node.depth_lt_of_mem`).
-/

namespace MessageTemplate

/-! ### Sound values -/

namespace Json

/-- A value that is read back from its compact text and of which nothing is flawed. The forms of
messages are such values. -/
structure IsSound (value : Json) : Prop where
  unscaled : value.isUnscaled = true
  flawless : value.isFlawless = true

/-- The recursion through the items of an array, as a statement about each item. -/
theorem areUnscaledItems_iff {items : List Json} :
    areUnscaledItems items = true ↔ ∀ item ∈ items, item.isUnscaled = true := by
  induction items with
  | nil => simp [areUnscaledItems]
  | cons item items ih => simp [areUnscaledItems, ih]

theorem areFlawlessItems_iff {items : List Json} :
    areFlawlessItems items = true ↔ ∀ item ∈ items, item.isFlawless = true := by
  induction items with
  | nil => simp [areFlawlessItems]
  | cons item items ih => simp [areFlawlessItems, ih]

theorem isSound_array {items : List Json} (sound : ∀ item ∈ items, item.IsSound) :
    (array items).IsSound where
  unscaled := areUnscaledItems_iff.mpr fun item member => (sound item member).unscaled
  flawless := areFlawlessItems_iff.mpr fun item member => (sound item member).flawless

/-- A record of sound values is sound. The names of its fields are strings with characters. -/
theorem isSound_record {fields : List (String × Json)} (sound : ∀ field ∈ fields, field.2.IsSound) :
    (record fields).IsSound := by
  induction fields with
  | nil => exact ⟨rfl, rfl⟩
  | cons field fields ih =>
      rw [List.forall_mem_cons] at sound
      obtain ⟨first, others⟩ := And.intro sound.1 (ih sound.2)
      constructor
      · exact Bool.and_eq_true_iff.mpr ⟨first.unscaled, others.unscaled⟩
      · exact Bool.and_eq_true_iff.mpr
          ⟨Bool.and_eq_true_iff.mpr ⟨rfl, first.flawless⟩, others.flawless⟩

theorem isSound_text (value : String) : (text value).IsSound := ⟨rfl, rfl⟩

/-- Rounding to a double adds at most half a unit, and the unit of a number below `2 ^ 64` has at
most eleven bits. -/
theorem nearestDouble_lt {value : Nat} (small : value < UInt64.size) :
    Number.nearestDouble value < 2 ^ 65 := by
  have bits : value.log2 < 64 := by
    by_cases zero : value = 0
    · simp [zero]
    · exact (Nat.log2_lt zero).mpr small
  have unit : 2 ^ (value.log2 - 52) ≤ 2 ^ 11 := Nat.pow_le_pow_right (by decide) (by omega)
  have near := (Number.roundedQuotient_near value (Nat.two_pow_pos (value.log2 - 52))).1
  change Number.roundedQuotient value (2 ^ (value.log2 - 52)) * 2 ^ (value.log2 - 52) < 2 ^ 65
  have size : UInt64.size = 2 ^ 64 := rfl
  omega

/-- A signed integer of 64 bits is sound: it is written without an exponent, and no such integer is
out of the range of doubles. -/
theorem isSound_int (value : Int64) : (int value.toInt).IsSound := by
  have small : value.toInt.natAbs < UInt64.size := by
    have least := value.minValue_le_toInt
    have greatest := value.toInt_le
    rw [Int64.toInt_minValue] at least
    rw [Int64.toInt_maxValue] at greatest
    have size : UInt64.size = 2 ^ 64 := rfl
    omega
  have one : Number.nearestDouble (Nat.pow 10 (0 : Int).toNat) = 1 := by decide
  have bound : 2 ^ 65 < Number.overflowBound := by decide +kernel
  refine ⟨rfl, ?_⟩
  have near := nearestDouble_lt small
  simp only [int, isFlawless, Number.isFinite, Number.ofInt, Number.leadingDigits_of_lt small,
    Bool.or_eq_true, Bool.and_eq_true, decide_eq_true_eq]
  refine .inr ⟨by decide, ?_⟩
  change Number.nearestDouble value.toInt.natAbs *
    Number.nearestDouble (Nat.pow 10 (0 : Int).toNat) < Number.overflowBound
  rw [one, Nat.mul_one]
  exact Nat.lt_trans near bound

end Json

/-! ### Depth -/

namespace Json

/-- The items of an array are nested less deep than the array. -/
theorem depth_lt_of_mem_array {items : List Json} {item : Json} (member : item ∈ items) :
    item.depth < (array items).depth := by
  rw [depth]
  induction items with
  | nil => simp at member
  | cons first items ih =>
      rw [depthItems]
      rcases List.mem_cons.mp member with rfl | later
      · omega
      · have := ih later
        omega

/-- The values of an object are nested less deep than the object. Names have no depth of their
own. -/
theorem depth_lt_of_mem_object {fields : List (Text × Json)} {field : Text × Json}
    (member : field ∈ fields) : field.2.depth < (object fields).depth := by
  rw [depth]
  induction fields with
  | nil => simp at member
  | cons first fields ih =>
      rw [depthFields]
      rcases List.mem_cons.mp member with rfl | later
      · omega
      · have := ih later
        omega

theorem depth_lt_of_mem_record {fields : List (String × Json)} {name : String} {value : Json}
    (member : (name, value) ∈ fields) : value.depth < (record fields).depth := by
  have listed : (some name, value) ∈ fields.map fun field => (some field.1, field.2) :=
    List.mem_map.mpr ⟨(name, value), member, rfl⟩
  exact depth_lt_of_mem_object listed

/-- An array is at most one level deeper than its items. Like the next lemmas, it bounds the form of
a value by the forms of its parts. -/
theorem depth_array_le {items : List Json} {bound : Nat} (positive : 0 < bound)
    (each : ∀ item ∈ items, item.depth < bound) : (array items).depth ≤ bound := by
  rw [depth]
  induction items with
  | nil => exact positive
  | cons first items ih =>
      rw [List.forall_mem_cons] at each
      have := ih each.2
      rw [depthItems]
      omega

theorem depth_object_le {fields : List (Text × Json)} {bound : Nat} (positive : 0 < bound)
    (each : ∀ field ∈ fields, field.2.depth < bound) : (object fields).depth ≤ bound := by
  rw [depth]
  induction fields with
  | nil => exact positive
  | cons first fields ih =>
      rw [List.forall_mem_cons] at each
      have := ih each.2
      rw [depthFields]
      omega

theorem depth_record_le {fields : List (String × Json)} {bound : Nat} (positive : 0 < bound)
    (each : ∀ field ∈ fields, field.2.depth < bound) : (record fields).depth ≤ bound :=
  depth_object_le positive (List.forall_mem_map.mpr each)

end Json

/-! ### The forms of message trees -/

/-- What holds of a matcher as soon as it holds of the nodes in its variants holds of all nodes.
This is the induction that the proofs about message trees use. -/
theorem Node.induction {motive : Node → Prop} (text : ∀ value, motive (.text value))
    (expression : ∀ content, motive (.expression content))
    (markup : ∀ mark, motive (.markup mark))
    (matcher : ∀ matcher : Matcher,
      (∀ variant ∈ matcher.variants, ∀ node ∈ variant.body, motive node) →
        motive (.matcher matcher)) :
    ∀ node, motive node
  | .text value => text value
  | .expression content => expression content
  | .markup mark => markup mark
  | .matcher choice => matcher choice fun variant _ node _ =>
      Node.induction text expression markup matcher node
termination_by node => sizeOf node
decreasing_by
  rename_i member inner
  have outer := List.sizeOf_lt_of_mem member
  have inside := List.sizeOf_lt_of_mem inner
  obtain ⟨selectors, variants⟩ := choice
  obtain ⟨keys, body⟩ := variant
  simp only [Matcher.mk.sizeOf_spec, Variant.mk.sizeOf_spec, Node.matcher.sizeOf_spec]
    at outer inside ⊢
  omega

/-- The nodes are written one by one. The recursion has this shape only because nodes and variants
contain each other. -/
theorem encodeNodes_eq_map (nodes : List Node) : encodeNodes nodes = nodes.map Node.encode := by
  induction nodes with
  | nil => rfl
  | cons node nodes ih => rw [encodeNodes, ih, List.map_cons]

theorem encodeVariants_eq_map (variants : List Variant) :
    encodeVariants variants = variants.map Variant.encode := by
  induction variants with
  | nil => rfl
  | cons variant variants ih => rw [encodeVariants, ih, List.map_cons]

/-- The nodes in the variants of a matcher are not nested as deep as the matcher. So the bound of
the decoder can fall from one matcher to the next. -/
theorem Node.depth_lt_of_mem {matcher : Matcher} {variant : Variant} {node : Node}
    (member : variant ∈ matcher.variants) (inner : node ∈ variant.body) :
    node.encode.depth < (Node.matcher matcher).encode.depth := by
  obtain ⟨selectors, variants⟩ := matcher
  obtain ⟨keys, body⟩ := variant
  have inBody : node.encode.depth < (Json.array (encodeNodes body)).depth := by
    rw [encodeNodes_eq_map]
    exact Json.depth_lt_of_mem_array (List.mem_map_of_mem inner)
  have inVariant : (Json.array (encodeNodes body)).depth < (Variant.encode ⟨keys, body⟩).depth := by
    rw [Variant.encode]
    exact @Json.depth_lt_of_mem_record _ "message" _ (by simp)
  have inVariants : (Variant.encode ⟨keys, body⟩).depth <
      (Json.array (encodeVariants variants)).depth := by
    rw [encodeVariants_eq_map]
    exact Json.depth_lt_of_mem_array (List.mem_map_of_mem member)
  have inMatcher : (Json.array (encodeVariants variants)).depth <
      (Node.matcher ⟨selectors, variants⟩).encode.depth := by
    rw [Node.encode, Matcher.encodeFields, Interchange.tagged]
    exact @Json.depth_lt_of_mem_record _ "variants" _ (by simp)
  omega

/-! ### Soundness -/

section Sound

open Json Interchange

theorem OptionValue.isSound_encode (value : OptionValue) : value.encode.IsSound := by
  cases value with
  | int value => exact isSound_int value
  | text value => exact isSound_text value

/-- The form of an option is sound. The lemmas for the other parts follow the same pattern up to
whole messages. -/
theorem NamedOption.isSound_encode (option : NamedOption) : option.encode.IsSound :=
  isSound_record (by simp [isSound_text, OptionValue.isSound_encode])

/-- A field that is left out does no harm, and one that is there is as sound as its value. -/
theorem isSound_optionalField {α : Type} {write : α → Json} {value : Option α}
    (sound : ∀ content ∈ value, (write content).IsSound) (name : String) :
    ∀ field ∈ optionalField name write value, field.2.IsSound := by
  cases value with
  | none => simp [optionalField]
  | some content => simpa [optionalField] using sound content rfl

theorem isSound_nonemptyField {α : Type} {write : α → Json} {values : List α}
    (sound : ∀ value ∈ values, (write value).IsSound) (name : String) :
    ∀ field ∈ nonemptyField name write values, field.2.IsSound := by
  unfold nonemptyField
  split
  · simp
  · exact List.forall_mem_singleton.mpr
      (isSound_array (List.forall_mem_map.mpr sound))

theorem Function.isSound_encode (function : Function) : function.encode.IsSound :=
  isSound_record (List.forall_mem_cons.mpr ⟨isSound_text _,
    isSound_nonemptyField (fun option _ => option.isSound_encode) "options"⟩)

theorem Operand.isSound_encode (operand : Operand) : operand.encode.IsSound := by
  cases operand with
  | «variable» name => exact isSound_record (by simp [isSound_text])
  | literal value => exact isSound_record (by simp [isSound_text])

/-- The fields of an expression are sound. They are looked at without the record around them, since
a tag may stand beside them. -/
theorem Expression.isSound_encodeFields (expression : Expression) :
    ∀ field ∈ expression.encodeFields, field.2.IsSound :=
  List.forall_mem_append.mpr
    ⟨isSound_optionalField (fun operand _ => operand.isSound_encode) "value",
      isSound_optionalField (fun function _ => function.isSound_encode) "function"⟩

theorem Markup.isSound_encodeFields (markup : Markup) :
    ∀ field ∈ markup.encodeFields, field.2.IsSound :=
  List.forall_mem_cons.mpr ⟨isSound_text _, List.forall_mem_cons.mpr ⟨isSound_text _,
    isSound_nonemptyField (fun option _ => option.isSound_encode) "options"⟩⟩

/-- A tag in front of sound fields does no harm. -/
theorem isSound_tagged {fields : List (String × Json)}
    (sound : ∀ field ∈ fields, field.2.IsSound) (tag : String) : (tagged tag fields).IsSound :=
  isSound_record (List.forall_mem_cons.mpr ⟨isSound_text tag, sound⟩)

/-- The form of a variant is sound when those of its nodes are. -/
theorem Variant.isSound_encode {variant : Variant}
    (sound : ∀ node ∈ variant.body, node.encode.IsSound) : variant.encode.IsSound := by
  obtain ⟨keys, body⟩ := variant
  rw [Variant.encode, encodeNodes_eq_map]
  refine isSound_record (List.forall_mem_cons.mpr ⟨?_, List.forall_mem_singleton.mpr ?_⟩)
  · exact isSound_array (List.forall_mem_map.mpr fun key _ => isSound_text key)
  · exact isSound_array (List.forall_mem_map.mpr sound)

/-- The form of a node is sound, by induction through its matchers. All other parts of a message are
not nested. -/
theorem Node.isSound_encode (node : Node) : node.encode.IsSound := by
  induction node using Node.induction with
  | text value => exact isSound_tagged (by simp [isSound_text]) "text"
  | expression content => exact isSound_tagged content.isSound_encodeFields "expression"
  | markup mark => exact isSound_tagged mark.isSound_encodeFields "markup"
  | matcher matcher ih =>
      obtain ⟨selectors, variants⟩ := matcher
      rw [Node.encode, Matcher.encodeFields, encodeVariants_eq_map]
      refine isSound_tagged
        (List.forall_mem_cons.mpr ⟨?_, List.forall_mem_singleton.mpr ?_⟩) "matcher"
      · exact isSound_array (List.forall_mem_map.mpr fun selector _ =>
          isSound_record selector.isSound_encodeFields)
      · exact isSound_array (List.forall_mem_map.mpr fun variant member =>
          Variant.isSound_encode (ih variant member))

/-- The form of a message is sound, whatever the message. Only its depth can keep it from being read
back. -/
theorem Message.isSound_encode (message : Message) : message.encode.IsSound := by
  rw [Message.encode, encodeNodes_eq_map]
  exact isSound_array (List.forall_mem_map.mpr fun node _ => node.isSound_encode)

end Sound

end MessageTemplate
