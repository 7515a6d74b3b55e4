import MessageTemplate.Proofs.Interchange.Encoding

/-! # Decoding what was encoded

Every part of a message is decoded from its own form. Inside a union nothing is left to check; a
node outside has to be admitted as a whole, which its form is if it is not nested too deep
(`MessageTemplate.Message.decode_encode`).
-/

namespace MessageTemplate

open Interchange

/-! ### Records, lists and unions -/

namespace Interchange

@[simp] theorem Layer.within_inner : Layer.inner.within = .inner := rfl

@[simp] theorem Layer.admits_inner (json : Json) : Layer.inner.admits json = true := rfl

@[simp] theorem readText_text (value : String) : readText (Json.text value) = some value := rfl

/-- A list is read back when each of its items is. -/
theorem readList_map {α : Type} {read : Json → Option α} {write : α → Json} {values : List α}
    (each : ∀ value ∈ values, read (write value) = some value) :
    readList read (.array (values.map write)) = some values := by
  rw [readList, List.mapM_map]
  induction values with
  | nil => rfl
  | cons value values ih =>
      rw [List.forall_mem_cons] at each
      simp [List.mapM_cons, each.1, ih each.2]

/-- A written record is read field by field, by the names that are asked for. -/
theorem readRecord_record (names : List String) (fields : List (String × Json)) :
    readRecord names (Json.record fields) =
      names.mapM (field? (fields.map fun (name, value) => (some name, value))) := by
  simp [readRecord, Json.record]

/-- The tag is taken off, and what is left is the record of the other fields. None of these may have
the name of the tag. -/
theorem untag_tagged {fields : List (String × Json)} (absent : ∀ field ∈ fields, field.1 ≠ tagName)
    (tag : String) : untag (tagged tag fields) = some (Json.text tag, Json.record fields) := by
  have others : fields.filter (fun field => decide (field.1 = tagName)) = [] := by
    simpa using absent
  have kept : fields.filter (fun field => !decide (field.1 = tagName)) = fields := by
    simpa using absent
  simp [untag, tagged, Json.record, fieldsNamed, List.filter_map, Function.comp_def, others, kept]

/-- A union is told by its tag as soon as it is admitted. What is decoded next is the record without
the tag. -/
theorem readUnion_tagged {tags : List String} {tag : String} {position : Nat} {layer : Layer}
    {fields : List (String × Json)} (found : tags.idxOf? tag = some position)
    (absent : ∀ field ∈ fields, field.1 ≠ tagName)
    (admitted : layer.admits (tagged tag fields) = true) :
    readUnion tags layer (tagged tag fields) = some (position, Json.record fields) := by
  simp [readUnion, admitted, untag_tagged absent, Json.text, readTag, found]

end Interchange

/-! ### Parts of a message -/

/-- An integer is written without point and exponent, and read back as itself. -/
theorem Json.Number.int?_ofInt (value : Int) : (Json.Number.ofInt value).int? = some value := by
  simp only [int?, ofInt, true_and, decide_eq_true_eq]
  rw [if_pos (by omega), Option.some_inj]
  split <;> omega

/-- An option value is read back: an integer is in range, and a string is one. The form has no tag,
so the two are told by their kind. -/
theorem OptionValue.decode_encode (value : OptionValue) :
    OptionValue.decode .inner value.encode = some value := by
  cases value with
  | int value =>
      have range := And.intro value.minValue_le_toInt value.toInt_le
      simp only [decode, encode, Json.int, Json.Number.int?_ofInt, Layer.admits_inner, guard_true,
        Option.bind_eq_bind, Option.bind_some, Option.pure_def, if_pos range, Int64.ofInt_toInt]
  | text value => rfl

theorem NamedOption.decode_encode (option : NamedOption) :
    NamedOption.decode .inner option.encode = some option := by
  simp [decode, encode, readRecord_record, field?, fieldsNamed, required, OptionValue.decode_encode]

/-- A function is read back, also without its options field. -/
theorem Function.decode_encode (function : Function) :
    Function.decode .inner function.encode = some function := by
  obtain ⟨name, options⟩ := function
  have read := readList_map fun option (_ : option ∈ options) => option.decode_encode
  by_cases empty : options = []
  · simp [decode, encode, nonemptyField, empty, readRecord_record, field?, fieldsNamed, required,
      decodeOptions, defaulted]
  · simp [decode, encode, nonemptyField, empty, readRecord_record, field?, fieldsNamed, required,
      decodeOptions, defaulted, read]

/-- An operand is read back by its tag, and its content as a string or an object. -/
theorem Operand.decode_encode (operand : Operand) :
    Operand.decode .inner operand.encode = some operand := by
  cases operand with
  | «variable» name =>
      have union : readUnion ["variable", "literal"] .inner
          (tagged "variable" [("name", Json.text name)]) =
            some (0, Json.record [("name", Json.text name)]) :=
        readUnion_tagged (by decide) (by simp [tagName]) rfl
      simp [decode, encode, union, readRecord_record, field?, fieldsNamed, required]
  | literal value =>
      have union : readUnion ["variable", "literal"] .inner
          (tagged "literal" [("value", Json.text value)]) =
            some (1, Json.record [("value", Json.text value)]) :=
        readUnion_tagged (by decide) (by simp [tagName]) rfl
      simp [decode, encode, union, readRecord_record, field?, fieldsNamed, required]

theorem Operand.nullable_encode (operand : Operand) :
    nullable (Operand.decode .inner) operand.encode = some (some operand) := by
  have read := operand.decode_encode
  cases operand <;> exact congrArg (Option.map some) read

theorem Function.nullable_encode (function : Function) :
    nullable (Function.decode .inner) function.encode = some (some function) :=
  congrArg (Option.map some) function.decode_encode

/-- An expression is read back, by cases on which of its parts are there. A part that is missing has
no field. -/
theorem Expression.decode_encode (expression : Expression) :
    Expression.decode .inner expression.encode = some expression := by
  obtain ⟨operand, function⟩ := expression
  cases operand <;> cases function <;>
    simp [decode, encode, encodeFields, optionalField, readRecord_record, field?, fieldsNamed,
      defaulted, Operand.nullable_encode, Function.nullable_encode]

/-- The kind of markup is read back from its word, as the other enumerations are. -/
theorem Markup.Kind.read_word (kind : Markup.Kind) :
    readMember [.opening, .closing] Markup.Kind.word .inner (Json.text kind.word) = some kind := by
  cases kind <;> rfl

/-- Markup is read back from its fields, also when they stand beside a tag. -/
theorem Markup.decode_encodeFields (markup : Markup) :
    Markup.decode .inner (Json.record markup.encodeFields) = some markup := by
  obtain ⟨kind, name, options⟩ := markup
  have read := readList_map fun option (_ : option ∈ options) => option.decode_encode
  by_cases empty : options = []
  · simp [decode, encodeFields, nonemptyField, empty, readRecord_record, field?, fieldsNamed,
      required, Kind.read_word, decodeOptions, defaulted]
  · simp [decode, encodeFields, nonemptyField, empty, readRecord_record, field?, fieldsNamed,
      required, Kind.read_word, decodeOptions, defaulted, read]

section Bodies

variable {read : Layer → Json → Option Node}

/-- A variant is read back when the nodes of its body are. -/
theorem Variant.decodeWith_encode {variant : Variant}
    (nodes : ∀ node ∈ variant.body, read .inner node.encode = some node) :
    Variant.decodeWith read .inner variant.encode = some variant := by
  obtain ⟨keys, body⟩ := variant
  have readKeys := readList_map fun key (_ : key ∈ keys) => readText_text key
  have readBody := readList_map nodes
  simp [decodeWith, Variant.encode, encodeNodes_eq_map, readRecord_record, field?, fieldsNamed,
    required, readKeys, readBody]

/-- A matcher is read back when the nodes in its variants are. How deep they may be nested is left
to the caller. -/
theorem Matcher.decodeWith_encode {matcher : Matcher}
    (nodes : ∀ variant ∈ matcher.variants, ∀ node ∈ variant.body,
      read .inner node.encode = some node) :
    Matcher.decodeWith read .inner matcher.encode = some matcher := by
  obtain ⟨selectors, variants⟩ := matcher
  have readSelectors := readList_map fun selector (_ : selector ∈ selectors) =>
    selector.decode_encode
  have readVariants := readList_map fun variant member =>
    Variant.decodeWith_encode (nodes variant member)
  simp [decodeWith, Matcher.encode, Matcher.encodeFields, encodeVariants_eq_map, readRecord_record,
    field?, fieldsNamed, required, readSelectors, readVariants]

end Bodies

/-! ### Nodes and messages -/

/-- No field of an expression has the name of the tag, so the tag can stand beside them. The same
holds of markup and matchers. -/
theorem Expression.name_ne_tagName (expression : Expression) :
    ∀ field ∈ expression.encodeFields, field.1 ≠ tagName := by
  obtain ⟨operand, function⟩ := expression
  cases operand <;> cases function <;> simp [encodeFields, optionalField, tagName]

theorem Markup.name_ne_tagName (markup : Markup) :
    ∀ field ∈ markup.encodeFields, field.1 ≠ tagName := by
  by_cases empty : markup.options = [] <;> simp [encodeFields, nonemptyField, empty, tagName]

theorem Matcher.name_ne_tagName (matcher : Matcher) :
    ∀ field ∈ matcher.encodeFields, field.1 ≠ tagName := by
  obtain ⟨selectors, variants⟩ := matcher
  simp [encodeFields, tagName]

namespace Node

theorem readUnion_tagged {tag : String} {position : Nat} {layer : Layer}
    {fields : List (String × Json)}
    (found : ["text", "expression", "markup", "matcher"].idxOf? tag = some position)
    (absent : ∀ field ∈ fields, field.1 ≠ tagName)
    (admitted : layer.admits (tagged tag fields) = true) :
    readUnion ["text", "expression", "markup", "matcher"] layer (tagged tag fields) =
      some (position, Json.record fields) :=
  Interchange.readUnion_tagged found absent admitted

/-- An admitted node is decoded from its form with any bound on its nesting that this meets. The
induction goes through the tree, and the bound falls with each matcher. -/
theorem decodeWithin_encode (node : Node) : ∀ {bound : Nat} {layer : Layer},
    node.encode.depth ≤ bound → layer.admits node.encode = true →
      decodeWithin (bound + 1) layer node.encode = some node := by
  induction node using Node.induction with
  | text value =>
      intro bound layer _ admitted
      rw [encode] at admitted ⊢
      have union := @readUnion_tagged "text" 0 layer _ (by decide) (by simp [tagName]) admitted
      simp [decodeWithin, union, readRecord_record, field?, fieldsNamed, required]
  | expression content =>
      intro bound layer _ admitted
      rw [encode] at admitted ⊢
      have union :=
        @readUnion_tagged "expression" 1 layer _ (by decide) content.name_ne_tagName admitted
      have decoded := content.decode_encode
      rw [Expression.encode] at decoded
      simp [decodeWithin, union, decoded]
  | markup mark =>
      intro bound layer _ admitted
      rw [encode] at admitted ⊢
      have union :=
        @readUnion_tagged "markup" 2 layer _ (by decide) mark.name_ne_tagName admitted
      simp [decodeWithin, union, mark.decode_encodeFields]
  | matcher matcher ih =>
      intro bound layer deep admitted
      have bodies : Matcher.decodeWith (decodeWithin bound) .inner matcher.encode =
          some matcher := by
        refine Matcher.decodeWith_encode fun variant member node inner => ?_
        have shallow := Node.depth_lt_of_mem member inner
        obtain ⟨smaller, rfl⟩ : ∃ smaller, bound = smaller + 1 := ⟨bound - 1, by omega⟩
        exact ih variant member node inner (by omega) rfl
      rw [encode] at admitted ⊢
      have union :=
        @readUnion_tagged "matcher" 3 layer _ (by decide) matcher.name_ne_tagName admitted
      rw [Matcher.encode] at bodies
      simp [decodeWithin, union, bodies]

end Node

/-- A message that is not nested too deep is decoded from its form. The depth is what each node has
to be admitted for. -/
theorem Message.decode_encode {message : Message} (shallow : message.encode.depth ≤ Json.maxDepth) :
    Message.decode .top message.encode = some message := by
  rw [Message.encode, encodeNodes_eq_map] at shallow ⊢
  refine readList_map fun node member => node.decodeWithin_encode (Nat.le_refl _) ?_
  have inside := Json.depth_lt_of_mem_array (List.mem_map_of_mem (f := Node.encode) member)
  have room : node.encode.depth ≤ Json.maxDepth - 1 := by omega
  simp [Layer.top, Layer.within, Layer.admits, node.isSound_encode.flawless, room]

end MessageTemplate
