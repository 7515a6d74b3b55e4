import MessageTemplate.Proofs.Placeholder.Conservation

/-! # Which placeholders share a variable

Two placeholders of the strings that go through one extractor have the same variable exactly if
they have the same function and either this function names its argument or they are occurrences of
the same rank in their texts; and no more bindings are made than this needs
(`MessageTemplate.Placeholder.Extractor.name_eq_iff_of_extractAll`).

What carries this from one placeholder to the next is that there are always as many bindings for a
function as its occurrences so far in the text need
(`MessageTemplate.Placeholder.Bindings.Covers`), so that a binding that is made stands at the slot
that it is made for. From then on it stays there, for bindings are only added behind the others
(`MessageTemplate.Placeholder.Bindings.stable_serves`).
-/

namespace MessageTemplate

namespace Placeholder

/-! ### Slots -/

/-- Whether a function has an option that names the argument of its placeholder. All placeholders
with such a function share one binding. -/
def namesArgument (function : Function) : Bool := (function.option? "name").isSome

theorem namesArgument_function (placeholder : Placeholder) :
    namesArgument placeholder.function = placeholder.argument.isSome := by
  obtain ⟨format, argument, valueType⟩ := placeholder
  cases argument <;> cases valueType <;>
    simp [namesArgument, Function.option?, function, NamedOption.ofTexts]

/-- The place of a binding among those for its function, told by the function alone. It is the first
one if the argument is named, and else the rank of the occurrence. -/
def slotOf (function : Function) (earlier : Nat) : Nat :=
  if namesArgument function then 0 else earlier

theorem slot_eq (placeholder : Placeholder) (earlier : Nat) :
    placeholder.slot earlier = slotOf placeholder.function earlier := by
  rw [slot, slotOf, namesArgument_function]

/-- Two occurrences of a function have one slot when it names its argument or they have the same
rank. -/
theorem slotOf_eq_iff {function : Function} {earlier other : Nat} :
    slotOf function earlier = slotOf function other ↔
      namesArgument function = true ∨ earlier = other := by
  rw [slotOf, slotOf]
  split <;> simp_all

/-- The number of bindings that a number of occurrences in one text needs: one in all for a function
that names its argument, and one for each otherwise. -/
def demand (function : Function) (occurrences : Nat) : Nat :=
  if namesArgument function then min 1 occurrences else occurrences

theorem demand_succ (function : Function) (earlier : Nat) :
    demand function (earlier + 1) = slotOf function earlier + 1 := by
  rw [demand, slotOf]
  split <;> omega

theorem slotOf_le_demand (function : Function) (earlier : Nat) :
    slotOf function earlier ≤ demand function earlier := by
  rw [demand, slotOf]
  split <;> omega

theorem demand_mono (function : Function) {fewer more : Nat} (le : fewer ≤ more) :
    demand function fewer ≤ demand function more := by
  rw [demand, demand]
  split <;> omega

theorem demand_max (function : Function) (left right : Nat) :
    demand function (max left right) = max (demand function left) (demand function right) := by
  rw [demand, demand, demand]
  split <;> omega

/-! ### Occurrences in a message -/

/-- A variable with a function as it stands in a message: the function, how often it stands there
before, and the name of the variable. -/
structure Use where
  function : Function
  earlier : Nat
  name : String
  deriving DecidableEq, Repr

/-- The variables with a function among some nodes, after the functions met so far. A use has the
rank of its function in the message. -/
def usesFrom (met : List Function) : List Node → List Use
  | [] => []
  | .expression ⟨some (.variable name), some function⟩ :: nodes =>
    ⟨function, met.count function, name⟩ :: usesFrom (function :: met) nodes
  | _ :: nodes => usesFrom met nodes

/-- The variables with a function in the message that was made. A string that is refused has
none. -/
def usesOf : Except Error Extraction → List Use
  | .ok extraction => usesFrom [] extraction.message
  | .error _ => []

/-- The functions of the placeholders selected in a text, in order. What is bound for a text depends
on them and on the arguments. -/
def functionsIn (formats : List Format) (text : List Char) : List Function :=
  (placeholdersIn formats text).map (·.found.function)

/-- The uses among nodes have the functions of the placeholders that the nodes show, in order. So
statements about uses are statements about the text. -/
theorem Shows.functions_usesFrom {nodes : List Node}
    {placeholders : List (Occurrence Placeholder)} {chars : List Char}
    (shows : Shows nodes placeholders chars) (met : List Function) :
    (usesFrom met nodes).map (·.function) = placeholders.map (·.found.function) := by
  induction shows generalizing met with
  | nil => rfl
  | text value others ih => exact ih met
  | expression name occurrence others ih =>
      exact congrArg (occurrence.found.function :: ·) (ih (occurrence.found.function :: met))

/-! ### Bindings -/

namespace Bindings

variable {bindings : Bindings}

/-- What holds of bindings still holds when a placeholder is bound. A property of this kind holds at
the end of a run as soon as it holds at its start. -/
def Stable (property : Bindings → Prop) : Prop :=
  ∀ bindings placeholder earlier, property bindings →
    property (bindings.bind placeholder earlier).2

theorem stable_distinct : Stable Distinct :=
  fun _ placeholder earlier distinct => distinct.bind placeholder earlier

/-- The binding of the use stands at its slot. A use that is served keeps its name for good, since
slots that are filled stay as they are. -/
def Serves (bindings : Bindings) (use : Use) : Prop :=
  (bindings.forFunction use.function)[slotOf use.function use.earlier]? =
    some ⟨use.name, use.function⟩

/-- There are bindings for every function met so far in the text, as many as its occurrences need.
This is the invariant inside a text. -/
def Covers (bindings : Bindings) (met : List Function) : Prop :=
  ∀ function, demand function (met.count function) ≤ (bindings.forFunction function).length

/-- What is bound later stands behind, so the binding of the use keeps its place. -/
theorem stable_serves (use : Use) : Stable (Serves · use) := by
  intro bindings placeholder earlier serves
  obtain ⟨added, same⟩ := bindings.isPrefix_bind placeholder earlier
  obtain ⟨inside, _⟩ := List.getElem?_eq_some_iff.mp serves
  rw [← same, Serves, forFunction_append, List.getElem?_append_left inside]
  exact serves

/-- Where names are distinct, the name of a use tells its function and its slot. A binding is found
under its name as it is found at its slot. -/
theorem Distinct.name_eq_iff {left right : Use} (distinct : bindings.Distinct)
    (servesLeft : bindings.Serves left) (servesRight : bindings.Serves right) :
    left.name = right.name ↔ left.function = right.function ∧
      slotOf left.function left.earlier = slotOf right.function right.earlier := by
  obtain ⟨function, earlier, name⟩ := left
  obtain ⟨function', earlier', name'⟩ := right
  have member {function : Function} {slot : Nat} {binding : Binding}
      (found : (bindings.forFunction function)[slot]? = some binding) : binding ∈ bindings :=
    List.mem_of_mem_filter (List.mem_of_getElem? found)
  constructor
  · rintro (rfl : name = name')
    have same := List.inj_on_of_nodup_map distinct (member servesLeft) (member servesRight) rfl
    obtain rfl : function = function' := congrArg Binding.function same
    have apart : (bindings.forFunction function).Nodup := distinct.of_map.filter _
    obtain ⟨inside, _⟩ := List.getElem?_eq_some_iff.mp servesLeft
    exact ⟨rfl, (List.getElem?_inj inside apart).mp (servesLeft.trans servesRight.symm)⟩
  · rintro ⟨rfl : function = function', slots⟩
    simp only [Serves] at servesLeft servesRight slots
    rw [slots, servesRight] at servesLeft
    exact (congrArg Binding.name (Option.some_inj.mp servesLeft)).symm

theorem forFunction_made (bindings : Bindings) (placeholder : Placeholder) (function : Function) :
    forFunction [bindings.made placeholder] function =
      if placeholder.function = function then [bindings.made placeholder] else [] := by
  simp [forFunction, made, List.filter_cons]

/-- The use that a placeholder becomes is served: its binding was at its slot, or was made for it
and stands there because no slot is passed over. -/
theorem Covers.serves_bind {met : List Function} (covers : bindings.Covers met)
    (placeholder : Placeholder) :
    (bindings.bind placeholder (met.count placeholder.function)).2.Serves
      ⟨placeholder.function, met.count placeholder.function,
        (bindings.bind placeholder (met.count placeholder.function)).1.name⟩ := by
  rcases bind_cases bindings placeholder (met.count placeholder.function) with
    ⟨binding, found, same⟩ | ⟨past, same⟩
  · have function := function_of_mem_forFunction (List.mem_of_getElem? found)
    rw [same, Serves, ← slot_eq, found, ← function]
  · -- the new binding is the last one for its function, and no slot before it is left out
    have reach := Nat.le_trans (slotOf_le_demand _ _) (covers placeholder.function)
    rw [slot_eq] at past
    rw [same, Serves, forFunction_append, List.getElem?_append_right past, forFunction_made,
      if_pos rfl, Nat.le_antisymm reach past, Nat.sub_self]
    rfl

/-- A placeholder adds a binding for its function if one more is needed, and none for others. -/
theorem Covers.length_bind {met : List Function} (covers : bindings.Covers met)
    (placeholder : Placeholder) (function : Function) :
    ((bindings.bind placeholder (met.count placeholder.function)).2.forFunction function).length =
      max (bindings.forFunction function).length
        (demand function ((placeholder.function :: met).count function)) := by
  have covered := covers function
  rcases bind_cases bindings placeholder (met.count placeholder.function) with
    ⟨binding, found, same⟩ | ⟨past, same⟩
  · rw [same]
    by_cases own : placeholder.function = function
    · subst own
      obtain ⟨inside, _⟩ := List.getElem?_eq_some_iff.mp found
      rw [slot_eq] at inside
      rw [List.count_cons_self, demand_succ]
      exact (Nat.max_eq_left inside).symm
    · rw [List.count_cons_of_ne own]
      exact (Nat.max_eq_left covered).symm
  · rw [same, forFunction_append, forFunction_made, List.length_append]
    by_cases own : placeholder.function = function
    · subst own
      have reach := Nat.le_trans (slotOf_le_demand _ _) covered
      rw [slot_eq] at past
      rw [List.count_cons_self, demand_succ, Nat.le_antisymm reach past, if_pos rfl]
      exact (Nat.max_eq_right (Nat.le_succ _)).symm
    · rw [List.count_cons_of_ne own, if_neg own]
      exact (Nat.max_eq_left covered).symm

/-- Binding a placeholder keeps the bindings enough for what has been met, the placeholder
included. -/
theorem Covers.bind {met : List Function} (covers : bindings.Covers met)
    (placeholder : Placeholder) :
    (bindings.bind placeholder (met.count placeholder.function)).2.Covers
      (placeholder.function :: met) := by
  intro function
  rw [covers.length_bind]
  exact Nat.le_max_right ..

theorem covers_nil (bindings : Bindings) : bindings.Covers [] := by
  intro function
  simp [demand]

end Bindings

/-! ### Pieces -/

section Pieces

variable {pieces : List Piece} {placeholders : List (Occurrence Placeholder)} {chars : List Char}
  {bindings : Bindings}

/-- What stays when a placeholder is bound stays through the pieces of a text. The induction is on
the pieces. -/
theorem Bindings.Stable.bindPieces {property : Bindings → Prop} (stable : Stable property)
    (holds : property bindings) (met : List Function) (leading : Bool) (pieces : List Piece) :
    property (bindPieces bindings met leading pieces).2 := by
  induction pieces generalizing bindings met leading with
  | nil => exact holds
  | cons piece pieces ih =>
      cases piece with
      | text chars => exact ih holds met false
      | placeholder found => exact ih (stable bindings found _ holds) _ false

/-- After a text all uses in its message are served. The induction is on the pieces, with the
functions met so far free. -/
theorem serves_bindPieces {met : List Function} (covers : bindings.Covers met) (leading : Bool)
    (pieces : List Piece) :
    ∀ use ∈ usesFrom met (bindPieces bindings met leading pieces).1,
      (bindPieces bindings met leading pieces).2.Serves use := by
  induction pieces generalizing bindings met leading with
  | nil => simp [bindPieces, usesFrom]
  | cons piece pieces ih =>
      cases piece with
      | text chars => exact ih covers false
      | placeholder found =>
          have later := ih (covers.bind found) false
          have first := (Bindings.stable_serves _).bindPieces (covers.serves_bind found)
            (found.function :: met) false pieces
          simp only [bindPieces, Bindings.bind_expression, usesFrom, List.forall_mem_cons]
          exact ⟨first, later⟩

/-- A text adds the bindings that its placeholders need, and no more: the number for a function is
the greater of what there was and what is needed. -/
theorem length_bindPieces (spell : Piece.Spell pieces placeholders chars) {met : List Function}
    (covers : bindings.Covers met) (leading : Bool) (function : Function) :
    ((bindPieces bindings met leading pieces).2.forFunction function).length =
      max (bindings.forFunction function).length (demand function
        (met.count function + (placeholders.map (·.found.function)).count function)) := by
  induction spell generalizing bindings met leading with
  | nil => exact (Nat.max_eq_left (covers function)).symm
  | text chars others ih => exact ih covers false
  | @placeholder _ rest _ occurrence others ih =>
      -- what the occurrences so far need is also needed with the rest behind them
      have more := demand_mono function (Nat.le_add_right
        ((occurrence.found.function :: met).count function)
        ((rest.map (·.found.function)).count function))
      have later := ih (covers.bind occurrence.found) false
      rw [covers.length_bind, Nat.max_assoc, Nat.max_eq_right more] at later
      rw [bindPieces, later, List.map_cons, List.count_cons, List.count_cons]
      congr 2
      omega

end Pieces

/-! ### Strings through one extractor -/

/-- The greatest number of occurrences of a function in one of the texts, as bindings are shared
between texts but not within one. -/
def mostIn (formats : List Format) (texts : List String) (function : Function) : Nat :=
  (texts.map fun text => (functionsIn formats text.toList).count function).foldr max 0

namespace Extractor

/-- The uses in the message are the placeholders selected in the text; without a message there are
none. -/
theorem functions_usesOf (extractor : Extractor) (text : String) :
    (usesOf (extractor.extract text).1).map (·.function) =
      functionsIn extractor.settings.formats text.toList := by
  cases extracted : (extractor.extract text).1 with
  | ok extraction => exact (shows_of_extract extracted).1.functions_usesFrom []
  | error error =>
      have spell := spell_pieces extractor.settings.formats text.toList
      have unused := any_isPlaceholder_of_extract_eq_error extracted
      have none : placeholdersIn extractor.settings.formats text.toList = [] := by
        by_contra some
        exact Bool.false_ne_true (unused.symm.trans (spell.any_isPlaceholder.mpr some))
      rw [functionsIn, none]
      rfl

theorem serves_extract (extractor : Extractor) (text : String) :
    ∀ use ∈ usesOf (extractor.extract text).1, (extractor.extract text).2.bindings.Serves use := by
  cases extracted : (extractor.extract text).1 with
  | ok extraction =>
      rw [eq_of_extract_eq_ok extracted]
      exact serves_bindPieces extractor.bindings.covers_nil true _
  | error error => simp [usesOf]

/-- After a string a function has the bindings that it had, or as many as this string needs. A
string that is refused needs none. -/
theorem length_extract (extractor : Extractor) (text : String) (function : Function) :
    ((extractor.extract text).2.bindings.forFunction function).length =
      max (extractor.bindings.forFunction function).length
        (demand function
          ((functionsIn extractor.settings.formats text.toList).count function)) := by
  have length := length_bindPieces (spell_pieces extractor.settings.formats text.toList)
    extractor.bindings.covers_nil true function
  rwa [List.count_nil, Nat.zero_add] at length

/-- What stays when a placeholder is bound stays through a run of strings, those that are refused
included. -/
theorem stable_extractAll {property : Bindings → Prop} (stable : Bindings.Stable property)
    (extractor : Extractor) (holds : property extractor.bindings) (texts : List String) :
    property (extractor.extractAll texts).2.bindings := by
  induction texts generalizing extractor with
  | nil => exact holds
  | cons text texts ih => exact ih _ (stable.bindPieces holds [] true _)

/-- The uses in a run are the placeholders selected in its strings. -/
theorem functions_extractAll (extractor : Extractor) (texts : List String) :
    (extractor.extractAll texts).1.map (fun result => (usesOf result).map (·.function)) =
      texts.map fun text => functionsIn extractor.settings.formats text.toList := by
  induction texts generalizing extractor with
  | nil => rfl
  | cons text texts ih =>
      exact congrArg₂ List.cons (extractor.functions_usesOf text) (ih (extractor.extract text).2)

/-- In the end all uses are served, those in the first texts too. -/
theorem serves_extractAll (extractor : Extractor) (texts : List String) :
    ∀ use ∈ (extractor.extractAll texts).1.flatMap usesOf,
      (extractor.extractAll texts).2.bindings.Serves use := by
  induction texts generalizing extractor with
  | nil => simp [extractAll]
  | cons text texts ih =>
      have first := fun use member => stable_extractAll (Bindings.stable_serves use)
        (extractor.extract text).2 (extractor.serves_extract text use member) texts
      exact List.forall_mem_append.mpr ⟨first, ih (extractor.extract text).2⟩

/-- After a run a function has as many bindings as the string that needs most of them. -/
theorem length_extractAll (extractor : Extractor) (texts : List String) (function : Function) :
    ((extractor.extractAll texts).2.bindings.forFunction function).length =
      max (extractor.bindings.forFunction function).length
        (demand function (mostIn extractor.settings.formats texts function)) := by
  induction texts generalizing extractor with
  | nil => simp [extractAll, mostIn, demand]
  | cons text texts ih =>
      have rest := ih (extractor.extract text).2
      rw [length_extract, Nat.max_assoc, ← demand_max] at rest
      exact rest

/-- Two placeholders of the texts that go through one extractor have the same variable exactly if
they have the same function and either it names its argument or both are occurrences of the same
rank in their texts. In the end a function has one binding if it names its argument, and else as
many as it has occurrences in one of the texts; none if it does not occur. -/
theorem name_eq_iff_of_extractAll (settings : Settings) (texts : List String) :
    (extractAll { settings } texts).1.map (fun result => (usesOf result).map (·.function)) =
        texts.map (fun text => functionsIn settings.formats text.toList) ∧
      (∀ left ∈ (extractAll { settings } texts).1.flatMap usesOf,
        ∀ right ∈ (extractAll { settings } texts).1.flatMap usesOf,
          (left.name = right.name ↔ left.function = right.function ∧
            (namesArgument left.function = true ∨ left.earlier = right.earlier))) ∧
      ∀ function,
        ((extractAll { settings } texts).2.bindings.forFunction function).length =
          if namesArgument function then min 1 (mostIn settings.formats texts function)
          else mostIn settings.formats texts function := by
  have distinct : Bindings.Distinct (extractAll { settings } texts).2.bindings :=
    stable_extractAll Bindings.stable_distinct { settings } List.nodup_nil texts
  refine ⟨functions_extractAll { settings } texts, ?_, ?_⟩
  · intro left memberLeft right memberRight
    have servesLeft := serves_extractAll { settings } texts left memberLeft
    have servesRight := serves_extractAll { settings } texts right memberRight
    rw [distinct.name_eq_iff servesLeft servesRight]
    refine and_congr_right fun same => ?_
    rw [← same, slotOf_eq_iff]
  · intro function
    have length := length_extractAll { settings } texts function
    rwa [show Bindings.forFunction [] function = [] from rfl, List.length_nil,
      Nat.zero_max] at length

/-- Two counts in one text, then one of them and an argument that is named twice. -/
theorem name_eq_second_count :
    (extractAll {} ["%d of %d", "%d \x7bx\x7d\x7bx\x7d"]).1.flatMap usesOf =
        [⟨function ⟨.printf, none, some .int⟩, 0, "ph0"⟩,
          ⟨function ⟨.printf, none, some .int⟩, 1, "ph1"⟩,
          ⟨function ⟨.printf, none, some .int⟩, 0, "ph0"⟩,
          ⟨function ⟨.bracketVar, some "x", none⟩, 0, "x"⟩,
          ⟨function ⟨.bracketVar, some "x", none⟩, 1, "x"⟩] ∧
      ("x" = "x" ↔ function ⟨.bracketVar, some "x", none⟩ =
          function ⟨.bracketVar, some "x", none⟩ ∧
        (namesArgument (function ⟨.bracketVar, some "x", none⟩) = true ∨ 0 = 1)) ∧
      ("ph0" = "ph1" ↔ function ⟨.printf, none, some .int⟩ = function ⟨.printf, none, some .int⟩ ∧
        (namesArgument (function ⟨.printf, none, some .int⟩) = true ∨ 0 = 1)) := by
  have uses : (extractAll {} ["%d of %d", "%d \x7bx\x7d\x7bx\x7d"]).1.flatMap usesOf =
      [⟨function ⟨.printf, none, some .int⟩, 0, "ph0"⟩,
        ⟨function ⟨.printf, none, some .int⟩, 1, "ph1"⟩,
        ⟨function ⟨.printf, none, some .int⟩, 0, "ph0"⟩,
        ⟨function ⟨.bracketVar, some "x", none⟩, 0, "x"⟩,
        ⟨function ⟨.bracketVar, some "x", none⟩, 1, "x"⟩] := by
    cbv
  have law := (name_eq_iff_of_extractAll {} ["%d of %d", "%d \x7bx\x7d\x7bx\x7d"]).2.1
  rw [uses] at law
  have arguments := law ⟨function ⟨.bracketVar, some "x", none⟩, 0, "x"⟩ (by simp)
    ⟨function ⟨.bracketVar, some "x", none⟩, 1, "x"⟩ (by simp)
  have counts := law ⟨function ⟨.printf, none, some .int⟩, 0, "ph0"⟩ (by simp)
    ⟨function ⟨.printf, none, some .int⟩, 1, "ph1"⟩ (by simp)
  exact ⟨uses, arguments, counts⟩

end Extractor

end Placeholder

end MessageTemplate
