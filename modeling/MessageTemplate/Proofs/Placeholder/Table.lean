import MessageTemplate.Proofs.Placeholder.Sharing

/-! # The table of bindings

Whatever strings go through an extractor, its bindings have names that differ from one another, and
they are only ever added to. Every expression that an extractor makes refers to one of them, which
stays (`MessageTemplate.Placeholder.Extractor.refers_of_extractAll`).
-/

namespace MessageTemplate

namespace Placeholder

/-- The node is a text, or it refers to a binding for a placeholder by the name and with the
function of the binding. -/
inductive Refers (bindings : Bindings) : Node → Prop
  | text (value : String) : Refers bindings (.text value)
  | expression {binding : Binding} (bound : binding ∈ bindings)
      (marks : binding.function.name = functionName) :
      Refers bindings (.expression ⟨some (.variable binding.name), some binding.function⟩)

/-- A node refers to a binding that stays when others are added. So what holds after one string
holds after all later ones. -/
theorem Refers.mono {front bindings : Bindings} {node : Node}
    (refers : Refers front node) (added : front <+: bindings) :
    Refers bindings node := by
  cases refers with
  | text value => exact .text value
  | expression bound marks => exact .expression (added.subset bound) marks

namespace Bindings

/-- What is bound is in the table, as a binding that was there or as the last one. -/
theorem mem_bind (bindings : Bindings) (placeholder : Placeholder) (earlier : Nat) :
    (bindings.bind placeholder earlier).1 ∈ (bindings.bind placeholder earlier).2 := by
  rcases bind_cases bindings placeholder earlier with ⟨binding, found, same⟩ | ⟨_, same⟩
  · rw [same]
    exact List.mem_of_mem_filter (List.mem_of_getElem? found)
  · rw [same]
    exact List.mem_append_right _ (List.mem_singleton.mpr rfl)

theorem stable_isPrefix (front : Bindings) : Stable (front <+: ·) :=
  fun bindings placeholder earlier added => added.trans (isPrefix_bind bindings placeholder earlier)

end Bindings

theorem isPrefix_bindPieces (bindings : Bindings) (met : List Function) (leading : Bool)
    (pieces : List Piece) : bindings <+: (bindPieces bindings met leading pieces).2 :=
  (Bindings.stable_isPrefix bindings).bindPieces (List.prefix_refl _) met leading pieces

/-- The nodes of some pieces refer to bindings that are there in the end. A binding that a node
refers to is in the table when the node is made, and stays there. -/
theorem refers_bindPieces (bindings : Bindings) (met : List Function) (leading : Bool)
    (pieces : List Piece) :
    ∀ node ∈ (bindPieces bindings met leading pieces).1,
      Refers (bindPieces bindings met leading pieces).2 node := by
  induction pieces generalizing bindings met leading with
  | nil => simp [bindPieces]
  | cons piece pieces ih =>
      cases piece with
      | text chars => exact List.forall_mem_cons.mpr ⟨.text _, ih bindings met false⟩
      | placeholder found =>
          have bound := bindings.mem_bind found (met.count found.function)
          have marks : (bindings.bind found (met.count found.function)).1.function.name =
              functionName := by
            rw [Bindings.bind_function]
            rfl
          have kept := isPrefix_bindPieces (bindings.bind found (met.count found.function)).2
            (found.function :: met) false pieces
          exact List.forall_mem_cons.mpr
            ⟨(Refers.expression bound marks).mono kept, ih _ _ false⟩

namespace Extractor

/-- A string only adds bindings, also when it is refused. -/
theorem isPrefix_extract (extractor : Extractor) (text : String) :
    extractor.bindings <+: (extractor.extract text).2.bindings :=
  isPrefix_bindPieces extractor.bindings [] true _

theorem isPrefix_extractAll (extractor : Extractor) (texts : List String) :
    extractor.bindings <+: (extractor.extractAll texts).2.bindings :=
  stable_extractAll (Bindings.stable_isPrefix extractor.bindings) extractor (List.prefix_refl _)
    texts

theorem refers_extract {extractor : Extractor} {text : String} {extraction : Extraction}
    (extracted : (extractor.extract text).1 = .ok extraction) :
    ∀ node ∈ extraction.message, Refers (extractor.extract text).2.bindings node := by
  rw [eq_of_extract_eq_ok extracted]
  exact refers_bindPieces extractor.bindings [] true _

theorem Valid.extractAll {extractor : Extractor} (valid : extractor.Valid) (texts : List String) :
    (extractor.extractAll texts).2.Valid := by
  induction texts generalizing extractor with
  | nil => exact valid
  | cons text texts ih => exact ih (valid.extract text)

/-- After whatever strings, the names of the bindings are names and differ from one another; the
next string only adds bindings; and each node of a message that it makes is a text or refers to one
of the bindings, which is there after any later strings too. -/
theorem refers_of_extractAll (settings : Settings) (earlier : List String) (text : String)
    (later : List String) :
    (((extractAll { settings } earlier).2.bindings.map (·.name)).Nodup ∧
        ∀ binding ∈ (extractAll { settings } earlier).2.bindings, isName binding.name = true) ∧
      (extractAll { settings } earlier).2.bindings <+:
        ((extractAll { settings } earlier).2.extract text).2.bindings ∧
      ∀ extraction, ((extractAll { settings } earlier).2.extract text).1 = .ok extraction →
        ∀ node ∈ extraction.message,
          Refers ((extractAll { settings } earlier).2.extract text).2.bindings node ∧
            Refers (((extractAll { settings } earlier).2.extract text).2.extractAll
              later).2.bindings node := by
  have distinct : Bindings.Distinct (extractAll { settings } earlier).2.bindings :=
    stable_extractAll Bindings.stable_distinct { settings } List.nodup_nil earlier
  have valid := (valid_fresh settings).extractAll earlier
  refine ⟨⟨distinct, fun binding member => (valid binding member).name⟩, isPrefix_extract _ text,
    fun extraction extracted node member => ?_⟩
  have refers := refers_extract extracted node member
  exact ⟨refers, refers.mono (isPrefix_extractAll _ later)⟩

/-- An argument whose name is the one that an earlier argument had to take. -/
theorem refers_taken_name :
    ((extractAll {} ["%(x)s \x7bx\x7d"]).2.extract "\x7bx_2\x7d").1 =
        .ok ⟨[.expression ⟨some (.variable "x_2_2"),
          some (function ⟨.bracketVar, some "x_2", none⟩)⟩], true⟩ ∧
      ((extractAll {} ["%(x)s \x7bx\x7d"]).2.bindings.map (·.name)) = ["x", "x_2"] ∧
      Refers (((extractAll {} ["%(x)s \x7bx\x7d"]).2.extract "\x7bx_2\x7d").2.extractAll
          ["%d"]).2.bindings
        (.expression ⟨some (.variable "x_2_2"),
          some (function ⟨.bracketVar, some "x_2", none⟩)⟩) := by
  have extracted : ((extractAll {} ["%(x)s \x7bx\x7d"]).2.extract "\x7bx_2\x7d").1 =
      .ok ⟨[.expression ⟨some (.variable "x_2_2"),
        some (function ⟨.bracketVar, some "x_2", none⟩)⟩], true⟩ := by
    cbv
  have table := refers_of_extractAll {} ["%(x)s \x7bx\x7d"] "\x7bx_2\x7d" ["%d"]
  exact ⟨extracted, by cbv,
    (table.2.2 _ extracted _ (List.mem_singleton.mpr rfl)).2⟩

end Extractor

end Placeholder

end MessageTemplate
