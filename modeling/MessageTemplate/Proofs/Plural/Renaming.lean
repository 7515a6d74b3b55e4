import MessageTemplate.Proofs.Placeholder.Sharing
import MessageTemplate.Proofs.Plural.Building

/-! # Names in a shared context

The strings that went through an extractor before have a part only in the names of the variables
that it gives to the placeholders of the next one: with a fresh extractor the result is the same up
to an injective renaming of these variables. Two placeholders of a string have one variable exactly
if they are served by the same slot of the same function, and this does not depend on the bindings
there were before (`MessageTemplate.Placeholder.paired_bindPieces`).

Names have no part in a signature, so that of a plural message puts those of its forms behind one
another (`MessageTemplate.Plural.sameButNames_of_extractAll`).
-/

namespace MessageTemplate

namespace Placeholder

/-- The variable of a placeholder, if the node stands for one. Other expressions keep their
variables. -/
def placeholderName? : Node → Option String
  | .expression ⟨some (.variable name), some function⟩ =>
    if function.name = functionName then some name else none
  | _ => none

/-- Rename the variable of a placeholder. Whatever else a message has stays as it is, and so does a
variable with another function. -/
def renameNode (rename : String → String) : Node → Node
  | .expression ⟨some (.variable name), some function⟩ =>
    .expression ⟨some (.variable (if function.name = functionName then rename name else name)),
      some function⟩
  | node => node

/-- The second message is the first one, up to an injective renaming of the variables of its
placeholders. -/
def Renamed (message other : Message) : Prop :=
  ∃ rename : String → String,
    Set.InjOn rename {name | ∃ node ∈ message, placeholderName? node = some name} ∧
      message.map (renameNode rename) = other

/-- Results that are the same but for the variables of placeholders: the same error, or messages
with the same flag. -/
inductive SameButNames : Except Error Extraction → Except Error Extraction → Prop
  | error (error : Error) : SameButNames (.error error) (.error error)
  | ok {message other : Message} (used : Bool) (renamed : Renamed message other) :
      SameButNames (.ok ⟨message, used⟩) (.ok ⟨other, used⟩)

/-! ### Paired variables -/

/-- Nodes that are the same but for the variables of placeholders, which are paired in the order in
which they stand there. -/
inductive Paired : List (String × String) → List Node → List Node → Prop
  | nil : Paired [] [] []
  | text {pairs : List (String × String)} {nodes others : List Node} (value : String)
      (rest : Paired pairs nodes others) :
      Paired pairs (.text value :: nodes) (.text value :: others)
  | expression {pairs : List (String × String)} {nodes others : List Node} {function : Function}
      (name other : String) (marks : function.name = functionName)
      (rest : Paired pairs nodes others) :
      Paired ((name, other) :: pairs)
        (.expression ⟨some (.variable name), some function⟩ :: nodes)
        (.expression ⟨some (.variable other), some function⟩ :: others)

/-- Each left name has one right name, and each right name one left name. Only then do the pairs
make an injective renaming. -/
def OneToOne (pairs : List (String × String)) : Prop :=
  ∀ left ∈ pairs, ∀ right ∈ pairs, left.1 = right.1 ↔ left.2 = right.2

/-- The right name of the first pair with the given left name. A name that is in no pair stays, so
the renaming is defined everywhere. -/
def rightName (pairs : List (String × String)) (name : String) : String :=
  ((pairs.find? (·.1 = name)).map Prod.snd).getD name

section Paired

variable {pairs : List (String × String)} {nodes others : List Node}

theorem OneToOne.rightName_eq (oneToOne : OneToOne pairs) {pair : String × String}
    (member : pair ∈ pairs) : rightName pairs pair.1 = pair.2 := by
  have present : (pairs.find? (·.1 = pair.1)).isSome = true :=
    List.find?_isSome.mpr ⟨pair, member, by simp⟩
  obtain ⟨first, found⟩ := Option.isSome_iff_exists.mp present
  have same : first.1 = pair.1 := by simpa using List.find?_some found
  rw [rightName, found]
  exact (oneToOne first (List.mem_of_find?_eq_some found) pair member).mp same

/-- A renaming that agrees with the pairs turns the first nodes into the second. -/
theorem Paired.map_renameNode (paired : Paired pairs nodes others) {rename : String → String}
    (agrees : ∀ pair ∈ pairs, rename pair.1 = pair.2) :
    nodes.map (renameNode rename) = others := by
  induction paired with
  | nil => rfl
  | text value rest ih => exact congrArg (.text value :: ·) (ih agrees)
  | expression name other marks rest ih =>
      rw [List.forall_mem_cons] at agrees
      rw [List.map_cons, ih agrees.2, renameNode, if_pos marks, agrees.1]

theorem Paired.exists_pair (paired : Paired pairs nodes others) {node : Node} {name : String}
    (member : node ∈ nodes) (named : placeholderName? node = some name) :
    ∃ other, (name, other) ∈ pairs := by
  induction paired with
  | nil => simp at member
  | text value rest ih =>
      rcases List.mem_cons.mp member with rfl | later
      · simp [placeholderName?] at named
      · exact ih later
  | expression own other marks rest ih =>
      rcases List.mem_cons.mp member with rfl | later
      · rw [placeholderName?, if_pos marks, Option.some_inj] at named
        exact ⟨other, named ▸ List.mem_cons_self⟩
      · obtain ⟨other', listed⟩ := ih later
        exact ⟨other', List.mem_cons_of_mem _ listed⟩

/-- Nodes with paired names, one to one, are the same up to an injective renaming. It takes each
left name to its right name. -/
theorem Paired.renamed (paired : Paired pairs nodes others) (oneToOne : OneToOne pairs) :
    Renamed nodes others := by
  refine ⟨rightName pairs, ?_, paired.map_renameNode fun _ => oneToOne.rightName_eq⟩
  rintro left ⟨node, member, named⟩ right ⟨node', member', named'⟩ same
  obtain ⟨other, listed⟩ := paired.exists_pair member named
  obtain ⟨other', listed'⟩ := paired.exists_pair member' named'
  have value := oneToOne.rightName_eq listed
  have value' := oneToOne.rightName_eq listed'
  exact (oneToOne _ listed _ listed').mpr (value.symm.trans (same.trans value'))

end Paired

/-! ### Two tables of bindings -/

theorem Bindings.distinct_nil : Bindings.Distinct [] := List.nodup_nil

/-- Two bindings for one slot of a function, one in each table. It is the slot that both names come
from. -/
def ServedTogether (bindings others : Bindings) (pair : String × String) : Prop :=
  ∃ function earlier, bindings.Serves ⟨function, earlier, pair.1⟩ ∧
    others.Serves ⟨function, earlier, pair.2⟩

/-- Names that are served together are one to one, since in each table a name tells its slot. -/
theorem oneToOne_of_servedTogether {bindings others : Bindings} (distinct : bindings.Distinct)
    (distinct' : others.Distinct) {pairs : List (String × String)}
    (served : ∀ pair ∈ pairs, ServedTogether bindings others pair) : OneToOne pairs := by
  intro left member right member'
  obtain ⟨function, earlier, servesLeft, servesLeft'⟩ := served left member
  obtain ⟨function', earlier', servesRight, servesRight'⟩ := served right member'
  exact (distinct.name_eq_iff servesLeft servesRight).trans
    (distinct'.name_eq_iff servesLeft' servesRight').symm

/-- The nodes that two tables of bindings make of some pieces are the same but for the names, of
which those that belong together are for one slot of a function. -/
theorem paired_bindPieces {bindings others : Bindings} {met : List Function}
    (covers : bindings.Covers met) (covers' : others.Covers met) (leading : Bool)
    (pieces : List Piece) :
    ∃ pairs, Paired pairs (bindPieces bindings met leading pieces).1
        (bindPieces others met leading pieces).1 ∧
      ∀ pair ∈ pairs, ServedTogether (bindPieces bindings met leading pieces).2
        (bindPieces others met leading pieces).2 pair := by
  induction pieces generalizing bindings others met leading with
  | nil => exact ⟨[], .nil, by simp⟩
  | cons piece pieces ih =>
      cases piece with
      | text chars =>
          obtain ⟨pairs, paired, served⟩ := ih covers covers' false
          exact ⟨pairs, .text _ paired, served⟩
      | placeholder found =>
          obtain ⟨pairs, paired, served⟩ := ih (covers.bind found) (covers'.bind found) false
          have first := (Bindings.stable_serves _).bindPieces (covers.serves_bind found)
            (found.function :: met) false pieces
          have first' := (Bindings.stable_serves _).bindPieces (covers'.serves_bind found)
            (found.function :: met) false pieces
          refine ⟨((bindings.bind found (met.count found.function)).1.name,
            (others.bind found (met.count found.function)).1.name) :: pairs, ?_,
            List.forall_mem_cons.mpr ⟨⟨_, _, first, first'⟩, served⟩⟩
          simp only [bindPieces, Bindings.bind_expression]
          exact .expression _ _ rfl paired

namespace Extractor

/-- What an extractor has extracted before changes names only. The other extractor has the same
settings and no bindings. -/
theorem sameButNames_extract {extractor : Extractor} (distinct : extractor.bindings.Distinct)
    (text : String) :
    SameButNames (extract { settings := extractor.settings } text).1
      (extractor.extract text).1 := by
  obtain ⟨pairs, paired, served⟩ := paired_bindPieces (Bindings.covers_nil [])
    extractor.bindings.covers_nil true (pieces extractor.settings.formats text.toList)
  have renamed := paired.renamed (oneToOne_of_servedTogether
    (Bindings.stable_distinct.bindPieces Bindings.distinct_nil [] true _)
    (Bindings.stable_distinct.bindPieces distinct [] true _) served)
  simp only [extract]
  split
  · exact .error _
  · exact .ok _ renamed

theorem settings_extractAll (extractor : Extractor) (texts : List String) :
    (extractor.extractAll texts).2.settings = extractor.settings := by
  induction texts generalizing extractor with
  | nil => rfl
  | cons text texts ih => exact ih (extractor.extract text).2

/-- Strings that go through one extractor give the same as each of them does alone, but for the
names. Each string is held against a fresh extractor of its own. -/
theorem sameButNames_extractAll {extractor : Extractor} (distinct : extractor.bindings.Distinct)
    (texts : List String) :
    List.Forall₂ SameButNames
      (texts.map fun text => (extract { settings := extractor.settings } text).1)
      (extractor.extractAll texts).1 := by
  induction texts generalizing extractor with
  | nil => exact .nil
  | cons text texts ih =>
      have later : (extractor.extract text).2.bindings.Distinct :=
        Bindings.stable_distinct.bindPieces distinct [] true _
      exact .cons (sameButNames_extract distinct text) (ih later)

end Extractor

/-! ### Signatures -/

theorem signatureOfNode_renameNode (rename : String → String) (node : Node) :
    signatureOfNode (renameNode rename node) = signatureOfNode node := by
  unfold renameNode
  split <;> rfl

theorem signatureOfNodes_eq_flatMap (nodes : List Node) :
    signatureOfNodes nodes = nodes.flatMap signatureOfNode := by
  induction nodes with
  | nil => rfl
  | cons node nodes ih => rw [signatureOfNodes, ih, List.flatMap_cons]

theorem signatureOfVariants_eq_flatMap (variants : List Variant) :
    signatureOfVariants variants = (variants.map Variant.body).flatMap signatureOfNodes := by
  induction variants with
  | nil => rfl
  | cons variant variants ih =>
      obtain ⟨keys, body⟩ := variant
      rw [signatureOfVariants, ih, List.map_cons, List.flatMap_cons]

/-- Messages that are the same up to a renaming have the same signature, since a signature has no
names in it. -/
theorem Renamed.signature {message other : Message} (renamed : Renamed message other) :
    other.signature = message.signature := by
  obtain ⟨rename, _, rfl⟩ := renamed
  rw [Message.signature, Message.signature, signatureOfNodes_eq_flatMap,
    signatureOfNodes_eq_flatMap, List.flatMap_map]
  simp only [signatureOfNode_renameNode]

theorem signatures_of_sameButNames {results : List (Except Error Extraction)}
    {extractions : List Extraction}
    (same : List.Forall₂ SameButNames results (extractions.map .ok)) :
    ∃ others : List Extraction, results = others.map .ok ∧
      others.flatMap (·.message.signature) = extractions.flatMap (·.message.signature) := by
  induction extractions generalizing results with
  | nil =>
      cases same
      exact ⟨[], rfl, rfl⟩
  | cons extraction extractions ih =>
      cases same with
      | cons first rest =>
          obtain ⟨others, rfl, signatures⟩ := ih rest
          cases first with
          | ok used renamed =>
              refine ⟨⟨_, used⟩ :: others, rfl, ?_⟩
              rw [List.flatMap_cons, List.flatMap_cons, signatures, ← renamed.signature]

end Placeholder

namespace Plural

open Placeholder Extractor

variable {selector : String} {forms : Forms String} {settings : Settings}
  {plural : PluralMessage}

/-- The signature of a plural message consists of those of its forms, each extracted alone. That the
forms share one extractor changes only names. -/
theorem signature_of_build (built : build selector forms settings = .ok plural) :
    ∃ extractions : List Extraction,
      forms.toList.map (fun entry =>
          (extract { settings := { settings with hint := none } } entry.2).1) =
        extractions.map .ok ∧
      plural.message.signature = extractions.flatMap (·.message.signature) := by
  obtain ⟨_, variants, last, extracted, made, _⟩ := build_eq_ok built
  obtain ⟨extractions, all, _, bodies, _⟩ := extractForms_eq_ok extracted
  have same := @sameButNames_extractAll ⟨{ settings with hint := none }, []⟩
    Bindings.distinct_nil (forms.toList.map Prod.snd)
  rw [all, List.map_map] at same
  obtain ⟨others, alone, signatures⟩ := signatures_of_sameButNames same
  refine ⟨others, alone, ?_⟩
  calc plural.message.signature
      = signatureOfVariants variants := by rw [made]; exact List.append_nil _
    _ = extractions.flatMap (·.message.signature) := by
        rw [signatureOfVariants_eq_flatMap, bodies, List.flatMap_map]
        rfl
    _ = others.flatMap (·.message.signature) := signatures.symm

/-- What went through an extractor before changes names only: with a fresh extractor the next string
gives the same error, or the same flag and the same message up to an injective renaming of the
variables of its placeholders. The signature of a plural message consists of those of its forms in
the order of their categories, each form extracted alone. -/
theorem sameButNames_of_extractAll (settings : Settings) (earlier : List String) (text : String) :
    SameButNames (extract { settings } text).1
        ((extractAll { settings } earlier).2.extract text).1 ∧
      ∀ (selector : String) (forms : Forms String) (plural : PluralMessage),
        build selector forms settings = .ok plural →
          ∃ extractions : List Extraction,
            forms.toList.map (fun entry =>
                (extract { settings := { settings with hint := none } } entry.2).1) =
              extractions.map .ok ∧
            plural.message.signature = extractions.flatMap (·.message.signature) := by
  refine ⟨?_, fun _ _ _ => signature_of_build⟩
  have distinct := stable_extractAll Bindings.stable_distinct { settings } Bindings.distinct_nil
    earlier
  have same := sameButNames_extract distinct text
  rwa [settings_extractAll] at same

/-- A captured name that is taken by a count in a fresh extractor, but free after another string,
and a count that two forms share. -/
theorem sameButNames_captured_name :
    Renamed
        [.expression ⟨some (.variable "ph0"), some (function ⟨.printf, none, some .int⟩)⟩,
          .expression ⟨some (.variable "ph0_2"), some (function ⟨.bracketVar, some "ph0", none⟩)⟩]
        [.expression ⟨some (.variable "ph1"), some (function ⟨.printf, none, some .int⟩)⟩,
          .expression ⟨some (.variable "ph0"), some (function ⟨.bracketVar, some "ph0", none⟩)⟩] ∧
      ∃ (plural : PluralMessage) (extractions : List Extraction),
        build "n" (Forms.ofList [(.other, "%d\x7bx\x7d"), (.one, "%d")]) {} = .ok plural ∧
          (Forms.ofList [(.other, "%d\x7bx\x7d"), (.one, "%d")]).toList.map
            (fun entry => (extract {} entry.2).1) = extractions.map .ok ∧
          plural.message.signature = extractions.flatMap (·.message.signature) ∧
          plural.message.signature = ["printf:int", "printf:int", "bracketVar:any"] := by
  have law := sameButNames_of_extractAll {} ["\x7bx\x7d"] "%d\x7bph0\x7d"
  constructor
  · have alone : (extract {} "%d\x7bph0\x7d").1 = .ok
        ⟨[.expression ⟨some (.variable "ph0"), some (function ⟨.printf, none, some .int⟩)⟩,
          .expression ⟨some (.variable "ph0_2"), some (function ⟨.bracketVar, some "ph0", none⟩)⟩],
          true⟩ := by
      cbv
    have shared : ((extractAll {} ["\x7bx\x7d"]).2.extract "%d\x7bph0\x7d").1 = .ok
        ⟨[.expression ⟨some (.variable "ph1"), some (function ⟨.printf, none, some .int⟩)⟩,
          .expression ⟨some (.variable "ph0"), some (function ⟨.bracketVar, some "ph0", none⟩)⟩],
          true⟩ := by
      cbv
    have same := law.1
    rw [alone, shared] at same
    cases same with
    | ok used renamed => exact renamed
  · have built : build "n" (Forms.ofList [(.other, "%d\x7bx\x7d"), (.one, "%d")]) {} = .ok
        ⟨[.matcher ⟨[⟨some (.variable "n"), some ⟨"number", []⟩⟩], [
            ⟨["one"], [
              .expression ⟨some (.variable "ph0"), some (function ⟨.printf, none, some .int⟩)⟩]⟩,
            ⟨["*"], [
              .expression ⟨some (.variable "ph0"), some (function ⟨.printf, none, some .int⟩)⟩,
              .expression
                ⟨some (.variable "x"), some (function ⟨.bracketVar, some "x", none⟩)⟩]⟩]⟩],
          [⟨"ph0", function ⟨.printf, none, some .int⟩⟩,
            ⟨"x", function ⟨.bracketVar, some "x", none⟩⟩], true⟩ := by
      cbv
    obtain ⟨extractions, alone, signature⟩ := law.2 _ _ _ built
    exact ⟨_, extractions, built, alone, signature, rfl⟩

end Plural

end MessageTemplate
