import MessageTemplate.Message.Basic

/-! # Equality of message trees

Message trees are compared node by node. The matcher makes the tree recursive, so the decision
procedures for nodes, matchers, variants and their lists are defined together.
-/

namespace MessageTemplate

mutual

/-- Nodes of different kinds differ; nodes of one kind are compared by what they hold. Only a
matcher leads back into the tree. -/
def Node.decEq : (left right : Node) → Decidable (left = right)
  | .text left, .text right =>
    if same : left = right then isTrue (congrArg _ same) else isFalse (by simpa using same)
  | .expression left, .expression right =>
    if same : left = right then isTrue (congrArg _ same) else isFalse (by simpa using same)
  | .markup left, .markup right =>
    if same : left = right then isTrue (congrArg _ same) else isFalse (by simpa using same)
  | .matcher left, .matcher right =>
    match left.decEq right with
    | isTrue same => isTrue (congrArg _ same)
    | isFalse differ => isFalse (by simpa using differ)
  | .text _, .expression _ | .text _, .markup _ | .text _, .matcher _
  | .expression _, .text _ | .expression _, .markup _ | .expression _, .matcher _
  | .markup _, .text _ | .markup _, .expression _ | .markup _, .matcher _
  | .matcher _, .text _ | .matcher _, .expression _ | .matcher _, .markup _ =>
    isFalse (by simp)

/-- Matchers are equal when their selectors and their variants are. -/
def Matcher.decEq : (left right : Matcher) → Decidable (left = right)
  | ⟨selectors, variants⟩, ⟨selectors', variants'⟩ =>
    if same : selectors = selectors' then
      match decEqVariants variants variants' with
      | isTrue rest => isTrue (by rw [same, rest])
      | isFalse differ => isFalse (by simp [differ])
    else isFalse (by simp [same])

/-- Variants are equal when their keys and their bodies are. -/
def Variant.decEq : (left right : Variant) → Decidable (left = right)
  | ⟨keys, body⟩, ⟨keys', body'⟩ =>
    if same : keys = keys' then
      match decEqNodes body body' with
      | isTrue rest => isTrue (by rw [same, rest])
      | isFalse differ => isFalse (by simp [differ])
    else isFalse (by simp [same])

/-- Lists of variants are compared from the front. The recursion is written out, since the one of
the library for lists asks for an instance that is still being defined. -/
def decEqVariants : (left right : List Variant) → Decidable (left = right)
  | [], [] => isTrue rfl
  | [], _ :: _ | _ :: _, [] => isFalse (by simp)
  | left :: lefts, right :: rights =>
    match left.decEq right, decEqVariants lefts rights with
    | isTrue same, isTrue rest => isTrue (by rw [same, rest])
    | isFalse differ, _ => isFalse (by simp [differ])
    | _, isFalse differ => isFalse (by simp [differ])

/-- Lists of nodes, compared in the same way. -/
def decEqNodes : (left right : List Node) → Decidable (left = right)
  | [], [] => isTrue rfl
  | [], _ :: _ | _ :: _, [] => isFalse (by simp)
  | left :: lefts, right :: rights =>
    match left.decEq right, decEqNodes lefts rights with
    | isTrue same, isTrue rest => isTrue (by rw [same, rest])
    | isFalse differ, _ => isFalse (by simp [differ])
    | _, isFalse differ => isFalse (by simp [differ])

end

/-- Equality of nodes can be decided, so that results on concrete messages can be evaluated. -/
instance : DecidableEq Node := Node.decEq

instance : DecidableEq Matcher := Matcher.decEq

instance : DecidableEq Variant := Variant.decEq

end MessageTemplate
