import MessageTemplate.Placeholder.Pattern

/-! # Bindings

A binding is a named variable that stands for a placeholder. Bindings are shared: a placeholder
that names its argument always has the first binding for its function, and the other occurrences
of a function in one text have the bindings for it in turn. Where there is none yet, a binding with
a fresh name is added.
-/

namespace MessageTemplate

namespace Placeholder

/-- A variable and the function that tells which placeholder it stands for. The function alone
identifies the placeholder; the name is what a message shows of it. -/
structure Binding where
  name : String
  function : Function
  deriving DecidableEq, Repr

/-- The expression that refers to a binding. -/
def Binding.expression (binding : Binding) : Expression :=
  ⟨some (.variable binding.name), some binding.function⟩

/-- A base name with a number behind it. -/
def numberedName (base : String) (number : Nat) : String := base ++ "_" ++ toString number

/-- The names to try for a base name, in order: itself, then with the numbers from two on. -/
def nameCandidate (base : String) : Nat → String
  | 0 => base
  | index + 1 => numberedName base (index + 2)

/-- The first candidate from an index on that is not taken, among a number of candidates to test;
when all of them are taken, the candidate behind them. -/
def firstFree (taken : List String) (base : String) : (tests index : Nat) → String
  | 0, index => nameCandidate base index
  | tests + 1, index =>
    if taken.contains (nameCandidate base index) then firstFree taken base tests (index + 1)
    else nameCandidate base index

/-- A name that is not taken. The candidates differ from one another, so one of the first is free
when there is one more of them than there are names.

The number behind a name has no upper bound here. Counting it in signed words of 32 bits gives the
same names as long as fewer than `2 ^ 31 - 2` are taken; from that many on, the count can leave the
words before it comes to a free name. -/
def freshName (taken : List String) (base : String) : String :=
  firstFree taken base taken.length 0

/-- The name that a placeholder asks for when a given number of bindings exist. An argument that is
not a name, such as a position, becomes one by the prefix. -/
def baseName (count : Nat) (argument : Option String) : String :=
  match argument with
  | some name => if isName name then name else "arg" ++ name
  | none => "ph" ++ toString count

/-- The bindings made so far, in the order in which they were made. -/
abbrev Bindings := List Binding

namespace Bindings

/-- The bindings for a function. Placeholders without an argument can have several of them, one for
each time they occur in one text. -/
def forFunction (bindings : Bindings) (function : Function) : List Binding :=
  bindings.filter (·.function = function)

/-- The binding for a placeholder that occurred the given number of times before in its text, and
the bindings with it. -/
def bind (bindings : Bindings) (placeholder : Placeholder) (earlier : Nat) :
    Binding × Bindings :=
  let index := if placeholder.argument.isSome then 0 else earlier
  match (bindings.forFunction placeholder.function)[index]? with
  | some binding => (binding, bindings)
  | none =>
    let base := baseName bindings.length placeholder.argument
    let binding := ⟨freshName (bindings.map (·.name)) base, placeholder.function⟩
    (binding, bindings ++ [binding])

end Bindings

end Placeholder

end MessageTemplate
