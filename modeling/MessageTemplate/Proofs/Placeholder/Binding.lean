import Mathlib.Data.List.Nodup
import Mathlib.Data.List.Perm.Subperm
import Mathlib.Data.Nat.Find
import MessageTemplate.Placeholder.Binding
import MessageTemplate.Proofs.Message.Option

/-! # How a placeholder is bound

A fresh name is the first of its candidates that is not taken
(`MessageTemplate.Placeholder.freshName_spec`), and a search for it that has no bound of its own
ends (`MessageTemplate.Placeholder.searches_freshName`). A placeholder gets the binding at its slot
among the bindings for its function: one that is there already, or a new one with a fresh name that
is put behind all others (`MessageTemplate.Placeholder.Bindings.bind_cases`). Nothing else is used
of binding from here on.
-/

namespace MessageTemplate

namespace Placeholder

/-! ### Fresh names -/

section FreshName

variable {taken : List String} {base : String}

theorem decimalValue_toString (number : Nat) :
    decimalValue (toString number).toList = number := by
  have digits : (toString number).toList = Nat.toDigits 10 number := Nat.toList_repr
  rw [digits, decimalValue_toDigits]

/-- Candidates with different indices are different names: the first has no suffix, and the others
have different ones. -/
theorem nameCandidate_inj {index other : Nat}
    (same : nameCandidate base index = nameCandidate base other) : index = other := by
  have numbered_ne (number : Nat) : numberedName base number ≠ base := by
    intro same
    have lengths := congrArg String.length same
    simp only [numberedName, String.length_append] at lengths
    have underscore : "_".length = 1 := rfl
    omega
  cases index with
  | zero =>
      cases other with
      | zero => rfl
      | succ other => exact absurd same.symm (numbered_ne (other + 2))
  | succ index =>
      cases other with
      | zero => exact absurd same (numbered_ne (index + 2))
      | succ other =>
          have digits := congrArg String.toList same
          simp only [nameCandidate, numberedName, String.toList_append,
            List.append_cancel_left_eq] at digits
          have numbers := congrArg decimalValue digits
          rw [decimalValue_toString, decimalValue_toString] at numbers
          omega

/-- The candidates differ, so one of the first is free if there is one more of them than there are
names. -/
theorem exists_nameCandidate_not_mem (taken : List String) (base : String) :
    ∃ index, index ≤ taken.length ∧ nameCandidate base index ∉ taken := by
  by_contra! all
  have distinct : ((List.range (taken.length + 1)).map (nameCandidate base)).Nodup :=
    List.nodup_range.map fun _ _ => nameCandidate_inj
  have inside : (List.range (taken.length + 1)).map (nameCandidate base) ⊆ taken := by
    intro name member
    obtain ⟨index, small, rfl⟩ := List.mem_map.mp member
    exact all index (Nat.lt_succ_iff.mp (List.mem_range.mp small))
  have count := (distinct.subperm inside).length_le
  rw [List.length_map, List.length_range] at count
  omega

/-- The search ends at a free candidate if all before it are taken and it is within reach. With it a
search is known by its answer, without following the tests. -/
theorem firstFree_eq {chosen tests index : Nat} (start : index ≤ chosen)
    (reach : chosen ≤ index + tests) (free : nameCandidate base chosen ∉ taken)
    (earlier : ∀ other, index ≤ other → other < chosen → nameCandidate base other ∈ taken) :
    firstFree taken base tests index = nameCandidate base chosen := by
  induction tests generalizing index with
  | zero =>
      obtain rfl : index = chosen := by omega
      rfl
  | succ tests ih =>
      rw [firstFree]
      by_cases here : index = chosen
      · subst here
        rw [if_neg (by simpa using free)]
      · have held := earlier index (Nat.le_refl _) (by omega)
        rw [if_pos (by simpa using held)]
        exact ih (by omega) (by omega) fun other behind => earlier other (by omega)

/-- The fresh name is the first candidate that is not taken, and it is found among the first. The
number of tests that the search is given therefore never runs out. -/
theorem freshName_spec (taken : List String) (base : String) :
    ∃ chosen, freshName taken base = nameCandidate base chosen ∧ chosen ≤ taken.length ∧
      nameCandidate base chosen ∉ taken ∧
        ∀ other, other < chosen → nameCandidate base other ∈ taken := by
  classical
  obtain ⟨index, small, notTaken⟩ := exists_nameCandidate_not_mem taken base
  have exists_free : ∃ index, nameCandidate base index ∉ taken := ⟨index, notTaken⟩
  have free := Nat.find_spec exists_free
  have reach : Nat.find exists_free ≤ taken.length :=
    Nat.le_trans (Nat.find_min' exists_free notTaken) small
  have earlier : ∀ other, other < Nat.find exists_free → nameCandidate base other ∈ taken :=
    fun other before => not_not.mp (Nat.find_min exists_free before)
  refine ⟨Nat.find exists_free, ?_, reach, free, earlier⟩
  exact firstFree_eq (Nat.zero_le _) (by omega) free fun other _ => earlier other

theorem freshName_not_mem (taken : List String) (base : String) : freshName taken base ∉ taken := by
  obtain ⟨chosen, same, _, free, _⟩ := freshName_spec taken base
  rwa [same]

end FreshName

/-! ### The search for a fresh name -/

/-- The greatest suffix of a search, `2 ^ 31 - 1`: suffixes are signed numbers of 32 bits. A search
that would need a greater one has no answer. -/
def maxSuffix : Nat := Int32.maxValue.toNatClampNeg

/-- A search without a bound of its own. It tests a name; if that is taken, it goes on with the
base name and the suffix that is next, and raises the suffix. The search ends after a number of
tests with a name that is not taken. -/
inductive Searches (taken : List String) (base : String) :
    (name : String) → (suffix tests : Nat) → (answer : String) → Prop
  | free {name : String} {suffix : Nat} (notTaken : name ∉ taken) :
      Searches taken base name suffix 1 name
  | held {name answer : String} {suffix tests : Nat} (isTaken : name ∈ taken)
      (fits : suffix < maxSuffix)
      (later : Searches taken base (numberedName base suffix) (suffix + 1) tests answer) :
      Searches taken base name suffix (tests + 1) answer

section Searches

variable {taken : List String} {base : String}

/-- A search ends in one way only. So it is enough to show one search in order to know what every
search finds. -/
theorem Searches.unique {name answer answer' : String} {suffix tests tests' : Nat}
    (search : Searches taken base name suffix tests answer)
    (search' : Searches taken base name suffix tests' answer') :
    tests = tests' ∧ answer = answer' := by
  induction search generalizing tests' with
  | free notTaken =>
      cases search' with
      | free => exact ⟨rfl, rfl⟩
      | held isTaken => exact absurd isTaken notTaken
  | held isTaken _ _ ih =>
      cases search' with
      | free notTaken => exact absurd isTaken notTaken
      | held _ _ later =>
          obtain ⟨rfl, rfl⟩ := ih later
          exact ⟨rfl, rfl⟩

/-- From a candidate on, the search passes over those that are taken and ends at the first that is
free, as long as its suffix stays in range. -/
theorem searches_of_free {index passed : Nat} (range : index + passed + 2 ≤ maxSuffix)
    (free : nameCandidate base (index + passed) ∉ taken)
    (earlier : ∀ other, index ≤ other → other < index + passed →
      nameCandidate base other ∈ taken) :
    Searches taken base (nameCandidate base index) (index + 2) (passed + 1)
      (nameCandidate base (index + passed)) := by
  induction passed generalizing index with
  | zero => exact .free free
  | succ passed ih =>
      have next : index + (passed + 1) = index + 1 + passed := by omega
      rw [next] at range free earlier ⊢
      refine .held (earlier index (Nat.le_refl _) (by omega)) (by omega) ?_
      exact ih range free fun other behind => earlier other (by omega)

/-- Among fewer than `2 ^ 31 - 2` bindings the search for a name ends, after at most one test more
than there are bindings and with no suffix out of range, at the first of the candidates that is not
the name of a binding. This is the fresh name. -/
theorem searches_freshName {bindings : List Binding} (short : bindings.length < maxSuffix - 1)
    (base : String) :
    ∃ chosen ≤ bindings.length,
      Searches (bindings.map (·.name)) base base 2 (chosen + 1)
          (freshName (bindings.map (·.name)) base) ∧
        (∀ tests answer, Searches (bindings.map (·.name)) base base 2 tests answer →
          tests = chosen + 1 ∧ answer = freshName (bindings.map (·.name)) base) ∧
        freshName (bindings.map (·.name)) base = nameCandidate base chosen ∧
        nameCandidate base chosen ∉ bindings.map (·.name) ∧
        ∀ earlier < chosen, nameCandidate base earlier ∈ bindings.map (·.name) := by
  obtain ⟨chosen, same, reach, free, earlier⟩ := freshName_spec (bindings.map (·.name)) base
  rw [List.length_map] at reach
  have search : Searches (bindings.map (·.name)) base base 2 (chosen + 1)
      (nameCandidate base chosen) := by
    have found := @searches_of_free (bindings.map (·.name)) base 0 chosen (by omega)
      (by rwa [Nat.zero_add]) fun other _ before => earlier other (by omega)
    rw [Nat.zero_add chosen] at found
    exact found
  rw [← same] at search
  exact ⟨chosen, reach, search, fun _ _ other => other.unique search, same, free, earlier⟩

/-- The third candidate is tested after two that placeholders have named already. -/
theorem searches_freshName_third :
    List.length [Binding.mk "x" ⟨"f", []⟩, ⟨"x_4", ⟨"g", []⟩⟩, ⟨"x_2", ⟨"h", []⟩⟩] <
        maxSuffix - 1 ∧
      Searches ["x", "x_4", "x_2"] "x" "x" 2 3 "x_3" ∧
      freshName ["x", "x_4", "x_2"] "x" = "x_3" := by
  have short :
      List.length [Binding.mk "x" ⟨"f", []⟩, ⟨"x_4", ⟨"g", []⟩⟩, ⟨"x_2", ⟨"h", []⟩⟩] <
        maxSuffix - 1 := by
    decide
  have third : nameCandidate "x" 2 = "x_3" := by decide +kernel
  have fresh : freshName ["x", "x_4", "x_2"] "x" = "x_3" := by decide +kernel
  obtain ⟨chosen, _, search, _, same, _⟩ := searches_freshName short "x"
  obtain rfl : chosen = 2 := nameCandidate_inj (same.symm.trans (fresh.trans third.symm))
  exact ⟨short, fresh ▸ search, fresh⟩

end Searches

/-! ### Bindings -/

/-- The place of the binding among those for its function: a placeholder that names its argument has
the first one, others have them in turn. -/
def slot (placeholder : Placeholder) (earlier : Nat) : Nat :=
  if placeholder.argument.isSome then 0 else earlier

namespace Bindings

variable {bindings : Bindings} {placeholder : Placeholder} {earlier : Nat}

/-- The binding that is made for a placeholder. -/
def made (bindings : Bindings) (placeholder : Placeholder) : Binding :=
  ⟨freshName (bindings.map (·.name)) (baseName bindings.length placeholder.argument),
    placeholder.function⟩

/-- A placeholder gets the binding at its slot, or a new one where there is none. Everything about
binding is proved by these two cases. -/
theorem bind_cases (bindings : Bindings) (placeholder : Placeholder) (earlier : Nat) :
    (∃ binding, (bindings.forFunction placeholder.function)[placeholder.slot earlier]? =
        some binding ∧ bindings.bind placeholder earlier = (binding, bindings)) ∨
      (bindings.forFunction placeholder.function).length ≤ placeholder.slot earlier ∧
        bindings.bind placeholder earlier =
          (bindings.made placeholder, bindings ++ [bindings.made placeholder]) := by
  cases found : (bindings.forFunction placeholder.function)[placeholder.slot earlier]? with
  | some binding =>
      refine .inl ⟨binding, rfl, ?_⟩
      rw [slot] at found
      simp only [bind, found]
  | none =>
      refine .inr ⟨List.getElem?_eq_none_iff.mp found, ?_⟩
      rw [slot] at found
      simp only [bind, found, made]

theorem function_of_mem_forFunction {function : Function} {binding : Binding}
    (member : binding ∈ bindings.forFunction function) : binding.function = function := by
  simpa using (List.mem_filter.mp member).2

theorem forFunction_append (front back : Bindings) (function : Function) :
    forFunction (front ++ back) function =
      front.forFunction function ++ back.forFunction function :=
  List.filter_append ..

/-- The binding of a placeholder is one for its function, whether it was there before or is made
now. -/
theorem bind_function : (bindings.bind placeholder earlier).1.function = placeholder.function := by
  rcases bind_cases bindings placeholder earlier with ⟨binding, found, same⟩ | ⟨_, same⟩
  · rw [same]
    exact function_of_mem_forFunction (List.mem_of_getElem? found)
  · rw [same]
    rfl

theorem bind_expression :
    (bindings.bind placeholder earlier).1.expression =
      ⟨some (.variable (bindings.bind placeholder earlier).1.name), some placeholder.function⟩ := by
  rw [Binding.expression, bind_function]

/-- Bindings are only ever added, behind the others. So a slot that is filled stays as it is. -/
theorem isPrefix_bind (bindings : Bindings) (placeholder : Placeholder) (earlier : Nat) :
    bindings <+: (bindings.bind placeholder earlier).2 := by
  rcases bind_cases bindings placeholder earlier with ⟨binding, _, same⟩ | ⟨_, same⟩
  · exact ⟨[], by rw [same, List.append_nil]⟩
  · rw [same]
    exact List.prefix_append ..

/-- No two bindings have the same name, so that a variable in a message tells the binding it stands
for. -/
def Distinct (bindings : Bindings) : Prop := (bindings.map (·.name)).Nodup

/-- Binding a placeholder keeps names distinct, since a new name is fresh. -/
theorem Distinct.bind (distinct : bindings.Distinct) (placeholder : Placeholder) (earlier : Nat) :
    (bindings.bind placeholder earlier).2.Distinct := by
  rcases bind_cases bindings placeholder earlier with ⟨binding, _, same⟩ | ⟨_, same⟩
  · rwa [same]
  · rw [same, Distinct, List.map_append, List.map_singleton]
    refine List.nodup_append.mpr ⟨distinct, List.nodup_singleton _, ?_⟩
    rintro name member other added rfl
    rw [List.mem_singleton] at added
    rw [added] at member
    exact freshName_not_mem _ _ member

end Bindings

end Placeholder

end MessageTemplate
