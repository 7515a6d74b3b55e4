/-! # JSON numbers

A number keeps its notation: its digits and the power of ten that scales them. Its value is wanted
as a double, and is the product of two doubles. One is nearest to the leading digits, as many as
stay below `2 ^ 64`; the other is nearest to the power of ten that makes up for the point, the
exponent and the digits left out. Because both factors are rounded before they are multiplied, a
number may be out of range although it is not greater than the greatest double.
-/

namespace MessageTemplate

/-- A number as written: its digits without sign and point, the power of ten that scales them, and
whether it is written without point and exponent. -/
structure Json.Number where
  negative : Bool
  digits : Nat
  exponent : Int := 0
  integral : Bool := true
  deriving DecidableEq, Repr

namespace Json.Number

/-- The integer that an integral notation stands for. Negative zero is not an integer, since its
sign would be lost. -/
def int? (number : Number) : Option Int :=
  if number.integral ∧ ¬(number.negative ∧ number.digits = 0) then
    some (if number.negative then -number.digits else number.digits)
  else none

/-- The notation of an integer. -/
def ofInt (value : Int) : Number := ⟨decide (value < 0), value.natAbs, 0, true⟩

/-- A quotient, rounded to the nearest integer; a half goes to the even neighbour. -/
def roundedQuotient (value unit : Nat) : Nat :=
  let excess := 2 * (value % unit)
  if unit < excess ∨ (excess = unit ∧ value / unit % 2 = 1) then value / unit + 1
  else value / unit

/-- The number of 53 significant bits that is nearest to a number. -/
def nearestDouble (value : Nat) : Nat :=
  let unit := Nat.pow 2 (value.log2 - 52)
  roundedQuotient value unit * unit

/-- The longest run of leading digits whose number is below `2 ^ 64`, and how many digits follow
it. -/
def leadingDigits (digits : Nat) : Nat × Nat :=
  if digits < UInt64.size then (digits, 0)
  else
    let (leading, dropped) := leadingDigits (digits / 10)
    (leading, dropped + 1)
termination_by digits
decreasing_by
  have large : UInt64.size ≤ digits := Nat.not_lt.mp ‹_›
  exact Nat.div_lt_self (Nat.lt_of_lt_of_le (by decide) large) (by decide)

/-- The least magnitude that rounds to infinity as a double: halfway between the greatest finite
double and the power of two above it. -/
def overflowBound : Nat := Nat.pow 2 1024 - Nat.pow 2 970

/-- The exponent of the greatest power of ten that is in the range of doubles. -/
def maxScale : Int := 308

/-- Whether the number is in the range of doubles. Numbers that are too small count as zero. The
number is scaled in the order in which a reader of 64-bit words does it: leading digits first, then
the power of ten. -/
def isFinite (number : Number) : Bool :=
  let (leading, dropped) := leadingDigits number.digits
  let scale := number.exponent + dropped
  leading = 0 || scale < 0 ||
    (scale ≤ maxScale &&
      nearestDouble leading * nearestDouble (Nat.pow 10 scale.toNat) < overflowBound)

/-- The rounded quotient is within half a unit of the exact one. -/
theorem roundedQuotient_near (value : Nat) {unit : Nat} (positive : 0 < unit) :
    2 * (roundedQuotient value unit * unit) ≤ 2 * value + unit ∧
      2 * value ≤ 2 * (roundedQuotient value unit * unit) + unit := by
  have whole := Nat.div_add_mod value unit
  have next : (value / unit + 1) * unit = unit * (value / unit) + unit := by
    rw [Nat.add_mul, Nat.mul_comm, Nat.one_mul]
  have same : value / unit * unit = unit * (value / unit) := Nat.mul_comm ..
  simp only [roundedQuotient]
  split
  · rw [next]
    have := Nat.mod_lt value positive
    omega
  · rw [same]
    omega

/-- A number below `2 ^ 64` keeps all its digits. -/
@[simp] theorem leadingDigits_of_lt {digits : Nat} (small : digits < UInt64.size) :
    leadingDigits digits = (digits, 0) := by
  unfold leadingDigits
  rw [if_pos small]

end Json.Number

end MessageTemplate
