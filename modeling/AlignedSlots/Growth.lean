import AlignedSlots.Word

/-!
# Alignment and growth arithmetic

Two computations that every container shares, over integers of any width.

* Rounding up to a multiple of a power of two: `IntFormat.roundUp` faults where an intermediate result
  does not fit, `IntFormat.roundUp?` answers `none` where the sum does not fit.
* The growth policy: `grownCapacity` turns a requested count into a capacity half as large again, and
  refuses a count whose size in bytes does not fit.
-/

namespace AlignedSlots

-- Powers of numbers are those of the core library here, whatever a module below imports.
attribute [local instance (high)] instPowNat

/-- A fixed-width integer format: how many bits it has and whether the highest one is a sign. -/
structure IntFormat where
  width : Nat
  signed : Bool
  deriving DecidableEq, Repr

namespace IntFormat

/-- The unsigned format of a width. -/
abbrev unsigned (width : Nat) : IntFormat := ⟨width, false⟩

/-- The format of sizes and addresses. -/
abbrev word : IntFormat := unsigned Word.width

/-- The least number of a format. -/
def least (f : IntFormat) : Int :=
  if f.signed then -2 ^ (f.width - 1) else 0

/-- The greatest number of a format. -/
def greatest (f : IntFormat) : Int :=
  if f.signed then 2 ^ (f.width - 1) - 1 else 2 ^ f.width - 1

/-- A number that the format can hold. -/
def Holds (f : IntFormat) (n : Int) : Prop := f.least ≤ n ∧ n ≤ f.greatest

instance (f : IntFormat) (n : Int) : Decidable (f.Holds n) :=
  inferInstanceAs (Decidable (_ ∧ _))

/-- The bits that stand for a number. -/
def bits (f : IntFormat) (n : Int) : BitVec f.width := BitVec.ofInt f.width n

/-- The number that bits stand for. -/
def value (f : IntFormat) (b : BitVec f.width) : Int :=
  if f.signed then b.toInt else b.toNat

/-- The sum, or a fault where the format does not hold it. -/
def add (f : IntFormat) (a b : Int) : Except Fault Int :=
  if f.Holds (a + b) then .ok (a + b) else .error .addOverflow

/-- The difference, or a fault where the format does not hold it. -/
def sub (f : IntFormat) (a b : Int) : Except Fault Int :=
  if f.Holds (a - b) then .ok (a - b) else .error .subOverflow

/-- The number whose bits are those of `n` outside `mask`. -/
def clear (f : IntFormat) (n mask : Int) : Int :=
  f.value (f.bits n &&& ~~~ f.bits mask)

/-- Rounds `n` up to a multiple of `align`, a power of two: `align - 1` is added and its bits are
cleared. -/
def roundUp (f : IntFormat) (n align : Int) : Except Fault Int := do
  let mask ← f.sub align 1
  let sum ← f.add n mask
  return f.clear sum mask

/-- Rounds up like `roundUp`, and answers `none` where the sum does not fit. -/
def roundUp? (f : IntFormat) (n align : Int) : Except Fault (Option Int) := do
  let mask ← f.sub align 1
  return if f.Holds (n + mask) then some (f.clear (n + mask) mask) else none

/-- A number with exactly one bit set.  In a signed format the least number is one. -/
def IsPowerOfTwo (f : IntFormat) (n : Int) : Prop := (f.bits n).toNat.isPowerOfTwo

instance (f : IntFormat) (n : Int) : Decidable (f.IsPowerOfTwo n) :=
  inferInstanceAs (Decidable (Nat.isPowerOfTwo _))

end IntFormat

namespace Word

/-- Rounds a word up to a multiple of a power of two. -/
def roundUp (n align : Nat) : Except Fault Nat :=
  Int.toNat <$> IntFormat.word.roundUp n align

/-- Rounds a word up to a multiple of a power of two, if the sum is a word. -/
def roundUp? (n align : Nat) : Except Fault (Option Nat) :=
  Option.map Int.toNat <$> IntFormat.word.roundUp? n align

end Word

/-- Passes where the number is a power of two, and faults elsewhere. -/
def assertPowerOfTwo (n : Nat) : Except Fault Unit :=
  if n.isPowerOfTwo then .ok () else .error .notPowerOfTwo

/-- A container grows to `growthNumerator / growthDenominator` times the requested count, rounded
up. -/
def growthNumerator : Nat := 3

/-- The denominator of the growth factor. -/
def growthDenominator : Nat := 2

namespace Unsigned

/-- The greatest unsigned number of a width. -/
def greatest (width : Nat) : Nat := 2 ^ width - 1

/-- The sum, or a fault where it does not fit in the width. -/
def add (width a b : Nat) : Except Fault Nat :=
  if a + b ≤ greatest width then .ok (a + b) else .error .addOverflow

/-- The sum, if it fits in the width. -/
def add? (width a b : Nat) : Option Nat :=
  if a + b ≤ greatest width then some (a + b) else none

/-- The quotient, or a fault for the divisor zero. -/
def div (a b : Nat) : Except Fault Nat :=
  if b = 0 then .error .divisionByZero else .ok (a / b)

end Unsigned

/-- The capacity that a container of `current` slots takes to hold `requested` elements of
`elementSize` bytes, in unsigned integers of `width` bits.

A capacity that suffices is kept.  Otherwise it becomes the requested count and its half, rounded
up; the request is refused where that count, or its size in bytes, does not fit. -/
def grownCapacity (width current requested elementSize : Nat) : Except (Failure Refusal) Nat :=
  if requested ≤ current then .ok current
  else do
    let half ← Unsigned.add width (requested / 2) (requested % 2)
    let some capacity := Unsigned.add? width requested half | throw (.error .refused)
    let most ← Unsigned.div (Unsigned.greatest width) (max elementSize 1)
    if most < capacity then throw (.error .refused)
    return capacity

end AlignedSlots
