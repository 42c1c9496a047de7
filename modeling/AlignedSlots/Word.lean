import AlignedSlots.Failure

/-!
# Machine words

Sizes, counts and addresses are natural numbers below `2 ^ 64`.  The arithmetic on them is written
down with its bounds: `Word.add`, `Word.sub` and `Word.mul` fault where the exact result is no word,
and `Word.add?` and `Word.mul?` answer `none` there.  That nothing overflows then says that no such
fault arises.
-/

namespace AlignedSlots

-- Powers of numbers are those of the core library here, whatever a module below imports.
attribute [local instance (high)] instPowNat

namespace Word

/-- Bits of a word. -/
def width : Nat := 64

/-- The greatest word. -/
def greatest : Nat := 2 ^ width - 1

/-- The sum, or a fault where it is no word. -/
@[inline] def add (a b : Nat) : Except Fault Nat :=
  if a + b ≤ greatest then .ok (a + b) else .error .addOverflow

/-- The difference, or a fault where it is negative. -/
@[inline] def sub (a b : Nat) : Except Fault Nat :=
  if b ≤ a then .ok (a - b) else .error .subOverflow

/-- The product, or a fault where it is no word. -/
@[inline] def mul (a b : Nat) : Except Fault Nat :=
  if a * b ≤ greatest then .ok (a * b) else .error .mulOverflow

/-- The sum, if it is a word. -/
def add? (a b : Nat) : Option Nat :=
  if a + b ≤ greatest then some (a + b) else none

/-- The product, if it is a word. -/
def mul? (a b : Nat) : Option Nat :=
  if a * b ≤ greatest then some (a * b) else none

theorem add_eq_ok {a b : Nat} (h : a + b ≤ greatest) : add a b = .ok (a + b) := if_pos h

theorem sub_eq_ok {a b : Nat} (h : b ≤ a) : sub a b = .ok (a - b) := if_pos h

theorem mul_eq_ok {a b : Nat} (h : a * b ≤ greatest) : mul a b = .ok (a * b) := if_pos h

theorem add?_eq_some_iff {a b c : Nat} : add? a b = some c ↔ a + b ≤ greatest ∧ a + b = c := by
  unfold add?
  split <;> simp <;> omega

theorem add?_eq_none_iff {a b : Nat} : add? a b = none ↔ greatest < a + b := by
  unfold add?
  split <;> simp_all

theorem mul?_eq_some_iff {a b c : Nat} : mul? a b = some c ↔ a * b ≤ greatest ∧ a * b = c := by
  unfold mul?
  split <;> simp <;> omega

theorem mul?_eq_none_iff {a b : Nat} : mul? a b = none ↔ greatest < a * b := by
  unfold mul?
  split <;> simp_all

end Word

end AlignedSlots
