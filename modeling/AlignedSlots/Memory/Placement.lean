import AlignedSlots.Memory.Heap

/-!
# Placements

Ways to place blocks: every block in a stretch of addresses of its own, no block above a size limit,
and no more blocks than a budget allows.  `Placement.plain` stands for an ordinary heap, which
promises multiples of 16 and nothing else.
-/

namespace AlignedSlots

-- Powers of numbers are those of the core library here, whatever a module below imports.
attribute [local instance (high)] instPowNat

namespace Placement

/-- How many blocks a history hands out. -/
def grants (history : List HeapEvent) : Nat := history.countP HeapEvent.isGrant

/-- Block `n`, counted from 0, starts `residue size` bytes into stretch `n + 1`; larger blocks than
`limit` are refused. -/
def stretches (stretch : Nat) (residue : Nat → Nat) (limit : Nat) : Placement := fun history size =>
  if limit < size then none else some (residue size + stretch * (grants history + 1))

/-- Where in its stretch a block of an ordinary heap starts: the small ones at 64, and every other one
behind a header of 16 bytes. -/
def plainResidue (size : Nat) : Nat := if size ≤ 512 then 64 else 16

/-- An ordinary heap. -/
def plain : Placement := stretches (2 ^ (37 : Nat)) plainResidue (2 ^ (36 : Nat))

/-- Refuses every request once `budget` blocks were handed out. -/
def withBudget (budget : Nat) (placement : Placement) : Placement := fun history size =>
  if budget ≤ grants history then none else placement history size

end Placement

end AlignedSlots
