import AlignedSlots.Memory.Heap
import AlignedSlots.Word

/-!
# Metered allocators

A metered allocator passes requests on to another one and counts the blocks that go through it.  With
a budget it refuses every request once it has handed out that many blocks; giving blocks back does not
renew the budget.  Metering can be nested, since what it needs of the allocator inside are the three
operations of `BlockSource`.
-/

namespace AlignedSlots

/-- The three operations of a raw allocator. -/
class BlockSource (A : Type) where
  /-- Asks for a block of a size. -/
  request : Nat → Prog Empty A (Option RawBlock)
  /-- Asks for a block of another size in place of one that is out, which stays out if this is
  refused. -/
  resize : RawBlock → Nat → Prog Empty A (Option RawBlock)
  /-- Gives a block back. -/
  free : RawBlock → Prog Empty A Unit

instance : BlockSource Heap where
  request size := fun heap =>
    let (block, heap) := heap.request size
    .ok block heap
  resize block size := fun heap =>
    let (block, heap) := heap.resize block size
    .ok block heap
  free block := fun heap => .ok () (heap.free block.base)

/-- An allocator with a meter, and perhaps a budget of successful requests. -/
structure Metered (A : Type) where
  inner : A
  live : Nat
  allocations : Nat
  frees : Nat
  budget : Option Nat

namespace Metered

variable {A β : Type}

/-- A meter at zero, without a budget. -/
def around (inner : A) : Metered A := ⟨inner, 0, 0, 0, none⟩

/-- A meter at zero, with a budget. -/
def withBudget (inner : A) (budget : Nat) : Metered A := { around inner with budget := some budget }

/-- The budget is used up. -/
def exhausted (m : Metered A) : Bool :=
  match m.budget with
  | some budget => decide (budget ≤ m.allocations)
  | none => false

/-- A program of the allocator inside. -/
def onInner (m : Prog Empty A β) : Prog Empty (Metered A) β :=
  fun ⟨inner, live, allocations, frees, budget⟩ =>
    match m inner with
    | .ok b inner => .ok b ⟨inner, live, allocations, frees, budget⟩
    | .error e inner => .error e ⟨inner, live, allocations, frees, budget⟩

variable [BlockSource A]

/-- Asks for a block, unless the budget is used up, and counts a success. -/
def request (size : Nat) : Prog Empty (Metered A) (Option RawBlock) := do
  if (← get).exhausted then return none
  else
    let block ← onInner (BlockSource.request size)
    if block.isSome then
      let allocations ← Word.add (← get).allocations 1
      modify fun m => { m with allocations }
      let live ← Word.add (← get).live 1
      modify fun m => { m with live }
    return block

/-- Asks for another size for a block that is out, unless the budget is used up.  Without a block this
is a request for a new one.  A resize of a block that is out is not counted. -/
def resize (block : Option RawBlock) (size : Nat) : Prog Empty (Metered A) (Option RawBlock) := do
  match block with
  | none => request size
  | some block =>
    if (← get).exhausted then return none
    else onInner (BlockSource.resize block size)

/-- Gives a block back and counts it.  Without a block nothing happens. -/
def free (block : Option RawBlock) : Prog Empty (Metered A) Unit := do
  match block with
  | none => return ()
  | some block =>
    let frees ← Word.add (← get).frees 1
    modify fun m => { m with frees }
    let live ← Word.sub (← get).live 1
    modify fun m => { m with live }
    onInner (BlockSource.free block)

instance : BlockSource (Metered A) where
  request := request
  resize block := resize (some block)
  free block := free (some block)

end Metered

end AlignedSlots
