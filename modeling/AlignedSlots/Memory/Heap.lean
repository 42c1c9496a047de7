import AlignedSlots.Memory.Cell

/-!
# The raw heap

The heap hands out blocks of memory and takes them back.  It makes no promise about where a block
starts, and it may refuse any request: where the next block goes is decided by a `Placement`, an
arbitrary function of the history of calls and the size asked for.

A block is a value, and whoever holds it owns its memory.  What the heap itself keeps is the history,
from which everything that can be asked about it follows.
-/

namespace AlignedSlots

/-- A block of memory as the heap hands it out: the address of its first byte, and its cells. -/
structure RawBlock where
  base : Nat
  cells : Cells
  deriving DecidableEq, Inhabited

/-- The size of a block. -/
def RawBlock.size (b : RawBlock) : Nat := b.cells.size

/-- One call to the heap. -/
inductive HeapEvent where
  /-- A block of this size was handed out at this address. -/
  | granted (size base : Nat)
  /-- A request for this size was refused. -/
  | refused (size : Nat)
  /-- The block at this address was taken back. -/
  | freed (base : Nat)
  deriving DecidableEq, Repr

/-- Where the next block of a size goes, or `none` to refuse it.  The history has the latest call
first. -/
abbrev Placement := List HeapEvent → Nat → Option Nat

/-- The raw heap. -/
structure Heap where
  placement : Placement
  /-- The byte that fills a block that was just handed out. -/
  fresh : UInt8
  /-- All calls so far, the latest one first. -/
  history : List HeapEvent

namespace HeapEvent

/-- A block was handed out. -/
def isGrant : HeapEvent → Bool
  | granted _ _ => true
  | _ => false

/-- A block was taken back. -/
def isFree : HeapEvent → Bool
  | freed _ => true
  | _ => false

end HeapEvent

namespace Heap

/-- A heap before its first call. -/
def ofPlacement (placement : Placement) (fresh : UInt8) : Heap := ⟨placement, fresh, []⟩

/-- How many blocks were handed out. -/
def allocations (h : Heap) : Nat := h.history.countP HeapEvent.isGrant

/-- How many blocks were taken back. -/
def frees (h : Heap) : Nat := h.history.countP HeapEvent.isFree

/-- How many blocks are out. -/
def live (h : Heap) : Nat := h.allocations - h.frees

/-- Asks for a block. -/
def request (h : Heap) (size : Nat) : Option RawBlock × Heap :=
  match h.placement h.history size with
  | none => (none, { h with history := .refused size :: h.history })
  | some base =>
      (some ⟨base, Cells.filled size h.fresh⟩, { h with history := .granted size base :: h.history })

/-- Gives back the block at an address. -/
def free (h : Heap) (base : Nat) : Heap :=
  { h with history := .freed base :: h.history }

/-- Asks for a block of another size in place of one that is out.  The new block starts with what the
old one held, as far as both reach, and the old one is taken back; where the request is refused, it
stays. -/
def resize (h : Heap) (block : RawBlock) (size : Nat) : Option RawBlock × Heap :=
  match h.request size with
  | (none, h) => (none, h)
  | (some new, h) =>
      (some { new with cells := new.cells.copy 0 block.cells 0 (min block.size size) },
        h.free block.base)

end Heap

end AlignedSlots
