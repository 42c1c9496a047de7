import AlignedSlots.Element.Basic
import AlignedSlots.Memory.Parcel

/-!
# Slots

The storage that all containers share: equally sized slots at equal distances in one aligned block.
Slot `i` starts `i * stride` bytes into the payload.  Nothing is allocated while there are no slots.

Containers grow through `Slots.reserve`, which follows the growth policy and keeps the bytes of all
slots, and start with `Slots.cleared` where their number is known.
-/

namespace AlignedSlots

/-- Equally sized slots in one aligned block. -/
structure Slots where
  block : Option Parcel
  capacity : Nat
  stride : Nat
  align : Nat
  deriving DecidableEq, Inhabited

namespace Slots

/-- The distance between slots for elements of a size, when every slot is aligned. -/
def strideOf (size align : Nat) : Except Fault Nat := Word.roundUp (max size 1) align

/-- No slots yet. -/
def empty (stride align : Nat) : Slots := ⟨none, 0, stride, align⟩

/-- Exactly `capacity` slots whose bytes are all zero. -/
def cleared (stride align capacity : Nat) : Prog Refusal Host Slots := do
  let some size := Word.mul? capacity stride | Prog.fail .refused
  if size = 0 then return ⟨none, capacity, stride, align⟩
  else
    let block ← Parcel.allocate true align size
    return ⟨some block, capacity, stride, align⟩

/-- The address of the first slot.  Without a block it is the alignment, an aligned address that
nothing is read from. -/
def address (s : Slots) : Nat :=
  match s.block with
  | some block => block.address
  | none => s.align

/-- Where slot `index` starts in the payload.  There has to be such a slot. -/
@[inline] def offset (s : Slots) (index : Nat) : Except Fault Nat :=
  if index < s.capacity then Word.mul index s.stride
  else .error (.slotRange index s.capacity)

/-- The cell at an offset in the payload. -/
@[inline] def peek (s : Slots) (offset : Nat) : Cell :=
  match s.block with
  | some block => block.peek offset
  | none => .byte 0

/-- The word whose bytes, from the low end, are at an offset in the payload. -/
def word (s : Slots) (offset : Nat) : UInt64 :=
  match s.block with
  | some block => block.word offset
  | none => 0

/-- Changes the block, if there is one. -/
def mapBlock (s : Slots) (f : Parcel → Parcel) : Slots :=
  match s with
  | ⟨some block, capacity, stride, align⟩ => ⟨some (f block), capacity, stride, align⟩
  | ⟨none, capacity, stride, align⟩ => ⟨none, capacity, stride, align⟩

section Elements

variable {α : Type} [Element α]

/-- The element at an offset in the payload. -/
def load (s : Slots) (offset : Nat) : α :=
  Element.decode fun i => s.peek (offset + i)

/-- Stores an element at an offset in the payload. -/
def store (s : Slots) (offset : Nat) (x : α) : Slots :=
  s.mapBlock fun block => block.overwrite offset (Element.size α) (Element.encode x)

end Elements

/-- Writes one byte over a range of the payload. -/
def fill (s : Slots) (offset count : Nat) (value : UInt8) : Slots :=
  s.mapBlock fun block => block.fill offset count value

/-- Moves a range of the payload to another place in it. -/
def move (s : Slots) (source target count : Nat) : Slots :=
  s.mapBlock fun block => block.move source target count

/-- The first bytes of the payload. -/
def bytes (s : Slots) (count : Nat) : List UInt8 :=
  match s.block with
  | some block => block.bytes 0 count
  | none => []

variable {ε : Type}

/-- Where slot `index` starts, in a program. -/
def locate (index : Nat) : Hosted ε Slots Nat := fun (s, host) =>
  match s.offset index with
  | .ok offset => .ok offset (s, host)
  | .error f => .error (.fault f) (s, host)

/-- Makes room for `requested` slots and answers how many there were.  Slots that are there keep
their bytes; a refused growth changes nothing. -/
def reserve (requested : Nat) : Hosted Refusal Slots Nat := do
  let s ← Hosted.object
  if requested ≤ s.capacity then
    Hosted.trace fun _ => s!"[reserve] - requested cap={requested}, block has space, no resize"
    return s.capacity
  else
    let capacity ← grownCapacity Word.width s.capacity requested s.stride
    Hosted.trace fun _ =>
      s!"[reserve] - cur_cap={s.capacity}, requested cap={requested}, new_cap={capacity}, "
        ++ s!"stride={s.stride}, align={s.align}"
    let oldSize ← Word.mul s.capacity s.stride
    let newSize ← Word.mul capacity s.stride
    let block ← Hosted.onHost (Parcel.resize s.block s.align oldSize newSize)
    Hosted.update fun s => { s with block, capacity }
    return s.capacity

/-- Stores the initial value in `count` slots from `start` on. -/
def initialise (α : Type) [Element α] [Initial α] (start : Nat) : (count : Nat) → Hosted ε Slots Unit
  | 0 => pure ()
  | count + 1 => do
    let offset ← locate start
    Hosted.update fun s => s.store offset (Initial.initial : α)
    initialise α (start + 1) count

/-- Gives the block back and leaves no slots. -/
def release : Hosted ε Slots Unit := do
  let s ← Hosted.object
  match s.block with
  | some block => Hosted.onHost block.release
  | none => pure ()
  Hosted.update fun s => { s with block := none, capacity := 0 }

end Slots

end AlignedSlots
