import AlignedSlots.Memory.Parcel
import AlignedSlots.Text.Outline

/-!
# Arenas

An arena is one block from whose front pieces are cut off, one after the other.  Every piece takes a
multiple of the size of an address.  Pieces cannot be given back one by one: `reset` gives all of them
back at once.
-/

namespace AlignedSlots

/-- One block, and how much of it is in use. -/
structure Arena where
  block : Parcel
  size : Nat
  offset : Nat
  deriving DecidableEq

namespace Arena

variable {ε : Type}

/-- An arena of a size, none of it in use. -/
def create (size : Nat) : Prog Refusal Host Arena := do
  let block ← Parcel.allocate false addressAlign size
  return ⟨block, size, 0⟩

/-- Bytes that are not in use. -/
def remaining (a : Arena) : Except Fault Nat := Word.sub a.size a.offset

/-- Changes the offset. -/
def setOffset (offset : Nat) : Hosted ε Arena Unit := fun (⟨block, size, _⟩, host) =>
  .ok () (⟨block, size, offset⟩, host)

/-- The offset as it is now. -/
def currentOffset : Hosted ε Arena Nat := fun (a, host) => .ok a.offset (a, host)

/-- The size of the arena. -/
def currentSize : Hosted ε Arena Nat := fun (a, host) => .ok a.size (a, host)

/-- Cuts off a piece and answers where it starts in the arena.  There is no piece of size 0, and none
that goes past the end; a refused request changes nothing. -/
def take (size : Nat) : Hosted ε Arena (Option Nat) := do
  if size = 0 then return none
  else
    let some rounded ← Word.roundUp? size addressAlign | return none
    let offset ← currentOffset
    let some stop := Word.add? offset rounded | return none
    let capacity ← currentSize
    if capacity < stop then
      Hosted.trace fun _ =>
        s!"[stack_alloc] - request of {rounded} bytes exceeds arena ({offset} of {capacity} used)"
      return none
    else
      setOffset stop
      return some offset

/-- Changes the memory of the arena. -/
def updateBlock (f : Parcel → Parcel) : Hosted ε Arena Unit :=
  fun (⟨block, size, offset⟩, host) => .ok () (⟨f block, size, offset⟩, host)

/-- Cuts off a piece whose bytes are all zero. -/
def takeZeroed (size : Nat) : Hosted ε Arena (Option Nat) := do
  let start ← currentOffset
  match ← take size with
  | none => return none
  | some piece =>
    let stop ← currentOffset
    let count ← Word.sub stop start
    updateBlock fun block => block.fill piece count 0
    return some piece

/-- Gives back all pieces. -/
def reset : Hosted ε Arena Unit := setOffset 0

/-- Writes bytes into the arena. -/
def writeBytes (offset : Nat) (bytes : List UInt8) : Hosted ε Arena Unit :=
  updateBlock fun block => block.writeBytes offset bytes

/-- The bytes of a range of the arena. -/
def bytes (a : Arena) (offset count : Nat) : List UInt8 := a.block.bytes offset count

/-- The arena as an outline. -/
def outline (a : Arena) : Outline :=
  .record "StackAllocator"
    [("buf", .word (Parcel.hexadecimal a.block.address)),
     ("size", .word (toString a.size)),
     ("offset", .word (toString a.offset))]

/-- Gives the block back. -/
def drop : Hosted ε Arena Unit := do
  let a ← Hosted.object
  Hosted.onHost a.block.release

end Arena

end AlignedSlots
