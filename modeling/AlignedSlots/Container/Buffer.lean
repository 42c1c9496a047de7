import AlignedSlots.Container.Walk
import AlignedSlots.Element.Scalars

/-!
# Buffers

A growable row of slots, each at a multiple of an alignment that the owner chooses.  Only the slots
below the limit are visible.  Slots at or above it keep what they hold, and show it again when the
limit is raised; slots that a growth creates hold the initial value.
-/

namespace AlignedSlots

/-- A growable row of aligned slots with a limit. -/
structure Buffer (α : Type) where
  slots : Slots
  limit : Nat
  deriving DecidableEq

namespace Buffer

variable {α β ε ν : Type}

/-- The number of slots. -/
def capacity (b : Buffer α) : Nat := b.slots.capacity

/-- The distance between slots. -/
def stride (b : Buffer α) : Nat := b.slots.stride

/-- The alignment of every slot. -/
def align (b : Buffer α) : Nat := b.slots.align

/-- Without visible slots. -/
def isEmpty (b : Buffer α) : Bool := b.limit == 0

/-- The address of the first slot. -/
def address (b : Buffer α) : Nat := b.slots.address

/-- A program of the slots alone. -/
def onSlots (m : Hosted Refusal Slots β) : Hosted ContainerError (Buffer α) β :=
  fun (⟨slots, limit⟩, host) =>
    match m (slots, host) with
    | .ok b (slots, host) => .ok b (⟨slots, limit⟩, host)
    | .error e (slots, host) => .error (e.map .ofAlloc) (⟨slots, limit⟩, host)

/-- Changes the slots. -/
def updateSlots (f : Slots → Slots) : Hosted ε (Buffer α) Unit :=
  fun (⟨slots, limit⟩, host) => .ok () (⟨f slots, limit⟩, host)

/-- Asks something of the buffer. -/
def ask (f : Buffer α → Except (Failure ε) β) : Hosted ε (Buffer α) β := fun (b, host) =>
  match f b with
  | .ok x => .ok x (b, host)
  | .error e => .error e (b, host)

/-- Where slot `index` starts. -/
def locate (index : Nat) : Hosted ε (Buffer α) Nat :=
  ask fun b => Failure.ofChecked (b.slots.offset index)

/-- Where a visible slot starts. -/
def locateVisible (index : Nat) : Hosted ContainerError (Buffer α) Nat :=
  ask fun b =>
    if b.limit ≤ index then .error (.error .overflow)
    else Failure.ofChecked (b.slots.offset index)

/-- Sets the limit, at most to the capacity.  No slot changes. -/
def setLimit (limit : Nat) : Hosted ε (Buffer α) Unit := fun (⟨slots, _⟩, host) =>
  .ok () (⟨slots, min limit slots.capacity⟩, host)

/-- Hides all slots.  No slot changes. -/
def clear : Hosted ε (Buffer α) Unit := fun (⟨slots, _⟩, host) => .ok () (⟨slots, 0⟩, host)

/-- Writes a byte over a whole visible slot, padding included. -/
def fillSlot (index : Nat) (value : UInt8) : Hosted ContainerError (Buffer α) Unit := do
  let offset ← locateVisible index
  updateSlots fun s => s.fill offset s.stride value

section Elements

variable [Element α]

/-- A buffer without slots, whose elements are aligned as asked, or as their type needs if that is
stricter. -/
def empty (α : Type) [Element α] (align : Nat) : Except Fault (Buffer α) := do
  if ¬ ValidAlign align then throw (.bufferAlignment align)
  let align := max align (Element.align α)
  let stride ← Slots.strideOf (Element.size α) align
  return ⟨Slots.empty stride align, 0⟩

/-- The element in a visible slot. -/
def get (b : Buffer α) (index : Nat) : Except (Failure ContainerError) α :=
  if b.limit ≤ index then .error (.error .overflow)
  else do
    let offset ← b.slots.offset index
    return b.slots.load offset

/-- The element in the last visible slot. -/
def last (b : Buffer α) : Except (Failure ContainerError) α :=
  match b.limit with
  | 0 => .error (.error .underflow)
  | n + 1 => b.get n

/-- Stores an element in a visible slot and answers the one it replaces. -/
def replace (index : Nat) (x : α) : Hosted ContainerError (Buffer α) α := do
  let offset ← locateVisible index
  let old ← ask fun b => .ok (b.slots.load offset)
  updateSlots fun s => s.store offset x
  return old

/-- Stores an element in the last visible slot and answers the one it replaces. -/
def replaceLast (x : α) : Hosted ContainerError (Buffer α) α := do
  match ← ask (fun b => .ok b.limit) with
  | 0 => Prog.fail .underflow
  | n + 1 => replace n x

section Growth

variable [Initial α]

/-- Makes room for `capacity` slots.  New slots hold the initial value. -/
def reserve (capacity : Nat) : Hosted ContainerError (Buffer α) Unit :=
  onSlots do
    let before ← Slots.reserve capacity
    let after := (← Hosted.object).capacity
    Slots.initialise α before (after - before)

/-- Raises the limit by one, and answers where the slot starts that became visible. -/
def expose : Hosted ContainerError (Buffer α) Nat := do
  let index ← ask fun b => .ok b.limit
  let some required := Word.add? index 1 | Prog.fail .badAlloc
  reserve required
  (fun (⟨slots, _⟩, host) => .ok () (⟨slots, required⟩, host) : Hosted ContainerError (Buffer α) Unit)
  let capacity ← ask fun b => .ok b.capacity
  Hosted.trace fun _ => s!"[buf_emplace_back] - index={index}, cap={capacity}"
  locate index

/-- Raises the limit by one, and answers what the slot holds that became visible. -/
def emplace : Hosted ContainerError (Buffer α) α := do
  let offset ← expose
  ask fun b => .ok (b.slots.load offset)

/-- Raises the limit by one, stores an element there, and answers its index. -/
def push (x : α) : Hosted ContainerError (Buffer α) Nat := do
  let offset ← expose
  updateSlots fun s => s.store offset x
  let limit ← ask fun b => .ok b.limit
  Word.sub limit 1

end Growth

/-- The elements of the visible slots. -/
def toList (b : Buffer α) : Except Fault (List α) :=
  (List.range b.limit).mapM fun i => do
    let offset ← b.slots.offset i
    return b.slots.load offset

/-- The element of a slot, visible or not. -/
def read (b : Buffer α) (index : Nat) : Except Fault α := do
  let offset ← b.slots.offset index
  return b.slots.load offset

/-- Visits the visible slots from the first to the last. -/
def each (b : Buffer α) (visitor : Nat → α → Prog ε ν Unit) : Prog ε ν Unit :=
  Walk.visit b.read visitor (Walk.forward b.limit)

/-- Visits the visible slots from the last to the first. -/
def eachReverse (b : Buffer α) (visitor : Nat → α → Prog ε ν Unit) : Prog ε ν Unit :=
  Walk.visit b.read visitor (Walk.backward b.limit)

/-- Visits the visible slots in place from the first to the last. -/
def eachInPlace (visitor : Nat → Prog ε (α × ν) Unit) : Prog ε (Buffer α × ν) Unit :=
  fun (⟨slots, limit⟩, n) =>
    match Walk.visitAllInPlace Slots.offset visitor (Walk.forward limit) (slots, n) with
    | .ok () (slots, n) => .ok () (⟨slots, limit⟩, n)
    | .error e (slots, n) => .error e (⟨slots, limit⟩, n)

/-- The first visible slot whose element has the property, or the limit. -/
def search (b : Buffer α) (property : Nat → α → Prog ε ν Bool) : Prog ε ν Nat :=
  Walk.find b.read property b.limit (Walk.forward b.limit)

/-- The visible elements as an outline. -/
def outline [Outlined α] (b : Buffer α) : Except Fault Outline := do
  return .list ((← b.toList).map Outlined.outline)

end Elements

/-- The first bytes of the storage, padding included. -/
def bytes (b : Buffer α) (count : Nat) : List UInt8 := b.slots.bytes count

/-- Gives the storage back. -/
def drop : Hosted ContainerError (Buffer α) Unit := onSlots Slots.release

end Buffer

end AlignedSlots
