import AlignedSlots.Container.Walk
import AlignedSlots.Element.Scalars

/-!
# Sequences

A growable sequence of elements that follow one another without gaps.  Positions past the end are
refused by most operations; only `insert` takes them to mean the end.  Every growth follows the shared
policy, so that the capacity never shrinks.
-/

namespace AlignedSlots

/-- A growable sequence of elements. -/
structure Sequence (α : Type) where
  slots : Slots
  length : Nat
  deriving DecidableEq

namespace Sequence

variable {α β ε ν : Type}

/-- The capacity of a sequence. -/
def capacity (v : Sequence α) : Nat := v.slots.capacity

/-- Without elements. -/
def isEmpty (v : Sequence α) : Bool := v.length == 0

/-- The address of the first element. -/
def address (v : Sequence α) : Nat := v.slots.address

/-- A program of the slots alone. -/
def onSlots (m : Hosted Refusal Slots β) : Hosted ContainerError (Sequence α) β :=
  fun (⟨slots, length⟩, host) =>
    match m (slots, host) with
    | .ok b (slots, host) => .ok b (⟨slots, length⟩, host)
    | .error e (slots, host) => .error (e.map .ofAlloc) (⟨slots, length⟩, host)

/-- Changes the slots. -/
def updateSlots (f : Slots → Slots) : Hosted ε (Sequence α) Unit :=
  fun (⟨slots, length⟩, host) => .ok () (⟨f slots, length⟩, host)

/-- Sets the length. -/
def setLength (length : Nat) : Hosted ε (Sequence α) Unit :=
  fun (⟨slots, _⟩, host) => .ok () (⟨slots, length⟩, host)

/-- Asks something of the sequence. -/
def ask (f : Sequence α → Except (Failure ε) β) : Hosted ε (Sequence α) β := fun (v, host) =>
  match f v with
  | .ok b => .ok b (v, host)
  | .error e => .error e (v, host)

/-- Where slot `index` starts. -/
def locate (index : Nat) : Hosted ε (Sequence α) Nat :=
  ask fun v => Failure.ofChecked (v.slots.offset index)

/-- The current length. -/
def currentLength : Hosted ε (Sequence α) Nat := ask fun v => .ok v.length

section Elements

variable [Element α]

/-- The alignment of the storage: that of the elements, and at least that of an address. -/
def blockAlign (α : Type) [Element α] : Nat :=
  if addressAlign < Element.align α then Element.align α else addressAlign

/-- A sequence without elements and without storage. -/
def empty (α : Type) [Element α] : Except Fault (Sequence α) := do
  let stride ← Slots.strideOf (Element.size α) (Element.align α)
  return ⟨Slots.empty stride (blockAlign α), 0⟩

/-- Element `index` of the elements as they lie in memory, one after the other. -/
def peek (v : Sequence α) (index : Nat) : α := v.slots.load (index * Element.size α)

/-- All elements. -/
def toList (v : Sequence α) : List α := (List.range v.length).map v.peek

/-- Makes room for `capacity` elements. -/
def reserve (capacity : Nat) : Hosted ContainerError (Sequence α) Unit := do
  let _ ← onSlots (Slots.reserve capacity)

/-- Puts an element at a position, or at the end if the position lies past it. -/
def insert (index : Nat) (x : α) : Hosted ContainerError (Sequence α) Unit := do
  let length ← currentLength
  let some required := Word.add? length 1 | Prog.fail .badAlloc
  reserve required
  let index := min index length
  Hosted.trace fun _ => s!"[vec_insert] - index={index}, len={length}"
  -- The elements from the position on move up by one slot.
  if index < length then
    let source ← locate index
    let next ← Word.add index 1
    let target ← locate next
    let count ← Word.sub length index
    updateSlots fun s => s.move source target (count * Element.size α)
  let offset ← locate index
  updateSlots fun s => s.store offset x
  setLength required

/-- Puts an element at the end. -/
def push (x : α) : Hosted ContainerError (Sequence α) Unit := do
  insert (← currentLength) x

/-- The element at a position. -/
def get (v : Sequence α) (index : Nat) : Except (Failure ContainerError) α :=
  if v.length ≤ index then .error (.error .illegalArgument)
  else do
    let offset ← v.slots.offset index
    return v.slots.load offset

/-- Replaces the element at a position. -/
def set (index : Nat) (x : α) : Hosted ContainerError (Sequence α) Unit := do
  if (← currentLength) ≤ index then Prog.fail .illegalArgument
  let offset ← locate index
  updateSlots fun s => s.store offset x

/-- The last element. -/
def last (v : Sequence α) : Except (Failure ContainerError) α :=
  match v.length with
  | 0 => .error (.error .underflow)
  | n + 1 => v.get n

/-- Takes the last element away. -/
def pop : Hosted ContainerError (Sequence α) α := do
  let x ← ask last
  let length ← currentLength
  setLength (← Word.sub length 1)
  return x

/-- Takes the element at a position away. -/
def erase (index : Nat) : Hosted ContainerError (Sequence α) Unit := do
  let length ← currentLength
  if length ≤ index then Prog.fail .illegalArgument
  Hosted.trace fun _ => s!"[vec_erase] - index={index}, len={length}"
  let rest ← Word.sub length index
  let tail ← Word.sub rest 1
  -- The elements behind the position move down by one slot.
  if 0 < tail then
    let next ← Word.add index 1
    let source ← locate next
    let target ← locate index
    updateSlots fun s => s.move source target (tail * Element.size α)
  setLength (← Word.sub length 1)

/-- Takes all elements away and keeps the storage. -/
def clear : Hosted ε (Sequence α) Unit := setLength 0

/-- Puts elements at the end, one after the other. -/
def pushAll : List α → Hosted ContainerError (Sequence α) Unit
  | [] => pure ()
  | x :: xs => do
    push x
    pushAll xs

/-- Puts elements at the end, after making room for all of them. -/
def extend (xs : List α) : Hosted ContainerError (Sequence α) Unit := do
  let length ← currentLength
  let some required := Word.add? length xs.length | Prog.fail .badAlloc
  reserve required
  pushAll xs

/-- The element at a position that has to exist. -/
def index (v : Sequence α) (index : Nat) : Except (Failure ContainerError) α :=
  if v.length ≤ index then .error (.fault (.indexRange index v.length))
  else .ok (v.peek index)

/-- Replaces the element at a position that has to exist. -/
def setIndex (index : Nat) (x : α) : Hosted ContainerError (Sequence α) Unit := do
  let length ← currentLength
  if length ≤ index then Prog.crash (.indexRange index length)
  updateSlots fun s => s.store (index * Element.size α) x

/-- Rearranges the elements where they lie. -/
def rearrange (f : List α → List α) : Hosted ε (Sequence α) Unit := do
  let v ← Hosted.object
  updateSlots fun s =>
    ((f v.toList).take v.length).zipIdx.foldl (fun s p => s.store (p.2 * Element.size α) p.1) s

/-- Visits all elements from the first to the last. -/
def each (v : Sequence α) (visitor : Nat → α → Prog ε ν Unit) : Prog ε ν Unit :=
  Walk.visit (fun i => .ok (v.peek i)) visitor (Walk.forward v.length)

/-- Visits all elements from the last to the first. -/
def eachReverse (v : Sequence α) (visitor : Nat → α → Prog ε ν Unit) : Prog ε ν Unit :=
  Walk.visit (fun i => .ok (v.peek i)) visitor (Walk.backward v.length)

/-- Visits all elements in place from the first to the last. -/
def eachInPlace (visitor : Nat → Prog ε (α × ν) Unit) : Prog ε (Sequence α × ν) Unit :=
  fun (⟨slots, length⟩, n) =>
    match Walk.visitAllInPlace (fun _ i => .ok (i * Element.size α)) visitor
        (Walk.forward length) (slots, n) with
    | .ok () (slots, n) => .ok () (⟨slots, length⟩, n)
    | .error e (slots, n) => .error e (⟨slots, length⟩, n)

/-- The first position whose element has the property, or the length. -/
def search (v : Sequence α) (property : Nat → α → Prog ε ν Bool) : Prog ε ν Nat :=
  Walk.find (fun i => .ok (v.peek i)) property v.length (Walk.forward v.length)

/-- The elements as an outline. -/
def outline [Outlined α] (v : Sequence α) : Outline := .list (v.toList.map Outlined.outline)

end Elements

/-- Gives the storage back. -/
def drop : Hosted ContainerError (Sequence α) Unit := onSlots Slots.release

end Sequence

end AlignedSlots
