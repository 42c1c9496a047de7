import AlignedSlots.Container.Walk
import AlignedSlots.Element.Scalars

/-!
# Static arrays

A fixed number of elements, each at a multiple of a fixed alignment, in one block that is allocated
when the array is made.  Every element starts as the initial value, and the bytes between elements
start as zero.
-/

namespace AlignedSlots

/-- `n` aligned elements. -/
structure StaticArray (α : Type) (n : Nat) where
  slots : Slots
  deriving DecidableEq

namespace StaticArray

variable {α β ε ν : Type} {n : Nat}

/-- Without elements. -/
def isEmpty (_ : StaticArray α n) : Bool := n == 0

/-- The distance between elements. -/
def stride (a : StaticArray α n) : Nat := a.slots.stride

/-- The alignment of every element. -/
def align (a : StaticArray α n) : Nat := a.slots.align

/-- The address of the first element. -/
def address (a : StaticArray α n) : Nat := a.slots.address

section Elements

variable [Element α]

/-- An array of initial values.  The alignment is raised to that of the elements. -/
def create (α : Type) [Element α] [Initial α] (n align : Nat) :
    Prog ContainerError Host (StaticArray α n) := do
  assertPowerOfTwo align
  let align := max align (Element.align α)
  let stride ← Slots.strideOf (Element.size α) align
  let slots ← Prog.mapError .ofAlloc (Slots.cleared stride align n)
  fun host =>
    match Slots.initialise α 0 n (slots, host) with
    | .ok () (slots, host) => .ok ⟨slots⟩ host
    | .error e (_, host) => .error e host

/-- The element at an index, which has to be one of the array. -/
def read (a : StaticArray α n) (index : Nat) : Except Fault α := do
  let offset ← a.slots.offset index
  return a.slots.load offset

/-- The element at an index. -/
def get (a : StaticArray α n) (index : Nat) : Except (Failure ContainerError) α :=
  if n ≤ index then .error (.error .illegalArgument)
  else Failure.ofChecked (a.read index)

/-- The last index. -/
def lastIndex (n : Nat) : Except (Failure ContainerError) Nat :=
  match n with
  | 0 => .error (.error .illegalArgument)
  | k + 1 => .ok k

/-- The last element. -/
def last (a : StaticArray α n) : Except (Failure ContainerError) α := do
  a.get (← lastIndex n)

/-- Stores an element at an index and answers the one it replaces. -/
def replace (index : Nat) (x : α) : Hosted ContainerError (StaticArray α n) α :=
  fun (⟨slots⟩, host) =>
    if n ≤ index then .error (.error .illegalArgument) (⟨slots⟩, host)
    else
      match slots.offset index with
      | .error f => .error (.fault f) (⟨slots⟩, host)
      | .ok offset =>
        let old := slots.load offset
        .ok old (⟨slots.store offset x⟩, host)

/-- Stores an element at the last index and answers the one it replaces. -/
def replaceLast (x : α) : Hosted ContainerError (StaticArray α n) α := do
  replace (← lastIndex n) x

/-- All elements. -/
def toList (a : StaticArray α n) : Except Fault (List α) := (List.range n).mapM a.read

/-- Visits all elements from the first to the last. -/
def each (a : StaticArray α n) (visitor : Nat → α → Prog ε ν Unit) : Prog ε ν Unit :=
  Walk.visit a.read visitor (Walk.forward n)

/-- Visits all elements from the last to the first. -/
def eachReverse (a : StaticArray α n) (visitor : Nat → α → Prog ε ν Unit) : Prog ε ν Unit :=
  Walk.visit a.read visitor (Walk.backward n)

/-- Visits all elements in place, in the order of the indices. -/
def visitInOrder (order : List Nat) (visitor : Nat → Prog ε (α × ν) Unit) :
    Prog ε (StaticArray α n × ν) Unit := fun (⟨slots⟩, s) =>
  match Walk.visitAllInPlace Slots.offset visitor order (slots, s) with
  | .ok () (slots, s) => .ok () (⟨slots⟩, s)
  | .error e (slots, s) => .error e (⟨slots⟩, s)

/-- Visits all elements in place from the first to the last. -/
def eachInPlace (visitor : Nat → Prog ε (α × ν) Unit) : Prog ε (StaticArray α n × ν) Unit :=
  visitInOrder (Walk.forward n) visitor

/-- Visits all elements in place from the last to the first. -/
def eachReverseInPlace (visitor : Nat → Prog ε (α × ν) Unit) : Prog ε (StaticArray α n × ν) Unit :=
  visitInOrder (Walk.backward n) visitor

/-- The elements as an outline. -/
def outline [Outlined α] (a : StaticArray α n) : Except Fault Outline := do
  return .list ((← a.toList).map Outlined.outline)

end Elements

/-- The first bytes of the storage, padding included. -/
def bytes (a : StaticArray α n) (count : Nat) : List UInt8 := a.slots.bytes count

/-- Gives the storage back. -/
def drop : Hosted ContainerError (StaticArray α n) Unit := fun (⟨slots⟩, host) =>
  match Slots.release (slots, host) with
  | .ok () (slots, host) => .ok () (⟨slots⟩, host)
  | .error e (slots, host) => .error e (⟨slots⟩, host)

end StaticArray

end AlignedSlots
