/-!
# Failures: answered errors and faults

An operation of this library can go wrong in two ways.  It may *answer an error*: a value that its
caller is expected to handle, such as a refused allocation.  Or it may *fault*: an assertion of the
library, or a checked machine operation, did not hold, and the operation stops where it stands.

Programs run in `Prog ε σ`, a state monad in which both kinds of failure keep the state as it was at
the moment of the failure.  That is what makes "an operation that answers an error leaves everything
as it was" a statement with content: a program that changes the state first and fails later has
changed it.
-/

namespace AlignedSlots

/-- An assertion or a checked machine operation that did not hold. -/
inductive Fault where
  /-- A sum that does not fit in its integer format. -/
  | addOverflow
  /-- A difference that does not fit in its integer format. -/
  | subOverflow
  /-- A product that does not fit in its integer format. -/
  | mulOverflow
  /-- A division by zero. -/
  | divisionByZero
  /-- A constant that has to be a power of two and is not. -/
  | notPowerOfTwo
  /-- A block was requested with an alignment that is no supported power of two. -/
  | blockAlignment (align greatest : Nat)
  /-- A buffer was requested with an alignment that is no supported power of two. -/
  | bufferAlignment (align : Nat)
  /-- A slot at or past the capacity. -/
  | slotRange (index capacity : Nat)
  /-- An element at or past the length. -/
  | indexRange (index length : Nat)
  /-- A key hashed to the value that marks empty slots. -/
  | zeroHash
  /-- A slot count that cannot be doubled. -/
  | tableOverflow (capacity : Nat)
  /-- A slot count that ought to be a power of two and is not. -/
  | tableCapacity (capacity : Nat)
  /-- A probe went over every slot without meeting the end of its run. -/
  | endlessProbe
  /-- An assertion with a text of its own. -/
  | assertion (text : String)
  deriving DecidableEq, Repr, Inhabited

/-- The text of a fault. -/
def Fault.message : Fault → String
  | addOverflow => "attempt to add with overflow"
  | subOverflow => "attempt to subtract with overflow"
  | mulOverflow => "attempt to multiply with overflow"
  | divisionByZero => "attempt to divide by zero"
  | notPowerOfTwo => "Expected power of 2."
  | blockAlignment align greatest =>
      s!"align must be a power of 2 no larger than {greatest}, got {align}"
  | bufferAlignment align => s!"Alignment {align} is not a supported power of two"
  | slotRange index capacity => s!"Slot {index} is out of range of 0..{capacity}"
  | indexRange index length => s!"Index {index} is out of range of 0..{length}"
  | zeroHash => "Key hash must not be 0, it marks empty slots"
  | tableOverflow capacity => s!"Hash table capacity overflow at {capacity} slots"
  | tableCapacity capacity => s!"Hash table capacity {capacity} is not a power of 2"
  | endlessProbe => "no empty slot ends the probe"
  | assertion text => text

/-- The one error of the allocators: a request could not be satisfied, because memory ran out or
because the size of the request does not fit in a word. -/
inductive Refusal where
  | refused
  deriving DecidableEq, Repr, Inhabited

/-- The text of an allocation error. -/
def Refusal.message : Refusal → String
  | refused => "memory allocation failed"

/-- The errors that containers answer. -/
inductive ContainerError where
  /-- A read past the visible part of a container. -/
  | overflow
  /-- The last element of an empty container. -/
  | underflow
  /-- An index outside the container. -/
  | illegalArgument
  /-- Storage could not be allocated or grown. -/
  | badAlloc
  deriving DecidableEq, Repr, Inhabited

/-- The text of a container error, which is its name. -/
def ContainerError.message : ContainerError → String
  | overflow => "Overflow"
  | underflow => "Underflow"
  | illegalArgument => "IllegalArgument"
  | badAlloc => "BadAlloc"

/-- All container errors. -/
def ContainerError.all : List ContainerError := [overflow, underflow, illegalArgument, badAlloc]

/-- A container meets a refused allocation as `badAlloc`. -/
def ContainerError.ofAlloc : Refusal → ContainerError
  | .refused => .badAlloc

/-- How an operation can stop short: with an answered error or with a fault. -/
inductive Failure (ε : Type) where
  | error (e : ε)
  | fault (f : Fault)
  deriving DecidableEq, Repr

/-- Renames the answered errors and keeps faults. -/
def Failure.map {ε ε' : Type} (f : ε → ε') : Failure ε → Failure ε'
  | .error e => .error (f e)
  | .fault x => .fault x

/-- A program over a state `σ` that may fail.  The state survives a failure. -/
abbrev Prog (ε σ : Type) := EStateM (Failure ε) σ

namespace Prog

variable {ε ε' σ α : Type}

/-- A checked computation is a program that leaves the state alone. -/
def ofChecked : Except Fault α → Prog ε σ α
  | .ok a => fun s => .ok a s
  | .error f => fun s => .error (.fault f) s

instance : MonadLift (Except Fault) (Prog ε σ) := ⟨ofChecked⟩

/-- A computation that may fail in either way is a program that leaves the state alone. -/
def ofExcept : Except (Failure ε) α → Prog ε σ α
  | .ok a => fun s => .ok a s
  | .error f => fun s => .error f s

instance : MonadLift (Except (Failure ε)) (Prog ε σ) := ⟨ofExcept⟩

/-- Stops with an answered error. -/
def fail (e : ε) : Prog ε σ α := fun s => .error (.error e) s

/-- Stops with a fault. -/
def crash (f : Fault) : Prog ε σ α := fun s => .error (.fault f) s

/-- Renames the answered errors of a program. -/
def mapError (f : ε → ε') (m : Prog ε σ α) : Prog ε' σ α := fun s =>
  match m s with
  | .ok a s => .ok a s
  | .error e s => .error (e.map f) s

end Prog

/-- A checked computation, seen as one that could also answer an error. -/
def Failure.ofChecked {ε α : Type} : Except Fault α → Except (Failure ε) α
  | .ok a => .ok a
  | .error f => .error (.fault f)

instance {ε : Type} : MonadLift (Except Fault) (Except (Failure ε)) := ⟨Failure.ofChecked⟩

end AlignedSlots
