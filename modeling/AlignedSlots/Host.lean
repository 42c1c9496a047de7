import AlignedSlots.Log.Basic
import AlignedSlots.Memory.Heap

/-!
# The host

What an allocator or a container is given from outside: the raw heap that it draws its memory from,
and the log that it writes trace lines to.  A program of a container runs over the container and its
host together.
-/

namespace AlignedSlots

/-- The raw heap and the log. -/
structure Host where
  heap : Heap
  log : Log

namespace Host

variable {ε : Type}

/-- Writes a line at the level `trace`, if the log admits it. -/
def trace (text : Unit → String) : Prog ε Host Unit := fun host =>
  .ok () { host with log := host.log.record .trace text }

/-- Asks the heap for a block. -/
def request (size : Nat) : Prog ε Host (Option RawBlock) := fun host =>
  let (block, heap) := host.heap.request size
  .ok block { host with heap }

/-- Gives a block back to the heap. -/
def free (base : Nat) : Prog ε Host Unit := fun host =>
  .ok () { host with heap := host.heap.free base }

/-- How far the host had come at some moment: calls to the heap, and lines in the log. -/
structure Mark where
  events : Nat
  lines : Nat

/-- The moment before anything happened. -/
def Mark.start : Mark := ⟨0, 0⟩

/-- The present moment. -/
def mark (host : Host) : Mark := ⟨host.heap.history.length, host.log.lines.size⟩

/-- The calls to the heap since a moment, in order. -/
def eventsSince (host : Host) (mark : Mark) : List HeapEvent :=
  (host.heap.history.take (host.heap.history.length - mark.events)).reverse

/-- The lines written since a moment, in order. -/
def linesSince (host : Host) (mark : Mark) : List String :=
  (host.log.lines.extract mark.lines host.log.lines.size).toList

end Host

/-- A program of an object `C` that lives on a host. -/
abbrev Hosted (ε C : Type) := Prog ε (C × Host)

namespace Hosted

variable {ε C α : Type}

/-- A program of the host alone. -/
def onHost (m : Prog ε Host α) : Hosted ε C α := fun (c, host) =>
  match m host with
  | .ok a host => .ok a (c, host)
  | .error e host => .error e (c, host)

/-- Writes a line at the level `trace`, if the log admits it. -/
def trace (text : Unit → String) : Hosted ε C Unit := onHost (Host.trace text)

/-- The object as it is now. -/
def object : Hosted ε C C := fun (c, host) => .ok c (c, host)

/-- Changes the object. -/
def update (f : C → C) : Hosted ε C Unit := fun (c, host) => .ok () (f c, host)

end Hosted

end AlignedSlots
