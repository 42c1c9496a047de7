import AlignedSlots.Memory.Metered

/-!
# Sessions with a metered allocator

Blocks of a metered allocator under names, and what can be done with them.  A request under a name
without a block is a request without a block.
-/

namespace AlignedSlots

/-- A metered allocator and the blocks that are out, each under a name. -/
structure MeteredSession (A : Type) where
  blocks : List (String × RawBlock)
  meter : Metered A

namespace MeteredSession

variable {A : Type} [BlockSource A]

/-- A session at its start. -/
def start (meter : Metered A) : MeteredSession A := ⟨[], meter⟩

/-- The block under a name. -/
def find? (s : MeteredSession A) (name : String) : Option RawBlock := s.blocks.lookup name

/-- All blocks but the one under a name. -/
def others (s : MeteredSession A) (name : String) : List (String × RawBlock) :=
  s.blocks.filter fun b => b.1 != name

/-- Puts the block that a request answers under a name, and says whether there was one. -/
def receive (name : String) (request : Prog Empty (Metered A) (Option RawBlock)) :
    Prog Empty (MeteredSession A) Bool := fun s =>
  match request s.meter with
  | .ok (some block) meter => .ok true ⟨(name, block) :: s.others name, meter⟩
  | .ok none meter => .ok false { s with meter }
  | .error e meter => .error e { s with meter }

/-- Asks for a block. -/
def request (name : String) (size : Nat) : Prog Empty (MeteredSession A) Bool :=
  receive name (Metered.request size)

/-- Asks for another size. -/
def resize (name : String) (size : Nat) : Prog Empty (MeteredSession A) Bool := fun s =>
  receive name (Metered.resize (s.find? name) size) s

/-- Gives a block back. -/
def free (name : String) : Prog Empty (MeteredSession A) Unit := fun s =>
  match Metered.free (s.find? name) s.meter with
  | .ok () meter => .ok () ⟨s.others name, meter⟩
  | .error e meter => .error e { s with meter }

/-- Writes bytes to the start of a block, as far as they fit. -/
def write (name : String) (bytes : List UInt8) : Prog Empty (MeteredSession A) Unit := fun s =>
  match s.find? name with
  | none => .ok () s
  | some block =>
    let cells := block.cells.writeBytes 0 (bytes.take block.size)
    .ok () { s with blocks := (name, { block with cells }) :: s.others name }

/-- Gives back the blocks under the given names. -/
def freeAll : List String → Prog Empty (MeteredSession A) Unit
  | [] => pure ()
  | name :: rest => do
    free name
    freeAll rest

end MeteredSession

end AlignedSlots
