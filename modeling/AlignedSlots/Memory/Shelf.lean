import AlignedSlots.Memory.Parcel

/-!
# Shelves

A shelf holds aligned blocks under names, in the order of the names.  `ShelfStep` lists what can be
done with them, and `ShelfStep.run` does it: a whole life of aligned blocks is a list of steps.
-/

namespace AlignedSlots

/-- A block under a name, and the size that was asked for when it was made. -/
structure ShelfItem where
  name : String
  block : Parcel
  size : Nat

/-- Blocks under different names, in the order of the names. -/
structure Shelf where
  items : List ShelfItem

namespace Shelf

/-- No blocks. -/
def empty : Shelf := ⟨[]⟩

/-- The block under a name. -/
def find? (s : Shelf) (name : String) : Option ShelfItem := s.items.find? fun i => i.name == name

/-- All blocks but the one under a name. -/
def without (s : Shelf) (name : String) : Shelf := ⟨s.items.filter fun i => i.name != name⟩

/-- Puts a block under a name, in place of the one there. -/
def put (s : Shelf) (item : ShelfItem) : Shelf :=
  let rest := (s.without item.name).items
  ⟨rest.takeWhile (fun i => decide (i.name < item.name)) ++ item
    :: rest.dropWhile (fun i => decide (i.name < item.name))⟩

/-- The names, in order. -/
def names (s : Shelf) : List String := s.items.map ShelfItem.name

end Shelf

/-- One thing to do with the blocks of a shelf. -/
inductive ShelfStep where
  /-- Allocates a block. -/
  | allocate (zeroed : Bool) (align size : Nat)
  /-- Resizes nothing, which allocates a block. -/
  | resizeNone (align oldSize newSize : Nat)
  /-- Resizes a block. -/
  | resize (align oldSize newSize : Nat)
  /-- Gives a block back. -/
  | release
  /-- Writes bytes into the payload of a block. -/
  | write (offset : Nat) (bytes : List UInt8)
  deriving DecidableEq, Repr

namespace ShelfStep

/-- Does a step with the block under a name, and answers the block that is there afterwards.  Without
such a block nothing happens where one is needed. -/
def run (name : String) (step : ShelfStep) : Prog Refusal (Shelf × Host) (Option Parcel) :=
  fun (shelf, host) =>
    match step, shelf.find? name with
    | .allocate zeroed align size, _ =>
      match Parcel.allocate zeroed align size host with
      | .ok block host => .ok (some block) (shelf.put ⟨name, block, size⟩, host)
      | .error e host => .error e (shelf, host)
    | .resizeNone align oldSize newSize, _ =>
      match Parcel.resize none align oldSize newSize host with
      | .ok none host => .ok none (shelf, host)
      | .ok (some block) host => .ok (some block) (shelf.put ⟨name, block, newSize⟩, host)
      | .error e host => .error e (shelf, host)
    | .resize align oldSize newSize, some item =>
      match Parcel.resize (some item.block) align oldSize newSize host with
      | .ok none host => .ok none (shelf.without name, host)
      | .ok (some block) host =>
        let size := if newSize ≤ oldSize then item.size else newSize
        .ok (some block) (shelf.put ⟨name, block, size⟩, host)
      | .error e host => .error e (shelf, host)
    | .release, some item =>
      match item.block.release host with
      | .ok () host => .ok none (shelf.without name, host)
      | .error e host => .error e (shelf, host)
    | .write offset bytes, some item =>
      let block := item.block.writeBytes offset bytes
      .ok (some block) (shelf.put { item with block }, host)
    | _, none => .ok none (shelf, host)

/-- Gives back every block in the order of the names. -/
def releaseAll : List String → Prog Refusal (Shelf × Host) Unit
  | [] => pure ()
  | name :: rest => do
    let _ ← ShelfStep.run name .release
    releaseAll rest

end ShelfStep

end AlignedSlots
