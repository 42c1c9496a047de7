import AlignedSlots.Host

/-!
# Aligned blocks

Blocks that start at a multiple of a power of two, cut out of raw blocks that start anywhere.

A request is made larger by `distanceSize + align - 1` bytes.  The usable part, the payload, starts at
the first multiple of `align` at or past the second byte of the raw block, and the distance back to
the start of the raw block is kept in the two bytes in front of it, low byte first:

```text
base          start - 2   start (aligned)
|  padding ...  | distance | payload ... |
```

Giving a block back reads that distance, so it works with the address of the payload alone.
-/

namespace AlignedSlots

/-- Bytes of the distance kept in front of a payload. -/
def distanceSize : Nat := 2

/-- The greatest alignment whose distances fit in the header. -/
def greatestAlign : Nat := 32768

/-- The size of a cache line. -/
def cacheLine : Nat := 64

/-- The alignment of an address held in memory. -/
def addressAlign : Nat := 8

/-- An alignment that can be asked for. -/
def ValidAlign (align : Nat) : Prop := align.isPowerOfTwo ∧ align ≤ greatestAlign

instance (align : Nat) : Decidable (ValidAlign align) := inferInstanceAs (Decidable (_ ∧ _))

/-- A block with an aligned payload: the raw block, and where in it the payload starts. -/
structure Parcel where
  raw : RawBlock
  start : Nat
  deriving DecidableEq, Inhabited

namespace Parcel

/-- The address of the payload. -/
def address (b : Parcel) : Nat := b.raw.base + b.start

/-- Changes the memory of the raw block. -/
def mapCells (b : Parcel) (f : Cells → Cells) : Parcel :=
  match b with
  | ⟨⟨base, cells⟩, start⟩ => ⟨⟨base, f cells⟩, start⟩

/-- The cell at an offset in the payload. -/
@[inline] def peek (b : Parcel) (offset : Nat) : Cell := b.raw.cells.peek (b.start + offset)

/-- The word whose bytes, from the low end, are at an offset in the payload. -/
def word (b : Parcel) (offset : Nat) : UInt64 := b.raw.cells.word (b.start + offset)

/-- Writes cells into the payload. -/
def overwrite (b : Parcel) (offset count : Nat) (source : Nat → Cell) : Parcel :=
  let start := b.start + offset
  b.mapCells fun cells => cells.overwrite start count source

/-- Writes the first `count` cells of another payload over the first ones of this payload. -/
def copy (b source : Parcel) (count : Nat) : Parcel :=
  let start := b.start
  b.mapCells fun cells => cells.copy start source.raw.cells source.start count

/-- Writes one byte over a range of the payload. -/
def fill (b : Parcel) (offset count : Nat) (value : UInt8) : Parcel :=
  let start := b.start + offset
  b.mapCells fun cells => cells.fill start count value

/-- Writes bytes into the payload. -/
def writeBytes (b : Parcel) (offset : Nat) (bytes : List UInt8) : Parcel :=
  let start := b.start + offset
  b.mapCells fun cells => cells.writeBytes start bytes

/-- Moves a range of the payload to another place in it. -/
def move (b : Parcel) (source target count : Nat) : Parcel :=
  let start := b.start
  b.mapCells fun cells => cells.move (start + source) (start + target) count

/-- The bytes of a range of the payload. -/
def bytes (b : Parcel) (offset count : Nat) : List UInt8 :=
  b.raw.cells.bytes (b.start + offset) count

/-- The bytes in front of the payload: padding, and then the distance. -/
def front (b : Parcel) : List UInt8 := b.raw.cells.bytes 0 b.start

/-- The distance kept in front of the payload. -/
def distance (b : Parcel) : Nat :=
  (b.raw.cells.peek (b.start - 2)).toByte.toNat
    + 256 * (b.raw.cells.peek (b.start - 1)).toByte.toNat

/-- Keeps a distance in front of the payload.  The two bytes hold it modulo `2 ^ 16`. -/
def storeDistance (b : Parcel) (distance : Nat) : Parcel :=
  let start := b.start - distanceSize
  b.mapCells fun cells => cells.writeBytes start (littleEndian (BitVec.ofNat 16 distance))

/-- Lower case hexadecimal digits of a number, after `0x`. -/
def hexadecimal (n : Nat) : String := "0x" ++ String.ofList (Nat.toDigits 16 n)

/-- Cuts an aligned payload out of a raw block. -/
def carve (raw : RawBlock) (align : Nat) : Except Fault Parcel := do
  -- The distance is skipped before rounding up, so that it always has room in front of the payload.
  let first ← Word.add raw.base distanceSize
  let start ← Word.roundUp first align
  let distance ← Word.sub start raw.base
  return (Parcel.mk raw distance).storeDistance distance

/-- Allocates a block with a payload of `size` bytes at a multiple of `align`.  With `zeroed` the
whole raw block is cleared first. -/
def allocate (zeroed : Bool) (align size : Nat) : Prog Refusal Host Parcel := do
  Host.trace fun _ => s!"[aligned_alloc] - align={align}, size={size}"
  if ¬ ValidAlign align then Prog.crash (.blockAlignment align greatestAlign)
  if size = 0 then Prog.fail .refused
  let padding ← Word.sub align 1
  let header ← Word.add distanceSize padding
  let some total := Word.add? size header | Prog.fail .refused
  Host.trace fun _ => s!"[aligned_alloc] - hdr_size={header}, alloc size={total}"
  let some raw ← Host.request total | Prog.fail .refused
  let raw := if zeroed then { raw with cells := raw.cells.fill 0 total 0 } else raw
  let block ← carve raw align
  Host.trace fun _ =>
    "[aligned_alloc] - base=" ++ hexadecimal block.raw.base ++ ", aligned="
      ++ hexadecimal block.address ++ s!", offset={block.start}"
  return block

/-- Gives the block back.  The address of the raw block is found through the distance in front of the
payload. -/
def release {ε : Type} (b : Parcel) : Prog ε Host Unit :=
  Host.free (b.address - b.distance)

/-- Brings a block to `newSize` bytes.

* Without a block, one is allocated, unless `newSize` is 0.
* `newSize = 0` gives the block back.
* A block that is large enough is kept: blocks never shrink.
* Otherwise a larger block is allocated, `oldSize` bytes are copied, and the old block is given back.
  Where the allocation fails, the old block stays as it is. -/
def resize (block : Option Parcel) (align oldSize newSize : Nat) :
    Prog Refusal Host (Option Parcel) := do
  Host.trace fun _ =>
    s!"[aligned_realloc] - align={align}, old_size={oldSize}, new_size={newSize}"
  match block with
  | none =>
    if newSize = 0 then return none
    else
      let new ← allocate false align newSize
      return some new
  | some old =>
    if newSize = 0 then
      old.release
      return none
    else if newSize ≤ oldSize then
      return some old
    else
      let new ← allocate false align newSize
      let new := new.copy old oldSize
      old.release
      return some new

end Parcel

end AlignedSlots
