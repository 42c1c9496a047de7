import AlignedSlots.Memory.Cell

/-!
# Elements

What a container stores: values that are written to a fixed number of memory cells and read back from
them.  `LawfulElement` holds the two facts that reading needs: a written value is read back, and
nothing outside its cells matters.
-/

namespace AlignedSlots

/-- A type of values with a layout in memory. -/
class Element (α : Type) where
  /-- How many cells a value takes. -/
  size : Nat
  /-- The power of two whose multiples are proper addresses of a value. -/
  align : Nat
  /-- The cell at an offset below the size. -/
  encode : α → Nat → Cell
  /-- The value whose cells are given by offset. -/
  decode : (Nat → Cell) → α

/-- A layout that loses nothing. -/
class LawfulElement (α : Type) [Element α] : Prop where
  /-- A value is read back from its cells. -/
  decode_encode (x : α) : Element.decode (Element.encode x) = x
  /-- Only the cells below the size are read. -/
  decode_congr (f g : Nat → Cell) (h : ∀ i < Element.size α, f i = g i) :
    (Element.decode f : α) = Element.decode g
  /-- The alignment is a power of two. -/
  align_isPowerOfTwo : (Element.align α).isPowerOfTwo
  /-- The size is a multiple of the alignment. -/
  align_dvd_size : Element.align α ∣ Element.size α

/-- The value that a new slot holds. -/
class Initial (α : Type) where
  initial : α

namespace Layout

/-- The least multiple of `align` from `n` on, for `align > 0`. -/
def roundUp (n align : Nat) : Nat := (n + align - 1) / align * align

end Layout

end AlignedSlots
