import AlignedSlots.Element.Scalars

/-!
# Table entries

A slot of a table holds a hash, a key and a value, in this order, each at a multiple of its
alignment.  The hash 0 marks an empty slot, whose key and value mean nothing; so a slot whose bytes
are all zero is empty.
-/

namespace AlignedSlots

/-- The content of a slot of a table. -/
structure Entry (κ ν : Type) where
  hash : UInt64
  key : κ
  value : ν
  deriving DecidableEq

namespace Entry

variable {κ ν : Type}

/-- An empty slot. -/
def isEmpty (e : Entry κ ν) : Bool := e.hash == 0

section Layout

variable (κ ν) [Element κ] [Element ν]

/-- Cells of the hash. -/
def hashSize : Nat := 8

/-- Where the key starts. -/
def keyOffset : Nat := Layout.roundUp hashSize (Element.align κ)

/-- Where the value starts. -/
def valueOffset : Nat := Layout.roundUp (keyOffset κ + Element.size κ) (Element.align ν)

/-- The alignment of an entry. -/
def align : Nat := max hashSize (max (Element.align κ) (Element.align ν))

/-- Cells of an entry. -/
def size : Nat := Layout.roundUp (valueOffset κ ν + Element.size ν) (align κ ν)

end Layout

instance [Element κ] [Element ν] : Element (Entry κ ν) where
  size := size κ ν
  align := align κ ν
  encode e i :=
    if i < hashSize then Element.encodeBits e.hash.toBitVec i
    else if i < keyOffset κ then .byte 0
    else if i < keyOffset κ + Element.size κ then Element.encode e.key (i - keyOffset κ)
    else if i < valueOffset κ ν then .byte 0
    else if i < valueOffset κ ν + Element.size ν then Element.encode e.value (i - valueOffset κ ν)
    else .byte 0
  decode cells :=
    { hash := ⟨Element.decodeBits 64 cells⟩
      key := Element.decode fun i => cells (keyOffset κ + i)
      value := Element.decode fun i => cells (valueOffset κ ν + i) }

end Entry

end AlignedSlots
