import AlignedSlots.FixedInt

/-!
# FNV-1a

The running hash takes in a byte by exclusive or with its low end and then a multiplication with an
odd constant, modulo the power of two of its width.  `Fnv.Variant` holds the two constants of a
width; everything else is the same for both widths.
-/

namespace AlignedSlots

namespace Fnv

/-- The constants of FNV-1a at a width. -/
structure Variant (width : Nat) where
  /-- Where a running hash starts. -/
  basis : BitVec width
  /-- The multiplier. -/
  prime : BitVec width

/-- FNV-1a with 32 bits. -/
def bits32 : Variant 32 := ⟨0x811c9dc5, 0x01000193⟩

/-- FNV-1a with 64 bits. -/
def bits64 : Variant 64 := ⟨0xcbf29ce484222325, 0x00000100000001b3⟩

variable {width : Nat}

/-- Takes one byte into a running hash. -/
def Variant.absorbByte (v : Variant width) (hash : BitVec width) (byte : UInt8) : BitVec width :=
  (hash ^^^ byte.toBitVec.setWidth width) * v.prime

/-- Takes bytes into a running hash, one after the other. -/
def Variant.absorb (v : Variant width) (hash : BitVec width) (bytes : List UInt8) : BitVec width :=
  bytes.foldl v.absorbByte hash

@[simp] theorem Variant.absorb_nil (v : Variant width) (hash : BitVec width) :
    v.absorb hash [] = hash := rfl

@[simp] theorem Variant.absorb_cons (v : Variant width) (hash : BitVec width) (b : UInt8)
    (bs : List UInt8) : v.absorb hash (b :: bs) = v.absorb (v.absorbByte hash b) bs := rfl

/-- Bytes may be taken in piece by piece. -/
theorem Variant.absorb_append (v : Variant width) (hash : BitVec width) (xs ys : List UInt8) :
    v.absorb hash (xs ++ ys) = v.absorb (v.absorb hash xs) ys :=
  List.foldl_append

/-- A hash under way: the 64-bit running hash. -/
structure Stream where
  running : BitVec 64
  deriving DecidableEq

namespace Stream

/-- A hash that starts at a given value. -/
def seeded (seed : BitVec 64) : Stream := ⟨seed⟩

/-- A hash that starts at the basis. -/
def fresh : Stream := seeded bits64.basis

instance : Inhabited Stream := ⟨fresh⟩

/-- Takes in bytes. -/
def absorb (h : Stream) (bytes : List UInt8) : Stream := ⟨bits64.absorb h.running bytes⟩

/-- The hash of all bytes taken in so far. -/
def value (h : Stream) : UInt64 := ⟨h.running⟩

end Stream

end Fnv

end AlignedSlots
