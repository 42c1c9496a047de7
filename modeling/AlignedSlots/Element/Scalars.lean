import AlignedSlots.Decimal.Binary32
import AlignedSlots.Element.Basic
import AlignedSlots.Hash.Digest
import AlignedSlots.Text.Outline
import AlignedSlots.Text.Quoted

/-!
# Simple elements

Numbers, truth values, characters, texts and the unit as elements: their layout in memory, the value
of a new slot, and their outline.
-/

namespace AlignedSlots

/-- A type whose values can be shown to a reader. -/
class Outlined (α : Type) where
  outline : α → Outline

namespace Element

/-- The cells of a bit pattern, low byte first. -/
def encodeBits {w : Nat} (b : BitVec w) (i : Nat) : Cell := .byte (byteAt b i)

/-- The bit pattern of cells, low byte first. -/
def decodeBits (w : Nat) (cells : Nat → Cell) : BitVec w :=
  BitVec.ofNatLT (numberOfBytes (fun i => (cells i).toByte) (w / 8)) <| by
    rw [numberOfBytes_eq]
    exact Nat.lt_of_lt_of_le (ofBytes_lt _ _ _)
      (Nat.pow_le_pow_right (by decide) (Nat.mul_div_le w 8))

instance {f : IntFormat} : Element (FixedInt f) where
  size := f.width / 8
  align := f.width / 8
  encode x := encodeBits x.bits
  decode cells := ⟨decodeBits f.width cells⟩

instance : Element Binary32 where
  size := 4
  align := 4
  encode x := encodeBits x.bits
  decode cells := ⟨decodeBits 32 cells⟩

instance : Element Bool where
  size := 1
  align := 1
  encode x _ := .byte (if x then 1 else 0)
  decode cells := (cells 0).toByte != 0

instance : Element Char where
  size := 4
  align := 4
  encode x := encodeBits (BitVec.ofNat 32 x.toNat)
  decode cells := Char.ofNat (decodeBits 32 cells).toNat

/-- A text is stored as a reference, an address and a length. -/
instance : Element String where
  size := 16
  align := 8
  encode x i := .text x i
  decode cells :=
    match cells 0 with
    | .text x _ => x
    | .byte _ => ""

instance : Element Unit where
  size := 0
  align := 1
  encode _ _ := .byte 0
  decode _ := ()

end Element

namespace Initial

instance {f : IntFormat} : Initial (FixedInt f) := ⟨.ofInt f 0⟩

instance : Initial Binary32 := ⟨⟨0⟩⟩

instance : Initial Bool := ⟨false⟩

instance : Initial Char := ⟨Char.ofNat 0⟩

instance : Initial String := ⟨""⟩

instance : Initial Unit := ⟨()⟩

end Initial

namespace Outlined

instance {f : IntFormat} : Outlined (FixedInt f) := ⟨fun x => .word (toString x.toInt)⟩

instance : Outlined Binary32 := ⟨fun x => .word x.text⟩

instance : Outlined Bool := ⟨fun x => .word (if x then "true" else "false")⟩

instance : Outlined Char := ⟨fun x => .word (Quoted.char x)⟩

instance : Outlined String := ⟨fun x => .word (Quoted.string x)⟩

instance : Outlined Unit := ⟨fun _ => .word "()"⟩

end Outlined

end AlignedSlots
