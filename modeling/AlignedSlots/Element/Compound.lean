import AlignedSlots.Element.Scalars

/-!
# Compound elements

Elements made of elements: pairs and short fixed sequences, vectors of three components, and a byte
that is alone on two cache lines.
-/

namespace AlignedSlots

/-- A vector of three components. -/
structure Vec3 where
  a : Binary32
  b : Binary32
  c : Binary32
  deriving DecidableEq, Inhabited

instance : BEq Vec3 := ⟨fun v w => v.a == w.a && v.b == w.b && v.c == w.c⟩

/-- A byte that is stored at a multiple of 128. -/
structure Wide where
  value : UInt8
  deriving DecidableEq, Inhabited

namespace Element

/-- Where the second part of a pair starts. -/
def pairOffset (α β : Type) [Element α] [Element β] : Nat :=
  Layout.roundUp (size α) (align β)

/-- The parts of a pair follow one another, each at a multiple of its alignment. -/
instance {α β : Type} [Element α] [Element β] : Element (α × β) where
  size := Layout.roundUp (pairOffset α β + size β) (max (align α) (align β))
  align := max (align α) (align β)
  encode p i :=
    if i < size α then encode p.1 i
    else if pairOffset α β ≤ i ∧ i < pairOffset α β + size β then encode p.2 (i - pairOffset α β)
    else .byte 0
  decode cells := (decode cells, decode fun i => cells (pairOffset α β + i))

/-- The members of a fixed sequence follow one another without gaps. -/
instance {α : Type} {n : Nat} [Element α] : Element (Vector α n) where
  size := n * size α
  align := align α
  encode xs i :=
    match xs[i / size α]? with
    | some x => encode x (i % size α)
    | none => .byte 0
  decode cells := Vector.ofFn fun k => decode fun i => cells (k * size α + i)

instance : Element Vec3 where
  size := 12
  align := 4
  encode v i := if i < 4 then encode v.a i else if i < 8 then encode v.b (i - 4) else encode v.c (i - 8)
  decode cells := ⟨decode cells, decode fun i => cells (4 + i), decode fun i => cells (8 + i)⟩

instance : Element Wide where
  size := 128
  align := 128
  encode w i := .byte (if i = 0 then w.value else 0)
  decode cells := ⟨(cells 0).toByte⟩

end Element

namespace Initial

instance {α β : Type} [Initial α] [Initial β] : Initial (α × β) := ⟨(initial, initial)⟩

instance {α : Type} {n : Nat} [Initial α] : Initial (Vector α n) := ⟨Vector.replicate n initial⟩

instance : Initial Vec3 := ⟨⟨initial, initial, initial⟩⟩

instance : Initial Wide := ⟨⟨0⟩⟩

end Initial

instance : Digest Wide := ⟨fun w => [w.value]⟩

namespace Outlined

instance {α β : Type} [Outlined α] [Outlined β] : Outlined (α × β) :=
  ⟨fun p => .tuple "" [outline p.1, outline p.2]⟩

instance {α : Type} {n : Nat} [Outlined α] : Outlined (Vector α n) :=
  ⟨fun xs => .list (xs.toList.map outline)⟩

instance : Outlined Vec3 :=
  ⟨fun v => .record "Vec3" [("a", outline v.a), ("b", outline v.b), ("c", outline v.c)]⟩

instance : Outlined Wide := ⟨fun w => .tuple "Wide" [.word (toString w.value.toNat)]⟩

end Outlined

end AlignedSlots
